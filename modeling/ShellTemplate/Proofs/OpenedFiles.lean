import ShellTemplate.Proofs.DescriptorTable
import ShellTemplate.Proofs.Launches

/-!
# Which files are opened

The shell opens the files of a command one after another as they are written, and its descriptors
come to refer to them. A launch knows only where each descriptor ends up: it opens the files of the
descriptors in increasing order, and takes a path that comes again in the same mode for the same
file. The two are the same where every file that is written is kept by some descriptor, the
descriptors come to the files in the order in which they are written, and no file is written twice.
-/

namespace ShellTemplate

/-- What a descriptor refers to while redirections are carried out. -/
inductive Handle where
  /-- What the command is given there. -/
  | given (fd : Nat)
  /-- The file that was opened with this number. -/
  | opened (index : Nat)
deriving DecidableEq, Repr, Inhabited

/-- The files that have been opened for a command, in order, and what its descriptors refer to. -/
structure OpenedFiles where
  files : List (Word × FileMode) := []
  handles : Nat → Handle := .given

namespace OpenedFiles

/-- Open a file for a descriptor. -/
def openAt (s : OpenedFiles) (fd : Nat) (path : Word) (mode : FileMode) : OpenedFiles where
  files := s.files ++ [(path, mode)]
  handles := Function.update s.handles fd (.opened s.files.length)

/-- Let a descriptor refer to what another one refers to. -/
def duplicate (s : OpenedFiles) (fd source : Nat) : OpenedFiles :=
  { s with handles := Function.update s.handles fd (s.handles source) }

/-- Carry out one redirection. -/
def carryOut (s : OpenedFiles) (r : Redirect) (target : Word) : OpenedFiles :=
  match r.kind with
  | .out => s.openAt (r.fd.getD 1) target .truncate
  | .append => s.openAt (r.fd.getD 1) target .append
  | .input => s.openAt (r.fd.getD 0) target .read
  | .dupOut => s.duplicate (r.fd.getD 1) (Nat.ofDigitChars 10 target.value 0)
  | .dupIn => s.duplicate (r.fd.getD 0) (Nat.ofDigitChars 10 target.value 0)

/-- The files of a command, opened in the order in which they are written. -/
def ofCommand (command : List Part) : OpenedFiles :=
  (writtenRedirections command).foldl (fun s entry ↦ s.carryOut entry.1 entry.2) {}

/-- The paths and modes of the files, without quotes. -/
def paths (s : OpenedFiles) : List (List Char × FileMode) :=
  s.files.map fun (path, mode) ↦ (path.value, mode)

end OpenedFiles

/-- What a descriptor refers to is what its redirections lead to. -/
inductive Handle.LeadsTo (files : List (Word × FileMode)) : Handle → Target → Prop
  | given (fd : Nat) : LeadsTo files (.given fd) (.descriptor fd)
  | opened {index : Nat} {path : Word} {mode : FileMode}
      (h : files[index]? = some (path, mode)) : LeadsTo files (.opened index) (.file path mode)

variable {s : OpenedFiles} {table : DescriptorTable}

theorem Handle.LeadsTo.of_file {files : List (Word × FileMode)} {handle : Handle} {path : Word}
    {mode : FileMode} (h : handle.LeadsTo files (.file path mode)) :
    ∃ index, handle = .opened index ∧ files[index]? = some (path, mode) := by
  cases h with
  | opened hfile => exact ⟨_, rfl, hfile⟩

theorem Handle.LeadsTo.of_opened {files : List (Word × FileMode)} {index : Nat} {target : Target}
    (h : (Handle.opened index).LeadsTo files target) : ∃ path mode, target = .file path mode := by
  cases h with
  | opened => exact ⟨_, _, rfl⟩

theorem Handle.LeadsTo.append {files : List (Word × FileMode)} {handle : Handle} {target : Target}
    (h : handle.LeadsTo files target) (more : List (Word × FileMode)) :
    handle.LeadsTo (files ++ more) target := by
  cases h with
  | given fd => exact .given fd
  | opened hfile =>
      have hlt := (List.getElem?_eq_some_iff.1 hfile).1
      exact .opened ((List.getElem?_append_left hlt).trans hfile)

theorem Handle.LeadsTo.update {files : List (Word × FileMode)} {handles : Nat → Handle}
    {handle : Handle} {target : Target} (h : ∀ fd, (handles fd).LeadsTo files (table fd))
    (hnew : handle.LeadsTo files target) (fd other : Nat) :
    (Function.update handles fd handle other).LeadsTo files
      (Function.update table fd target other) := by
  by_cases hother : other = fd
  · subst hother
    rw [Function.update_self, Function.update_self]
    exact hnew
  · rw [Function.update_of_ne hother, Function.update_of_ne hother]
    exact h other

namespace OpenedFiles

/-- Every descriptor refers to what the table says. -/
def Agrees (s : OpenedFiles) (table : DescriptorTable) : Prop :=
  ∀ fd, (s.handles fd).LeadsTo s.files (table fd)

theorem Agrees.openAt (h : s.Agrees table) (fd : Nat) (path : Word) (mode : FileMode) :
    (s.openAt fd path mode).Agrees (Function.update table fd (.file path mode)) := by
  have hnew : (Handle.opened s.files.length).LeadsTo (s.files ++ [(path, mode)])
      (.file path mode) := .opened (by simp)
  exact Handle.LeadsTo.update (fun other ↦ (h other).append _) hnew fd

theorem Agrees.duplicate (h : s.Agrees table) (fd source : Nat) :
    (s.duplicate fd source).Agrees (Function.update table fd (table source)) :=
  Handle.LeadsTo.update h (h source) fd

theorem Agrees.carryOut (h : s.Agrees table) (r : Redirect) (target : Word) :
    (s.carryOut r target).Agrees (table.carryOut r target) := by
  unfold OpenedFiles.carryOut DescriptorTable.carryOut
  cases r.kind with
  | out | append | input => exact h.openAt _ _ _
  | dupOut | dupIn => exact h.duplicate _ _

theorem agrees_ofCommand (command : List Part) :
    (ofCommand command).Agrees
      (DescriptorTable.initial.carryOutAll (writtenRedirections command)) := by
  suffices ∀ {s : OpenedFiles} {table : DescriptorTable}, s.Agrees table →
      ((writtenRedirections command).foldl (fun s entry ↦ s.carryOut entry.1 entry.2) s).Agrees
        (table.carryOutAll (writtenRedirections command)) from this fun fd ↦ .given fd
  unfold DescriptorTable.carryOutAll
  induction writtenRedirections command with
  | nil => exact id
  | cons entry rest ih => exact fun h ↦ ih (h.carryOut entry.1 entry.2)

end OpenedFiles

@[refl] theorem SameFile.refl (file : List Char × FileMode) : SameFile file file :=
  ⟨by simp [samePath], rfl⟩

theorem SameFile.symm {first second : List Char × FileMode} (h : SameFile first second) :
    SameFile second first :=
  ⟨by simpa [samePath, eq_comm] using h.1, h.2.symm⟩

/-- The files that are opened, in order. -/
def freshFiles (openings : List Opening) : List (List Char × FileMode) :=
  openings.filterMap fun
    | .fresh _ path mode => some (path, mode)
    | .shared _ _ => none

section Numbers

variable {number : Nat → Nat} {paths : List (List Char × FileMode)}
  {earlier files rest : List (Nat × List Char × FileMode)} {file : Nat × List Char × FileMode}

/-- The file of a descriptor is the one with its number among paths that are all different. -/
structure Numbered (number : Nat → Nat) (paths : List (List Char × FileMode))
    (files : List (Nat × List Char × FileMode)) : Prop where
  file : ∀ file ∈ files, paths[number file.1]? = some file.2
  distinct : paths.Pairwise fun first second ↦ ¬ SameFile first second

/-- The descriptors come to the files in the order of their numbers, and to every one of them. -/
structure InOrder (number : Nat → Nat) (paths : List (List Char × FileMode))
    (files : List (Nat × List Char × FileMode)) : Prop where
  held : ∀ i < paths.length, ∃ file ∈ files, number file.1 = i
  ascending : ∀ before file behind, files = before ++ file :: behind →
    ∀ i < number file.1, ∃ other ∈ before, number other.1 = i

theorem eq_of_sameFile (distinct : paths.Pairwise fun first second ↦ ¬ SameFile first second)
    {i j : Nat} {first second : List Char × FileMode} (hi : paths[i]? = some first)
    (hj : paths[j]? = some second) (same : SameFile first second) : i = j := by
  obtain ⟨hilt, rfl⟩ := List.getElem?_eq_some_iff.1 hi
  obtain ⟨hjlt, rfl⟩ := List.getElem?_eq_some_iff.1 hj
  rcases Nat.lt_trichotomy i j with hlt | heq | hgt
  · exact absurd same (List.pairwise_iff_getElem.1 distinct i j hilt hjlt hlt)
  · exact heq
  · exact absurd same.symm (List.pairwise_iff_getElem.1 distinct j i hjlt hilt hgt)

/-- The numbers of these files are those below `count`. -/
def Reached (number : Nat → Nat) (count : Nat) (files : List (Nat × List Char × FileMode)) : Prop :=
  ∀ i, i < count ↔ ∃ file ∈ files, number file.1 = i

/-- A file that shares its number with one before it adds no number. -/
theorem Reached.concat_old {count : Nat} (h : Reached number count earlier)
    {first : Nat × List Char × FileMode} (hfirst : first ∈ earlier)
    (hnumber : number first.1 = number file.1) : Reached number count (earlier ++ [file]) := by
  intro i
  rw [h i]
  constructor
  · rintro ⟨other, hother, rfl⟩
    exact ⟨other, List.mem_append_left _ hother, rfl⟩
  · rintro ⟨other, hother, rfl⟩
    rcases List.mem_append.1 hother with hother | hother
    · exact ⟨other, hother, rfl⟩
    · obtain rfl := List.mem_singleton.1 hother
      exact ⟨first, hfirst, hnumber⟩

theorem Reached.concat_new (h : Reached number (number file.1) earlier) :
    Reached number (number file.1 + 1) (earlier ++ [file]) := by
  intro i
  rw [Nat.lt_succ_iff_lt_or_eq, h i]
  constructor
  · rintro (⟨other, hother, rfl⟩ | rfl)
    · exact ⟨other, List.mem_append_left _ hother, rfl⟩
    · exact ⟨file, List.mem_append_right _ List.mem_cons_self, rfl⟩
  · rintro ⟨other, hother, rfl⟩
    rcases List.mem_append.1 hother with hother | hother
    · exact .inl ⟨other, hother, rfl⟩
    · obtain rfl := List.mem_singleton.1 hother
      exact .inr rfl

/-- The next file has been opened before, or it is the next one that is opened. -/
theorem openingsAfter_of_reached {count : Nat}
    (numbered : Numbered number paths (earlier ++ file :: rest))
    (inOrder : InOrder number paths (earlier ++ file :: rest))
    (reached : Reached number count earlier) :
    (∃ first ∈ earlier, number first.1 = number file.1 ∧
        Reached number count (earlier ++ [file]) ∧
        Launch.openingsAfter earlier (file :: rest) =
          .shared file.1 first.1 :: Launch.openingsAfter (earlier ++ [file]) rest) ∨
      number file.1 = count ∧ Reached number (count + 1) (earlier ++ [file]) ∧
        Launch.openingsAfter earlier (file :: rest) =
          .fresh file.1 file.2.1 file.2.2 :: Launch.openingsAfter (earlier ++ [file]) rest := by
  have hfile := numbered.file file (by simp)
  rcases Launch.openingsAfter_cons earlier file rest with
    ⟨first, hfirst, hsame, hopenings⟩ | ⟨hdifferent, hopenings⟩
  · have hnumber : number first.1 = number file.1 :=
      eq_of_sameFile numbered.distinct (numbered.file first (by simp [hfirst])) hfile hsame
    exact .inl ⟨first, hfirst, hnumber, reached.concat_old hfirst hnumber, hopenings⟩
  · have hnew : ¬ number file.1 < count := by
      intro hlt
      obtain ⟨other, hother, hnumber⟩ := (reached _).1 hlt
      have hpath := (numbered.file other (by simp [hother])).symm.trans (hnumber ▸ hfile)
      exact hdifferent other hother (Option.some.inj hpath ▸ SameFile.refl _)
    have hnext : ¬ count < number file.1 := by
      intro hlt
      have hcount := (reached count).2 (inOrder.ascending earlier file rest rfl count hlt)
      omega
    obtain rfl : number file.1 = count := by omega
    exact .inr ⟨rfl, reached.concat_new, hopenings⟩

theorem drop_of_reached {count : Nat} (inOrder : InOrder number paths earlier)
    (reached : Reached number count earlier) : paths.drop count = [] := by
  refine List.drop_eq_nil_iff.2 (Nat.le_of_not_lt fun hlt ↦ ?_)
  exact Nat.lt_irrefl count ((reached count).2 (inOrder.held count hlt))

theorem drop_of_numbered (numbered : Numbered number paths (earlier ++ file :: rest)) :
    paths.drop (number file.1) = file.2 :: paths.drop (number file.1 + 1) := by
  obtain ⟨hlt, hfile⟩ := List.getElem?_eq_some_iff.1 (numbered.file file (by simp))
  rw [List.drop_eq_getElem_cons hlt, hfile]

/-- Where the descriptors come to the files in order, these are opened as they are numbered. -/
theorem freshFiles_eq_drop {count : Nat} (reached : Reached number count earlier)
    (numbered : Numbered number paths (earlier ++ rest))
    (inOrder : InOrder number paths (earlier ++ rest)) :
    freshFiles (Launch.openingsAfter earlier rest) = paths.drop count := by
  induction rest generalizing earlier count with
  | nil =>
      rw [List.append_nil] at inOrder
      exact (drop_of_reached inOrder reached).symm
  | cons file rest ih =>
      have hsplit : earlier ++ file :: rest = (earlier ++ [file]) ++ rest := by simp
      rcases openingsAfter_of_reached numbered inOrder reached with
        ⟨first, -, -, hreached, hopenings⟩ | ⟨rfl, hreached, hopenings⟩
      · rw [hopenings]
        exact ih hreached (hsplit ▸ numbered) (hsplit ▸ inOrder)
      · rw [hopenings, drop_of_numbered numbered]
        exact congrArg _ (ih hreached (hsplit ▸ numbered) (hsplit ▸ inOrder))

/-- Open files one after another, up to the first that cannot be opened: their channels. -/
def openInOrder (caller : Process) (options : RunOptions) :
    List (List Char × FileMode) → List Nat → Act (Except RunError (List Nat))
  | [], channels => return .ok channels
  | (path, mode) :: rest, channels => do
    let full := match options.cwd with
      | some dir => joinPath dir path
      | none => path
    match ← caller.openPath (ByteText.ofText full) mode with
    | .error cause => return .error (.redirect full cause)
    | .ok channel => openInOrder caller options rest (channels ++ [channel])

/-- Each descriptor gets the channel of the file with its number. -/
def assigned (number : Nat → Nat) (channels : List Nat)
    (files : List (Nat × List Char × FileMode)) : List (Nat × Nat) :=
  files.filterMap fun file ↦ channels[number file.1]?.map (file.1, ·)

theorem lookup_assigned {channels : List Nat} {channel : Nat} (hfile : file ∈ files)
    (hchannel : channels[number file.1]? = some channel) :
    (assigned number channels files).lookup file.1 = some channel := by
  induction files with
  | nil => cases hfile
  | cons first rest ih =>
      by_cases hfirst : first.1 = file.1
      · simp [assigned, hfirst, hchannel]
      · have hrest : file ∈ rest := (List.mem_cons.1 hfile).resolve_left fun heq ↦
          hfirst (heq ▸ rfl)
        have hne : (file.1 == first.1) = false := beq_eq_false_iff_ne.2 (Ne.symm hfirst)
        rw [assigned, List.filterMap_cons]
        cases channels[number first.1]? with
        | none => exact ih hrest
        | some other =>
            rw [Option.map_some, List.lookup_cons, hne]
            exact ih hrest

theorem assigned_concat {channels : List Nat} {channel : Nat}
    (h : channels[number file.1]? = some channel) :
    assigned number channels (earlier ++ [file]) =
      assigned number channels earlier ++ [(file.1, channel)] := by
  rw [assigned, List.filterMap_append, List.filterMap_cons, h]
  rfl

/-- A new channel changes nothing for the descriptors that have theirs. -/
theorem assigned_append {channels : List Nat} (reached : Reached number channels.length earlier)
    (more : List Nat) :
    assigned number (channels ++ more) earlier = assigned number channels earlier := by
  refine List.filterMap_congr fun other hother ↦ ?_
  rw [List.getElem?_append_left ((reached _).2 ⟨other, hother, rfl⟩)]

theorem openFiles_eq_openInOrder (caller : Process) (options : RunOptions) (channels : List Nat)
    (reached : Reached number channels.length earlier)
    (numbered : Numbered number paths (earlier ++ rest))
    (inOrder : InOrder number paths (earlier ++ rest)) :
    Execution.openFiles caller options (Launch.openingsAfter earlier rest)
        (assigned number channels earlier) =
      Except.map (fun channels ↦ assigned number channels (earlier ++ rest)) <$>
        openInOrder caller options (paths.drop channels.length) channels := by
  induction rest generalizing earlier channels with
  | nil =>
      rw [List.append_nil] at inOrder ⊢
      rw [drop_of_reached inOrder reached]
      rfl
  | cons file rest ih =>
      have hsplit : earlier ++ file :: rest = (earlier ++ [file]) ++ rest := by simp
      rcases openingsAfter_of_reached numbered inOrder reached with
        ⟨first, hfirst, hnumber, hreached, hopenings⟩ | ⟨hcount, hreached, hopenings⟩
      · obtain ⟨channel, hchannel⟩ : ∃ channel, channels[number first.1]? = some channel :=
          ⟨_, List.getElem?_eq_getElem ((reached _).2 ⟨first, hfirst, rfl⟩)⟩
        rw [hopenings, Execution.openFiles, lookup_assigned hfirst hchannel, Option.map_some,
          Option.toList_some, ← assigned_concat (hnumber ▸ hchannel), hsplit]
        exact ih channels hreached (hsplit ▸ numbered) (hsplit ▸ inOrder)
      · rw [hopenings, ← hcount, drop_of_numbered numbered, Execution.openFiles, openInOrder,
          map_eq_pure_bind, bind_assoc]
        refine bind_congr fun answer ↦ ?_
        cases answer with
        | error cause => rfl
        | ok channel =>
            have hassigned : assigned number (channels ++ [channel]) (earlier ++ [file]) =
                assigned number channels earlier ++ [(file.1, channel)] := by
              rw [assigned_concat (hcount ▸ List.getElem?_concat_length), assigned_append reached]
            have hlength : (channels ++ [channel]).length = number file.1 + 1 := by simp [hcount]
            have hreached : Reached number (channels ++ [channel]).length (earlier ++ [file]) := by
              rw [hlength, hcount]
              exact hreached
            have hopen := ih (channels ++ [channel]) hreached (hsplit ▸ numbered) (hsplit ▸ inOrder)
            rw [hassigned, hlength, ← hsplit, map_eq_pure_bind] at hopen
            exact hopen

theorem openingsAfter_append (earlier files more : List (Nat × List Char × FileMode)) :
    Launch.openingsAfter earlier (files ++ more) =
      Launch.openingsAfter earlier files ++ Launch.openingsAfter (earlier ++ files) more := by
  induction files generalizing earlier with
  | nil => simp [Launch.openingsAfter]
  | cons file rest ih =>
      rw [List.cons_append, Launch.openingsAfter, Launch.openingsAfter, ih, List.cons_append,
        List.append_assoc, List.singleton_append]

/-- No file is opened that is the same as one before it. -/
theorem freshFiles_pairwise (earlier files : List (Nat × List Char × FileMode)) :
    (freshFiles (Launch.openingsAfter earlier files)).Pairwise
        (fun first second ↦ ¬ SameFile first second) ∧
      ∀ fresh ∈ freshFiles (Launch.openingsAfter earlier files), ∀ other ∈ earlier,
        ¬ SameFile other.2 fresh := by
  induction files generalizing earlier with
  | nil => simp [Launch.openingsAfter, freshFiles]
  | cons file rest ih =>
      obtain ⟨hpairwise, hrest⟩ := ih (earlier ++ [file])
      have hearlier : ∀ fresh ∈ freshFiles (Launch.openingsAfter (earlier ++ [file]) rest),
          ∀ other ∈ earlier, ¬ SameFile other.2 fresh := fun fresh hfresh other hother ↦
        hrest fresh hfresh other (List.mem_append_left _ hother)
      rcases Launch.openingsAfter_cons earlier file rest with
        ⟨first, -, -, hopenings⟩ | ⟨hdifferent, hopenings⟩
      · rw [hopenings]
        exact ⟨hpairwise, hearlier⟩
      · rw [hopenings]
        refine ⟨List.pairwise_cons.2 ⟨fun fresh hfresh ↦ ?_, hpairwise⟩,
          List.forall_mem_cons.2 ⟨hdifferent, hearlier⟩⟩
        exact hrest fresh hfresh file (List.mem_append_right _ List.mem_cons_self)

theorem exists_of_mem_freshFiles {fresh : List Char × FileMode}
    (h : fresh ∈ freshFiles (Launch.openingsAfter earlier files)) :
    ∃ file ∈ files, file.2 = fresh := by
  induction files generalizing earlier with
  | nil => cases h
  | cons file rest ih =>
      rcases Launch.openingsAfter_cons earlier file rest with
        ⟨first, -, -, hopenings⟩ | ⟨-, hopenings⟩
      · rw [hopenings] at h
        obtain ⟨other, hother, heq⟩ := ih h
        exact ⟨other, List.mem_cons_of_mem _ hother, heq⟩
      · rw [hopenings] at h
        rcases List.mem_cons.1 h with rfl | h
        · exact ⟨file, List.mem_cons_self, rfl⟩
        · obtain ⟨other, hother, heq⟩ := ih h
          exact ⟨other, List.mem_cons_of_mem _ hother, heq⟩

/-- A numbered path that is opened is the file of a descriptor with this number. -/
theorem exists_number_of_fresh (numbered : Numbered number paths files)
    (hsubset : ∀ file ∈ earlier, file ∈ files) {i : Nat} {path : List Char × FileMode}
    (hpath : paths[i]? = some path)
    (hfresh : path ∈ freshFiles (Launch.openingsAfter [] earlier)) :
    ∃ other ∈ earlier, number other.1 = i := by
  obtain ⟨other, hother, rfl⟩ := exists_of_mem_freshFiles hfresh
  have hother' := numbered.file other (hsubset other hother)
  exact ⟨other, hother, eq_of_sameFile numbered.distinct hother' hpath (SameFile.refl _)⟩

/-- Where the files that are opened are the numbered ones, the descriptors come to them in
order. -/
theorem inOrder_of_freshFiles (hfile : ∀ file ∈ files, paths[number file.1]? = some file.2)
    (hfresh : freshFiles (Launch.openingsAfter [] files) = paths) :
    Numbered number paths files ∧ InOrder number paths files := by
  have numbered : Numbered number paths files :=
    ⟨hfile, hfresh ▸ (freshFiles_pairwise [] files).1⟩
  refine ⟨numbered, ⟨fun i hi ↦ ?_, fun before file behind hsplit ↦ ?_⟩⟩
  · exact exists_number_of_fresh numbered (fun _ hmem ↦ hmem) (List.getElem?_eq_getElem hi)
      (hfresh ▸ List.getElem_mem hi)
  · -- A file that is shared is the same as one before it, which is nearer to the start.
    induction hn : before.length using Nat.strongRecOn generalizing before file behind with
    | ind n ih =>
      subst hn
      intro i hi
      have hfront : ∀ other ∈ before, other ∈ files := fun other hother ↦ by simp [hsplit, hother]
      have hmem : file ∈ files := by simp [hsplit]
      rcases Launch.openingsAfter_cons before file behind with
        ⟨first, hfirst, hsame, -⟩ | ⟨-, hopenings⟩
      · have heq : number first.1 = number file.1 :=
          eq_of_sameFile numbered.distinct (hfile first (hfront first hfirst)) (hfile file hmem)
            hsame
        obtain ⟨front, back, rfl⟩ := List.append_of_mem hfirst
        obtain ⟨other, hother, hi⟩ := ih front.length (by simp) front first
          (back ++ file :: behind) (by simp [hsplit]) rfl i (heq ▸ hi)
        exact ⟨other, List.mem_append_left _ hother, hi⟩
      · have hpaths : freshFiles (Launch.openingsAfter [] before) ++
            file.2 :: freshFiles (Launch.openingsAfter (before ++ [file]) behind) = paths := by
          rw [← hfresh, hsplit, openingsAfter_append, List.nil_append, hopenings, freshFiles,
            freshFiles, freshFiles, List.filterMap_append]
          rfl
        have hlength : (freshFiles (Launch.openingsAfter [] before)).length = number file.1 :=
          eq_of_sameFile numbered.distinct (by simp [← hpaths]) (hfile file hmem)
            (SameFile.refl _)
        rw [← hlength] at hi
        refine exists_number_of_fresh numbered hfront ?_ (List.getElem_mem hi)
        rw [← hpaths, List.getElem?_append_left hi, List.getElem?_eq_getElem hi]

end Numbers

theorem Launch.mem_files_ofStage {stage : Stage} {file : Nat × List Char × FileMode} :
    file ∈ (Launch.ofStage stage).files ↔
      ∃ path : Word, (file.1, .file path file.2.2) ∈ stage.redirects ∧ path.value = file.2.1 := by
  obtain ⟨fd, path, mode⟩ := file
  simp only [Launch.ofStage, List.mem_filterMap, Prod.exists]
  constructor
  · rintro ⟨key, target, hentry, hfile⟩
    cases target with
    | descriptor => cases hfile
    | file word mode' =>
        cases hfile
        exact ⟨word, hentry, rfl⟩
  · rintro ⟨word, hentry, rfl⟩
    exact ⟨fd, _, hentry, rfl⟩

theorem Redirects.Ascending.table_of_mem {redirects : Redirects} (h : redirects.Ascending)
    {fd : Nat} {target : Target} (hentry : (fd, target) ∈ redirects) :
    redirects.table fd = target := by
  have hnodup : (redirects.map Prod.fst).Nodup := (List.pairwise_map.2 h).imp Nat.ne_of_lt
  rw [Redirects.table, Redirects.get?, lookup_eq_some_of_mem hnodup hentry]
  rfl

theorem Redirects.mem_of_table_file {redirects : Redirects} {fd : Nat} {path : Word}
    {mode : FileMode} (h : redirects.table fd = .file path mode) :
    (fd, .file path mode) ∈ redirects := by
  rw [Redirects.table] at h
  cases hget : redirects.get? fd with
  | none =>
      rw [hget] at h
      cases h
  | some target =>
      rw [hget] at h
      obtain rfl : target = .file path mode := h
      exact Redirects.mem_of_get? hget

namespace OpenedFiles

/-- The number of the file that a descriptor refers to. -/
def number (s : OpenedFiles) (fd : Nat) : Nat :=
  match s.handles fd with
  | .opened index => index
  | .given _ => 0

theorem number_of_opened {fd index : Nat} (h : s.handles fd = .opened index) :
    s.number fd = index := by
  rw [number, h]

/-- Every file that is opened is kept by a descriptor, a descriptor that refers to a file has the
files before it below, and all files are different. -/
structure Orderly (s : OpenedFiles) : Prop where
  held : ∀ index < s.files.length, ∃ fd, s.handles fd = .opened index
  ascending : ∀ fd later earlier, s.handles fd = .opened later → earlier < later →
    ∃ lower < fd, s.handles lower = .opened earlier
  distinct : s.paths.Pairwise fun first second ↦ ¬ SameFile first second

/-- The files of a launch are those that the descriptors refer to. -/
structure Keeps (s : OpenedFiles) (files : List (Nat × List Char × FileMode)) : Prop where
  handle : ∀ file ∈ files, ∃ index, s.handles file.1 = .opened index ∧
    s.paths[index]? = some file.2
  recorded : ∀ fd index, s.handles fd = .opened index → ∃ file ∈ files, file.1 = fd
  ascending : (files.map Prod.fst).Pairwise (· < ·)

namespace Keeps

variable {files : List (Nat × List Char × FileMode)}

theorem file (h : s.Keeps files) : ∀ file ∈ files, s.paths[s.number file.1]? = some file.2 := by
  intro file hfile
  obtain ⟨index, hhandle, hpath⟩ := h.handle file hfile
  rwa [number_of_opened hhandle]

theorem handle_eq (h : s.Keeps files) {file : Nat × List Char × FileMode} (hfile : file ∈ files) :
    s.handles file.1 = .opened (s.number file.1) := by
  obtain ⟨index, hhandle, -⟩ := h.handle file hfile
  rw [number_of_opened hhandle, hhandle]

/-- The files of the lower descriptors are those before. -/
theorem mem_before_iff (h : s.Keeps files) {before behind : List (Nat × List Char × FileMode)}
    {file other : Nat × List Char × FileMode} (hsplit : files = before ++ file :: behind)
    (hother : other ∈ files) : other ∈ before ↔ other.1 < file.1 := by
  obtain ⟨-, hbehind, hbefore⟩ :=
    List.pairwise_append.1 (hsplit ▸ List.pairwise_map.1 h.ascending)
  refine ⟨fun hmem ↦ hbefore other hmem file List.mem_cons_self, fun hlt ↦ ?_⟩
  rcases List.mem_append.1 (hsplit ▸ hother) with hmem | hmem
  · exact hmem
  · rcases List.mem_cons.1 hmem with rfl | hmem
    · exact absurd hlt (Nat.lt_irrefl _)
    · exact absurd hlt (Nat.lt_asymm ((List.pairwise_cons.1 hbehind).1 other hmem))

theorem orderly_iff (h : s.Keeps files) :
    s.Orderly ↔ Numbered s.number s.paths files ∧ InOrder s.number s.paths files := by
  have hlength : s.paths.length = s.files.length := List.length_map _
  constructor
  · intro orderly
    refine ⟨⟨h.file, orderly.distinct⟩, ⟨fun index hindex ↦ ?_, ?_⟩⟩
    · obtain ⟨fd, hhandle⟩ := orderly.held index (hlength ▸ hindex)
      obtain ⟨file, hfile, rfl⟩ := h.recorded fd index hhandle
      exact ⟨file, hfile, number_of_opened hhandle⟩
    · intro before file behind hsplit index hindex
      have hfile : file ∈ files := by simp [hsplit]
      obtain ⟨lower, hlower, hhandle⟩ :=
        orderly.ascending file.1 _ index (h.handle_eq hfile) hindex
      obtain ⟨other, hother, rfl⟩ := h.recorded lower index hhandle
      exact ⟨other, (h.mem_before_iff hsplit hother).2 hlower, number_of_opened hhandle⟩
  · rintro ⟨numbered, inOrder⟩
    refine ⟨fun index hindex ↦ ?_, fun fd later earlier hhandle hlt ↦ ?_, numbered.distinct⟩
    · obtain ⟨file, hfile, rfl⟩ := inOrder.held index (hlength ▸ hindex)
      exact ⟨file.1, h.handle_eq hfile⟩
    · obtain ⟨file, hfile, rfl⟩ := h.recorded fd later hhandle
      obtain ⟨before, behind, hsplit⟩ := List.append_of_mem hfile
      obtain ⟨other, hother, rfl⟩ := inOrder.ascending before file behind hsplit earlier
        (number_of_opened hhandle ▸ hlt)
      have hmem : other ∈ files := by simp [hsplit, hother]
      exact ⟨other.1, (h.mem_before_iff hsplit hmem).1 hother, h.handle_eq hmem⟩

end Keeps

theorem keeps_of_launchedBy {stage : Stage} {command : List Part}
    (launched : stage.LaunchedBy (Launch.ofStage stage)) (ascending : stage.redirects.Ascending)
    (resolves : stage.Resolves command) : (ofCommand command).Keeps (Launch.ofStage stage).files := by
  have hagrees : ∀ fd, ((ofCommand command).handles fd).LeadsTo (ofCommand command).files
      (stage.redirects.table fd) := fun fd ↦ by
    rw [resolves]
    exact agrees_ofCommand command fd
  refine ⟨fun file hfile ↦ ?_, fun fd index hhandle ↦ ?_, launched.ascending ascending⟩
  · obtain ⟨path, hentry, hpath⟩ := Launch.mem_files_ofStage.1 hfile
    obtain ⟨index, hhandle, hopened⟩ := (ascending.table_of_mem hentry ▸ hagrees file.1).of_file
    refine ⟨index, hhandle, ?_⟩
    rw [paths, List.getElem?_map, hopened, Option.map_some]
    exact congrArg some (Prod.ext hpath rfl)
  · obtain ⟨path, mode, htable⟩ := (hhandle ▸ hagrees fd).of_opened
    exact ⟨(fd, path.value, mode),
      Launch.mem_files_ofStage.2 ⟨path, Redirects.mem_of_table_file htable, rfl⟩, rfl⟩

end OpenedFiles

/-- What a launch opens is what the command says. -/
def OpensAsWritten (run : RunOptions) (launch : Launch) (s : OpenedFiles) : Prop :=
  ∀ caller : Process, Execution.openFiles caller run launch.openings [] =
    Except.map (fun channels ↦ assigned s.number channels launch.files) <$>
      openInOrder caller run s.paths []

/-- The files of a command that needs no shell are those that are written, opened in that order up
to the first that cannot be opened, exactly if the descriptors come to them in that order. -/
theorem Template.compile_opens_written {t : Template} {options : FillOptions} {p : Pipeline}
    (h : t.compile options = .ok p) (direct : p.requiresShell = false) (run : RunOptions) :
    ∃ tokens, t.tokens options = .ok tokens ∧
      List.Forall₂
        (fun launch command ↦
          let s := OpenedFiles.ofCommand command
          (freshFiles launch.openings = s.paths ↔ s.Orderly) ∧
            (s.Orderly → OpensAsWritten run launch s))
        (p.launches run) ((mergeWords tokens).splitOn (.operator .pipe)) := by
  obtain ⟨tokens, htokens, hparse⟩ := bind_eq_ok_iff.1 h
  rw [mapError_eq_ok_iff] at hparse
  obtain ⟨parts, hparts, -⟩ := bind_eq_ok_iff.1 hparse
  rw [parse_eq_map (assemble_eq_ok_iff.1 hparts).1] at hparse
  obtain ⟨stages, hstages, rfl⟩ := map_eq_ok_iff.1 hparse
  refine ⟨tokens, htokens, ?_⟩
  rw [Pipeline.launches, direct, if_neg Bool.false_ne_true, List.forall₂_map_left_iff]
  refine ((List.forall₂_and_left _ _).2 ⟨launchedBy_of_stagesOfParts hstages direct,
    resolves_of_stagesOfParts hstages⟩).imp ?_
  rintro stage command ⟨⟨launched, ascending⟩, resolves⟩
  have keeps := OpenedFiles.keeps_of_launchedBy launched ascending resolves
  have reached : Reached (OpenedFiles.ofCommand command).number 0 [] := fun i ↦ by simp
  refine ⟨⟨fun hfresh ↦ ?_, fun orderly ↦ ?_⟩, fun orderly caller ↦ ?_⟩
  · exact keeps.orderly_iff.2 (inOrder_of_freshFiles keeps.file hfresh)
  · obtain ⟨numbered, inOrder⟩ := keeps.orderly_iff.1 orderly
    exact freshFiles_eq_drop reached numbered inOrder
  · obtain ⟨numbered, inOrder⟩ := keeps.orderly_iff.1 orderly
    exact openFiles_eq_openInOrder caller run [] reached numbered inOrder

/-- A command whose output and errors share one file. -/
def sharedOutput : Template := .ofText "cat <in >out 2>&1".toList

def sharedOutputPipeline : Pipeline where
  stages :=
    [⟨[⟨"cat".toList, "cat".toList, false⟩],
      [(0, .file ⟨"in".toList, "in".toList, false⟩ .read),
        (1, .file ⟨"out".toList, "out".toList, false⟩ .truncate),
        (2, .file ⟨"out".toList, "out".toList, false⟩ .truncate)]⟩]
  line := "cat <in >out 2>&1".toList

def sharedOutputTokens : List Token :=
  [.piece ⟨"cat".toList, "cat".toList, false⟩, .blank, .operator (.redirect ⟨none, .input⟩),
    .piece ⟨"in".toList, "in".toList, false⟩, .blank, .operator (.redirect ⟨none, .out⟩),
    .piece ⟨"out".toList, "out".toList, false⟩, .blank, .operator (.redirect ⟨some 2, .dupOut⟩),
    .piece ⟨['1'], ['1'], false⟩]

theorem compile_opens_written_sharedOutput :
    sharedOutput.compile {} = .ok sharedOutputPipeline ∧
      sharedOutputPipeline.requiresShell = false ∧
      sharedOutput.tokens {} = .ok sharedOutputTokens ∧
      List.Forall₂
        (fun launch command ↦
          let s := OpenedFiles.ofCommand command
          s.paths = [("in".toList, .read), ("out".toList, .truncate)] ∧
            [s.number 0, s.number 1, s.number 2] = [0, 1, 1] ∧ OpensAsWritten {} launch s)
        (sharedOutputPipeline.launches {})
        ((mergeWords sharedOutputTokens).splitOn (.operator .pipe)) := by
  have hcompile : sharedOutput.compile {} = .ok sharedOutputPipeline := by decide +kernel
  have htokens : sharedOutput.tokens {} = .ok sharedOutputTokens := by decide +kernel
  obtain ⟨tokens, htokens', hall⟩ := Template.compile_opens_written hcompile rfl {}
  obtain rfl : sharedOutputTokens = tokens := Except.ok.inj (htokens.symm.trans htokens')
  have hcommands : (mergeWords sharedOutputTokens).splitOn (.operator .pipe) =
      [mergeWords sharedOutputTokens] := by decide +kernel
  rw [hcommands] at hall ⊢
  refine ⟨hcompile, rfl, htokens, ?_⟩
  cases hall with
  | cons hfirst hrest =>
      cases hrest
      have hfresh : freshFiles (Launch.ofStage sharedOutputPipeline.stages.head!).openings =
          (OpenedFiles.ofCommand (mergeWords sharedOutputTokens)).paths := by decide +kernel
      exact .cons ⟨by decide +kernel, by decide +kernel, hfirst.2 (hfirst.1.1 hfresh)⟩ .nil

/-- A command whose output goes to two files, of which the second one is kept. -/
def overriddenOutput : Template := .ofText "printf x > a > b".toList

/-- The first of two files for the output is never opened, though the shell makes it. -/
theorem overridden_file_unopened :
    ∃ p tokens, overriddenOutput.compile {} = .ok p ∧ p.requiresShell = false ∧
      overriddenOutput.tokens {} = .ok tokens ∧
      ((mergeWords tokens).splitOn (.operator .pipe)).map
          (fun command ↦ (OpenedFiles.ofCommand command).paths) =
        [[(['a'], .truncate), (['b'], .truncate)]] ∧
      (p.launches {}).map (fun launch ↦ freshFiles launch.openings) = [[(['b'], .truncate)]] := by
  have htokens : overriddenOutput.tokens {} = .ok
      [.piece ⟨"printf".toList, "printf".toList, false⟩, .blank, .piece ⟨['x'], ['x'], false⟩,
        .blank, .operator (.redirect ⟨none, .out⟩), .blank, .piece ⟨['a'], ['a'], false⟩, .blank,
        .operator (.redirect ⟨none, .out⟩), .blank, .piece ⟨['b'], ['b'], false⟩] := by
    decide +kernel
  obtain ⟨p, hcompile, direct, hfresh⟩ : ∃ p, overriddenOutput.compile {} = .ok p ∧
      p.requiresShell = false ∧
      (p.launches {}).map (fun launch ↦ freshFiles launch.openings) = [[(['b'], .truncate)]] := by
    rw [Template.compile, htokens]
    exact ⟨_, rfl, rfl, rfl⟩
  exact ⟨p, _, hcompile, direct, htokens, by decide +kernel, hfresh⟩

end ShellTemplate
