import Mathlib.Data.List.Nodup
import Mathlib.Data.List.Pairwise
import ShellTemplate.Proofs.Stages
import ShellTemplate.Proofs.Starting
import ShellTemplate.Proofs.Words

/-!
# What is started

A stage that needs no shell has a word to start and no redirection but to files at the three
standard descriptors. So its launch has all of it, and the process that is started for the launch
has every one of its files at the descriptor that it was opened for.
-/

namespace ShellTemplate

section Files

theorem lookup_eq_some_of_mem {α : Type} {entries : List (Nat × α)}
    (hkeys : (entries.map Prod.fst).Nodup) {key : Nat} {value : α} (h : (key, value) ∈ entries) :
    entries.lookup key = some value := by
  obtain ⟨before, behind, rfl⟩ := List.append_of_mem h
  refine List.lookup_eq_some_iff.2 ⟨before, behind, rfl, fun entry hentry ↦ ?_⟩
  rw [List.map_append, List.map_cons] at hkeys
  have hne : entry.1 ≠ key :=
    (List.nodup_append.1 hkeys).2.2 _ (List.mem_map_of_mem hentry) _ List.mem_cons_self
  simpa using hne.symm

/-- A recorded redirection leads to this file, at a descriptor that every process starts with. -/
def LeadsToFile (redirect : Nat × Target) (file : Nat × List Char × FileMode) : Prop :=
  redirect.1 = file.1 ∧ file.1 ≤ 2 ∧
    ∃ path, redirect.2 = .file path file.2.2 ∧ path.value = file.2.1 ∧ path.expands = false

/-- The launch has all of the stage: the words are the program and its arguments, and every
redirection is one of the files. -/
structure Stage.LaunchedBy (stage : Stage) (launch : Launch) : Prop where
  words : stage.argv.map Word.value = launch.program :: launch.args
  files : List.Forall₂ LeadsToFile stage.redirects launch.files

theorem redirectNeedsShell_eq_false {redirect : Nat × Target}
    (h : Stage.redirectNeedsShell redirect = false) :
    ∃ fd path mode, redirect = (fd, .file path mode) ∧ fd ≤ 2 ∧ path.expands = false := by
  obtain ⟨fd, target⟩ := redirect
  cases target with
  | descriptor => cases h
  | file path mode =>
      simp only [Stage.redirectNeedsShell, Bool.or_eq_false_iff, decide_eq_false_iff_not,
        Nat.not_lt] at h
      exact ⟨fd, path, mode, rfl, h⟩

theorem Launch.forall₂_files {redirects : Redirects}
    (h : ∀ redirect ∈ redirects, Stage.redirectNeedsShell redirect = false) :
    List.Forall₂ LeadsToFile redirects (Launch.ofStage ⟨[], redirects⟩).files := by
  induction redirects with
  | nil => exact .nil
  | cons redirect rest ih =>
      obtain ⟨fd, path, mode, rfl, hfd, hpath⟩ :=
        redirectNeedsShell_eq_false (h redirect List.mem_cons_self)
      exact .cons ⟨rfl, hfd, path, rfl, rfl, hpath⟩
        (ih fun other hother ↦ h other (List.mem_cons_of_mem _ hother))

theorem Stage.launchedBy_ofStage {stage : Stage} (direct : stage.needsShell = false)
    (named : stage.argv ≠ []) : stage.LaunchedBy (Launch.ofStage stage) := by
  obtain ⟨argv, redirects⟩ := stage
  simp only [needsShell, Bool.or_eq_false_iff, List.any_eq_false] at direct
  refine ⟨?_, Launch.forall₂_files fun redirect hredirect ↦ ?_⟩
  · cases argv with
    | nil => exact absurd rfl named
    | cons => rfl
  · exact Bool.eq_false_iff.2 (direct.2 redirect hredirect)

/-- The descriptors of recorded redirections are in increasing order. -/
def Redirects.Ascending (redirects : Redirects) : Prop :=
  redirects.Pairwise fun first second ↦ first.1 < second.1

theorem Redirects.Ascending.set {redirects : Redirects} (h : redirects.Ascending) (fd : Nat)
    (target : Target) : (redirects.set fd target).Ascending := by
  unfold Ascending at h ⊢
  fun_induction Redirects.set fd target redirects with
  | case1 => simp
  | case2 k t rest hlt =>
      refine List.pairwise_cons.2 ⟨fun entry hentry ↦ ?_, h⟩
      rcases List.mem_cons.1 hentry with rfl | hentry
      · exact hlt
      · exact Nat.lt_trans hlt ((List.pairwise_cons.1 h).1 entry hentry)
  | case3 t rest hlt => exact List.pairwise_cons.2 (List.pairwise_cons.1 h)
  | case4 k t rest hlt hne ih =>
      obtain ⟨hfirst, hrest⟩ := List.pairwise_cons.1 h
      refine List.pairwise_cons.2 ⟨fun entry hentry ↦ ?_, ih hrest⟩
      rcases Redirects.mem_set hentry with rfl | hentry
      · simp only
        omega
      · exact hfirst entry hentry

theorem Redirects.Ascending.apply {redirects applied : Redirects} (h : redirects.Ascending)
    {r : Redirect} {target : Word} (happly : redirects.apply r target = .ok applied) :
    applied.Ascending := by
  unfold Redirects.apply at happly
  split at happly
  case h_1 | h_2 | h_3 =>
    cases happly
    exact h.set _ _
  all_goals
    split at happly
    · cases happly
      exact h.set _ _
    · cases happly

/-- Every command of a pipeline has words, and records its descriptors in order. -/
theorem ascending_of_stagesOfParts {parts : List Part} {stages : List Stage}
    (h : stagesOfParts parts = .ok stages) :
    ∀ stage ∈ stages, stage.redirects.Ascending ∧ stage.argv ≠ [] :=
  PartialPipeline.forall_of_read (P := fun stage ↦ stage.redirects.Ascending) .nil
    (fun _ _ hstage ↦ hstage) (fun _ _ _ _ hstage happly ↦ hstage.apply happly) h .nil (by simp)

end Files

section Opened

open Execution

variable {caller : Process} {options : RunOptions}

/-- Two files that a launch takes for one: the same path in the same mode. -/
def SameFile (first second : List Char × FileMode) : Prop :=
  samePath first.1 second.1 = true ∧ first.2 = second.2

/-- A file is taken for one before it, or it is opened. -/
theorem Launch.openingsAfter_cons (earlier : List (Nat × List Char × FileMode))
    (file : Nat × List Char × FileMode) (rest : List (Nat × List Char × FileMode)) :
    (∃ first ∈ earlier, SameFile first.2 file.2 ∧ openingsAfter earlier (file :: rest) =
        .shared file.1 first.1 :: openingsAfter (earlier ++ [file]) rest) ∨
      (∀ first ∈ earlier, ¬ SameFile first.2 file.2) ∧ openingsAfter earlier (file :: rest) =
        .fresh file.1 file.2.1 file.2.2 :: openingsAfter (earlier ++ [file]) rest := by
  obtain ⟨fd, path, mode⟩ := file
  rw [openingsAfter]
  split
  case h_1 first firstPath firstMode hfind =>
      have hsame := List.find?_some hfind
      rw [Bool.and_eq_true, decide_eq_true_eq] at hsame
      exact .inl ⟨(first, firstPath, firstMode), List.mem_of_find?_eq_some hfind, hsame, rfl⟩
  case h_2 hfind =>
      refine .inr ⟨fun first hfirst hsame ↦ List.find?_eq_none.1 hfind first hfirst ?_, rfl⟩
      rw [Bool.and_eq_true, decide_eq_true_eq]
      exact hsame

/-- When the files of a launch have been opened, each of its descriptors has a channel. -/
theorem keys_of_openFiles {earlier files : List (Nat × List Char × FileMode)}
    {opened result : List (Nat × Nat)} {w w' : World}
    (hopened : opened.map Prod.fst = earlier.map Prod.fst)
    (h : (openFiles caller options (Launch.openingsAfter earlier files) opened).Gives w
      (.ok result) w') :
    result.map Prod.fst = (earlier ++ files).map Prod.fst := by
  induction files generalizing earlier opened w with
  | nil =>
      obtain ⟨hresult, -⟩ := Act.gives_pure.1 h
      cases hresult
      simpa using hopened
  | cons file rest ih =>
      have hnext : ∀ channel, (opened ++ [(file.1, channel)]).map Prod.fst =
          (earlier ++ [file]).map Prod.fst := by simp [hopened]
      rcases Launch.openingsAfter_cons earlier file rest with
        ⟨first, hfirst, -, hopenings⟩ | ⟨-, hopenings⟩
      · obtain ⟨channel, hchannel⟩ : ∃ channel, opened.lookup first.1 = some channel := by
          have hkey : first.1 ∈ opened.map Prod.fst := hopened ▸ List.mem_map_of_mem hfirst
          obtain ⟨entry, hentry, hfd⟩ := List.mem_map.1 hkey
          exact Option.isSome_iff_exists.1
            (List.lookup_isSome_iff.2 ⟨entry, hentry, by simp [hfd]⟩)
        simp only [hopenings, openFiles, hchannel, Option.map_some, Option.toList_some] at h
        simpa using ih (hnext channel) h
      · simp only [hopenings, openFiles] at h
        obtain ⟨answer, w₁, -, hrest⟩ := Act.gives_bind.1 h
        cases answer with
        | error cause =>
            obtain ⟨hresult, -⟩ := Act.gives_pure.1 hrest
            cases hresult
        | ok channel => simpa using ih (hnext channel) hrest

/-- A process runs a launch: it has its words, and each of the files at its descriptor. -/
structure Launch.RunBy (launch : Launch) (opened : List (Nat × Nat)) (p : Process) : Prop where
  argv : p.argv = (launch.program :: launch.args).map ByteText.ofText
  fds : opened.map Prod.fst = launch.files.map Prod.fst
  channels : ∀ fd channel, (fd, channel) ∈ opened → p.channel? fd = some channel

/-- A branch of a run is a process that runs the launch, with the files that were opened for it. -/
def Launch.StartedAs (caller : Process) (options : RunOptions) (launch : Launch)
    (branch : Branch) : Prop :=
  ∃ w opened w' program p, (openFiles caller options launch.openings []).Gives w (.ok opened) w' ∧
    branch.work = Shell.start Shell.depthLimit program p ∧ launch.RunBy opened p

/-- The files of a launch are what its descriptors lead to. -/
structure Wiring.UsesFiles (wiring : Wiring) (launch : Launch) : Prop where
  stdin : launch.hasFile 0 = true → wiring.stdin = .file
  stdout : launch.hasFile 1 = true → wiring.stdout = .file
  stderr : launch.hasFile 2 = true → wiring.stderr = .file

theorem Wiring.usesFiles_ofLaunches (options : RunOptions) (isFirst isFed : Bool)
    (launches : List Launch) :
    List.Forall₂ (fun launch wiring ↦ UsesFiles wiring launch) launches
      (ofLaunches options isFirst isFed launches) := by
  induction launches generalizing isFirst isFed with
  | nil => exact .nil
  | cons launch rest ih =>
      refine .cons ⟨fun h ↦ ?_, fun h ↦ ?_, fun h ↦ ?_⟩ (ih _ _)
      · exact if_pos h
      · exact if_pos h
      · exact if_pos h

/-- The files of a launch have descriptors of their own, among those of every process. -/
structure Launch.Standard (launch : Launch) : Prop where
  nodup : (launch.files.map Prod.fst).Nodup
  le_two : ∀ file ∈ launch.files, file.1 ≤ 2

theorem hasFile_iff {launch : Launch} {fd : Nat} :
    launch.hasFile fd = true ↔ fd ∈ launch.files.map Prod.fst := by
  simp [Launch.hasFile]

/-- A process finds each file that was opened for it at its descriptor, if the standard channels
lead to these files. -/
theorem lookup_standard {opened : List (Nat × Nat)} {stdin stdout stderr : Option Nat}
    (nodup : (opened.map Prod.fst).Nodup) (hle : ∀ fd ∈ opened.map Prod.fst, fd ≤ 2)
    (hzero : 0 ∈ opened.map Prod.fst → stdin = opened.lookup 0)
    (hone : 1 ∈ opened.map Prod.fst → stdout = opened.lookup 1)
    (htwo : 2 ∈ opened.map Prod.fst → stderr = opened.lookup 2) {fd channel : Nat}
    (h : (fd, channel) ∈ opened) :
    ([(0, stdin), (1, stdout), (2, stderr)].filterMap fun (fd, channel) ↦
      channel.map (fd, ·)).lookup fd = some channel := by
  have hlookup : opened.lookup fd = some channel := lookup_eq_some_of_mem nodup h
  have hfd : fd ∈ opened.map Prod.fst := List.mem_map_of_mem h
  match fd, hle fd hfd with
  | 0, _ =>
      rw [hzero hfd, hlookup]
      rfl
  | 1, _ =>
      rw [hone hfd, hlookup]
      cases stdin <;> rfl
  | 2, _ =>
      rw [htwo hfd, hlookup]
      cases stdin <;> cases stdout <;> rfl

theorem RunState.started_start {α : Type} (stages : Nat) :
    (RunState.start stages : RunState α).started = [] := by
  unfold RunState.start
  split_ifs <;> rfl

/-- A run that starts a process of its next stage goes on to the stage behind. -/
theorem RunState.step_spawned {α : Type} {run : RunState α} {index : Nat}
    (h : run.phase = .opening index) (count : Nat) (process : α) :
    let next := ((run.step count .succeeded).step count .succeeded).step count (.spawned process)
    next.started = run.started ++ [process] ∧
      (index + 1 < count → next.phase = .opening (index + 1)) := by
  simp only [step, h, true_and]
  exact fun hlt ↦ if_pos hlt

/-- A stage comes to an error, and the run is over; or a process is started that runs its
launch. -/
theorem startStage_cases {count index : Nat} {s s' : Starting} {launch : Launch}
    {wiring : Wiring} {next : Option Launch} {w w' : World} (standard : launch.Standard)
    (uses : wiring.UsesFiles launch) (hphase : s.run.phase = .opening index)
    (h : (startStage caller options count s ((launch, wiring, next), index)).Gives w s' w') :
    (∃ e ending, s'.error = some e ∧ s'.run.phase = .aborting ending) ∨
      ∃ branch, launch.StartedAs caller options branch ∧
        s'.run = ((s.run.step count .succeeded).step count .succeeded).step count
          (.spawned branch) := by
  cases startStage_comes hphase h with
  | openFailed e =>
      exact .inl ⟨e, .openFailed index, rfl, by simp [RunState.step, RunState.abort, hphase]⟩
  | spawnFailed =>
      exact .inl ⟨_, .spawnFailed index, rfl, by simp [RunState.step, RunState.abort, hphase]⟩
  | started st _ hconnects =>
      obtain ⟨w₁, w₂, w₃, hfiles, -, hstdin, hstdout, hstderr⟩ := hconnects.connects
      have hkeys : st.files.map Prod.fst = launch.files.map Prod.fst := by
        simpa using keys_of_openFiles rfl hfiles
      have hfile : ∀ fd ∈ st.files.map Prod.fst, launch.hasFile fd = true := fun fd hfd ↦
        hasFile_iff.2 (hkeys ▸ hfd)
      have hle : ∀ fd ∈ st.files.map Prod.fst, fd ≤ 2 := by
        rw [hkeys]
        exact List.forall_mem_map.2 standard.le_two
      have hzero : 0 ∈ st.files.map Prod.fst → st.stdin = st.files.lookup 0 := fun hfd ↦ by
        rw [uses.stdin (hfile 0 hfd)] at hstdin
        exact (Act.gives_pure.1 hstdin).1
      have hone : 1 ∈ st.files.map Prod.fst → st.stdout = st.files.lookup 1 := fun hfd ↦ by
        rw [uses.stdout (hfile 1 hfd)] at hstdout
        exact congrArg Prod.fst (Act.gives_pure.1 hstdout).1
      have htwo : 2 ∈ st.files.map Prod.fst → st.stderr = st.files.lookup 2 := fun hfd ↦ by
        rw [uses.stderr (hfile 2 hfd)] at hstderr
        exact congrArg Prod.fst (Act.gives_pure.1 hstderr).1
      refine .inr ⟨_, ⟨w, st.files, w₁, st.program, _, hfiles, rfl, rfl, hkeys, ?_⟩, rfl⟩
      exact fun fd channel hmem ↦
        lookup_standard (hkeys ▸ standard.nodup) hle hzero hone htwo hmem

/-- Once a run is over, no more of its stages are started. -/
theorem foldlM_startStage_of_over {count : Nat} {s s' : Starting} {w w' : World}
    {stages : List ((Launch × Wiring × Option Launch) × Nat)}
    (hover : ∀ index, s.run.phase ≠ .opening index)
    (h : (stages.foldlM (startStage caller options count) s).Gives w s' w') : s' = s ∧ w' = w := by
  induction stages generalizing w with
  | nil => exact Act.gives_pure.1 h
  | cons stage rest ih =>
      obtain ⟨⟨launch, wiring, next⟩, index⟩ := stage
      rw [List.foldlM_cons] at h
      obtain ⟨s₁, w₁, hstage, hrest⟩ := Act.gives_bind.1 h
      obtain ⟨rfl, rfl⟩ := startStage_of_ne (hover index) hstage
      exact ih hrest

/-- Where no stage comes to an error, a process has been started for each launch, in order. -/
theorem foldlM_startStage_started {count index : Nat} {s s' : Starting} {w w' : World}
    {stages : List (Launch × Wiring × Option Launch)}
    (hstages : ∀ stage ∈ stages, stage.1.Standard ∧ stage.2.1.UsesFiles stage.1)
    (hcount : index + stages.length = count)
    (hphase : stages ≠ [] → s.run.phase = .opening index)
    (h : ((stages.zipIdx index).foldlM (startStage caller options count) s).Gives w s' w')
    (hnone : s'.error = none) :
    ∃ branches, s'.run.started = s.run.started ++ branches ∧
      List.Forall₂ (Launch.StartedAs caller options) (stages.map Prod.fst) branches := by
  induction stages generalizing index s w with
  | nil =>
      obtain ⟨rfl, -⟩ := Act.gives_pure.1 h
      exact ⟨[], by simp, .nil⟩
  | cons stage rest ih =>
      obtain ⟨launch, wiring, next⟩ := stage
      rw [List.zipIdx_cons, List.foldlM_cons] at h
      obtain ⟨s₁, w₁, hstage, h⟩ := Act.gives_bind.1 h
      obtain ⟨standard, uses⟩ := hstages _ List.mem_cons_self
      have hopening := hphase (by simp)
      rcases startStage_cases standard uses hopening hstage with
        ⟨e, ending, herror, haborting⟩ | ⟨branch, hbranch, hrun⟩
      · obtain ⟨rfl, -⟩ := foldlM_startStage_of_over (by simp [haborting]) h
        cases hnone.symm.trans herror
      · obtain ⟨hstarted, hnext⟩ := RunState.step_spawned hopening count branch
        rw [List.length_cons] at hcount
        obtain ⟨branches, hbranches, hall⟩ := ih
          (fun other hother ↦ hstages other (List.mem_cons_of_mem _ hother)) (by omega)
          (fun hrest ↦ by
            have hpos := List.length_pos_of_ne_nil hrest
            rw [hrun]
            exact hnext (by omega)) h
        refine ⟨branch :: branches, ?_, .cons hbranch hall⟩
        rw [hbranches, hrun, hstarted, List.append_assoc, List.singleton_append]

end Opened

namespace Pipeline

open Execution

/-- Start every process of a run. -/
def startAll (p : Pipeline) (options : RunOptions) (caller : Process) : Act Starting :=
  let launches := p.launches options
  let nexts := launches.tail.map some ++ [none]
  (launches.zip ((wirings options launches).zip nexts)).zipIdx.foldlM
    (startStage caller options launches.length) { run := .start launches.length }

/-- A run starts all its processes first, and goes on if none of them comes to an error. -/
theorem execute_eq (p : Pipeline) (options : RunOptions) (caller : Process) :
    p.execute options caller =
      match options.capture.encoding? with
      | .error e => return { result := .error e }
      | .ok encoding => (do
        let time := (← get).clock
        let s ← p.startAll options caller
        match s.error with
        | some e =>
            return { result := .error e
                     run := s.run.step (p.launches options).length .succeeded }
        | none => complete caller options p.line encoding time s) := rfl

/-- The launches of a run, each with its wiring and the launch behind it. -/
def tasks (p : Pipeline) (options : RunOptions) : List (Launch × Wiring × Option Launch) :=
  (p.launches options).zip ((wirings options (p.launches options)).zip
    ((p.launches options).tail.map some ++ [none]))

theorem startAll_eq (p : Pipeline) (options : RunOptions) (caller : Process) :
    p.startAll options caller =
      (p.tasks options).zipIdx.foldlM (startStage caller options (p.launches options).length)
        { run := .start (p.launches options).length } := rfl

theorem length_wirings (options : RunOptions) (launches : List Launch) :
    (wirings options launches).length = launches.length :=
  (Wiring.usesFiles_ofLaunches options true false launches).length_eq.symm

theorem map_fst_tasks (p : Pipeline) (options : RunOptions) :
    (p.tasks options).map Prod.fst = p.launches options := by
  refine List.map_fst_zip ?_
  simp only [List.length_zip, length_wirings, List.length_append, List.length_map,
    List.length_tail, List.length_singleton]
  omega

theorem length_tasks (p : Pipeline) (options : RunOptions) :
    (p.tasks options).length = (p.launches options).length := by
  rw [← map_fst_tasks, List.length_map]

theorem phase_start (p : Pipeline) {options : RunOptions} (hne : p.tasks options ≠ []) :
    (RunState.start (p.launches options).length : RunState Branch).phase = .opening 0 := by
  have hpos := List.length_pos_of_ne_nil hne
  rw [length_tasks] at hpos
  exact congrArg RunState.phase (if_neg (by omega))

theorem mem_zip_of_mem_zip_zip {α β γ : Type} {as : List α} {bs : List β} {cs : List γ} {a : α}
    {b : β} {c : γ} (h : (a, b, c) ∈ as.zip (bs.zip cs)) : (a, b) ∈ as.zip bs := by
  obtain ⟨i, hi, heq⟩ := List.mem_iff_getElem.1 h
  simp only [List.length_zip] at hi
  rw [List.getElem_zip, List.getElem_zip] at heq
  cases heq
  exact List.mem_iff_getElem.2 ⟨i, by rw [List.length_zip]; omega, List.getElem_zip⟩

/-- Where no process of a run comes to an error, there is one for each launch, in order. -/
theorem startAll_started {p : Pipeline} {options : RunOptions} {caller : Process} {s : Starting}
    {w w' : World} (standard : ∀ launch ∈ p.launches options, launch.Standard)
    (h : (p.startAll options caller).Gives w s w') (hnone : s.error = none) :
    List.Forall₂ (Launch.StartedAs caller options) (p.launches options) s.run.started := by
  rw [startAll_eq] at h
  have hstages : ∀ task ∈ p.tasks options, task.1.Standard ∧ task.2.1.UsesFiles task.1 := by
    rintro ⟨launch, wiring, next⟩ htask
    obtain ⟨-, huses⟩ := List.forall₂_iff_zip.1
      (Wiring.usesFiles_ofLaunches options true false (p.launches options))
    exact ⟨standard launch (List.of_mem_zip htask).1, huses (mem_zip_of_mem_zip_zip htask)⟩
  have hcount : 0 + (p.tasks options).length = (p.launches options).length := by
    rw [Nat.zero_add, length_tasks]
  obtain ⟨branches, hbranches, hall⟩ :=
    foldlM_startStage_started hstages hcount p.phase_start h hnone
  rw [map_fst_tasks] at hall
  rwa [hbranches, RunState.started_start, List.nil_append]

end Pipeline

theorem Stage.LaunchedBy.fds {stage : Stage} {launch : Launch} (h : stage.LaunchedBy launch) :
    stage.redirects.map Prod.fst = launch.files.map Prod.fst := by
  rw [← List.forall₂_eq_eq_eq, List.forall₂_map_left_iff, List.forall₂_map_right_iff]
  exact h.files.imp fun _ _ hleads ↦ hleads.1

theorem Stage.LaunchedBy.ascending {stage : Stage} {launch : Launch} (h : stage.LaunchedBy launch)
    (ascending : stage.redirects.Ascending) : (launch.files.map Prod.fst).Pairwise (· < ·) := by
  rw [← h.fds]
  exact List.pairwise_map.2 ascending

/-- The launch of a stage that needs no shell has its files at descriptors of their own. -/
theorem Stage.LaunchedBy.standard {stage : Stage} {launch : Launch} (h : stage.LaunchedBy launch)
    (ascending : stage.redirects.Ascending) : launch.Standard := by
  refine ⟨(h.ascending ascending).imp Nat.ne_of_lt, fun file hfile ↦ ?_⟩
  obtain ⟨i, hi, rfl⟩ := List.mem_iff_getElem.1 hfile
  exact (h.files.get (h.files.length_eq ▸ hi) hi).2.1

/-- Where no shell is needed, every stage that is read has a launch with all of it. -/
theorem launchedBy_of_stagesOfParts {parts : List Part} {p : Pipeline}
    (h : stagesOfParts parts = .ok p.stages) (direct : p.requiresShell = false) :
    ∀ stage ∈ p.stages,
      stage.LaunchedBy (Launch.ofStage stage) ∧ stage.redirects.Ascending := by
  intro stage hstage
  obtain ⟨ascending, named⟩ := ascending_of_stagesOfParts h stage hstage
  have hdirect : stage.needsShell = false :=
    Bool.eq_false_iff.2 (List.any_eq_false.1 direct stage hstage)
  exact ⟨Stage.launchedBy_ofStage hdirect named, ascending⟩

/-- A pipeline that needs no shell is started stage by stage, with all that its stages have;
another one is started as one shell with the whole command line. -/
theorem Template.compile_launches {t : Template} {options : FillOptions} {p : Pipeline}
    (h : t.compile options = .ok p) (run : RunOptions) :
    (p.requiresShell = false → List.Forall₂ Stage.LaunchedBy p.stages (p.launches run)) ∧
      (p.requiresShell = true → p.launches run =
        [⟨run.shell, ["-c".toList, if run.pipefail then Launch.pipefailLead ++ p.line else p.line],
          []⟩]) ∧
      ∀ (caller : Process) (w : World) (s : Execution.Starting) (w' : World),
        (p.startAll run caller).Gives w s w' → s.error = none →
          List.Forall₂ (Launch.StartedAs caller run) (p.launches run) s.run.started := by
  obtain ⟨_, tokens, -, -, -, hstages, -⟩ := compile_eq_ok_iff.1 h
  refine ⟨fun direct ↦ ?_, fun shell ↦ if_pos shell, fun caller w s w' hgives hnone ↦ ?_⟩
  · rw [Pipeline.launches, direct]
    exact List.forall₂_map_right_iff.2 (List.forall₂_same.2 fun stage hstage ↦
      (launchedBy_of_stagesOfParts hstages direct stage hstage).1)
  · refine Pipeline.startAll_started (fun launch hlaunch ↦ ?_) hgives hnone
    cases hshell : p.requiresShell with
    | true =>
        rw [Pipeline.launches, hshell, if_pos rfl, List.mem_singleton] at hlaunch
        subst hlaunch
        exact ⟨List.nodup_nil, by simp [Launch.ofLine]⟩
    | false =>
        rw [Pipeline.launches, hshell] at hlaunch
        obtain ⟨stage, hstage, rfl⟩ := List.mem_map.1 hlaunch
        obtain ⟨launched, ascending⟩ := launchedBy_of_stagesOfParts hstages hshell stage hstage
        exact launched.standard ascending

/-- Two commands with files at all three descriptors. -/
def sortedWords : Template := ⟨[.literal "sort <in 2>err | wc >out".toList]⟩

def sortedPipeline : Pipeline where
  stages :=
    [⟨[⟨"sort".toList, "sort".toList, false⟩],
      [(0, .file ⟨"in".toList, "in".toList, false⟩ .read),
        (2, .file ⟨"err".toList, "err".toList, false⟩ .truncate)]⟩,
      ⟨[⟨"wc".toList, "wc".toList, false⟩],
        [(1, .file ⟨"out".toList, "out".toList, false⟩ .truncate)]⟩]
  line := "sort <in 2>err | wc >out".toList

/-- A host that has the two programs and the input. -/
def sortingHost : World where
  tree := ⟨[(["bin".toList], .directory), (["bin".toList, "sort".toList], .program .sort),
    (["bin".toList, "wc".toList], .program .wc), (["in".toList], .file [])]⟩

theorem compile_launches_sortedWords :
    sortedWords.compile {} = .ok sortedPipeline ∧
      List.Forall₂ Stage.LaunchedBy sortedPipeline.stages (sortedPipeline.launches {}) ∧
      ∃ s w', (sortedPipeline.startAll {} ⟨[], [], [], []⟩).Gives sortingHost s w' ∧
        s.run.started.length = 2 ∧
        List.Forall₂ (Launch.StartedAs ⟨[], [], [], []⟩ {}) (sortedPipeline.launches {})
          s.run.started := by
  have hcompile : sortedWords.compile {} = .ok sortedPipeline := by decide +kernel
  obtain ⟨hdirect, -, hstarted⟩ := Template.compile_launches hcompile {}
  have hstarts : ((sortedPipeline.startAll {} ⟨[], [], [], []⟩).run.run sortingHost).1.toOption.any
      (fun s ↦ s.error.isNone && s.run.started.length == 2) = true := by decide +kernel
  rcases hgives : (sortedPipeline.startAll {} ⟨[], [], [], []⟩).run.run sortingHost with
    ⟨halt | s, w'⟩
  · rw [hgives] at hstarts
    cases hstarts
  · rw [hgives] at hstarts
    obtain ⟨hnone, hlength⟩ := Bool.and_eq_true_iff.1 hstarts
    exact ⟨hcompile, hdirect rfl, s, w', hgives, beq_iff_eq.1 hlength,
      hstarted _ _ _ _ hgives (Option.isNone_iff_eq_none.1 hnone)⟩

end ShellTemplate
