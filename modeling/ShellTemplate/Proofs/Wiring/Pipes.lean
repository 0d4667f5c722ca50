import Mathlib.Data.List.Perm.Basic
import ShellTemplate.Proofs.Wiring.Chain

/-!
# Whose pipes they are

The pipes that a run makes are its own: one pipe is the output of one stage, or the input that is
supplied, and but for its writer it can only be the input of the next stage. This asks of the caller
that its descriptors refer to channels of the host, and to no pipe that is still to be made.
-/

namespace ShellTemplate

namespace World

variable {w w' : World} {count pipe low high : Nat} {channel : Option Nat}

/-- The pipe that a channel leads to. -/
def pipe? (w : World) (channel : Option Nat) : Option Nat :=
  channel.bind fun c ↦
    match w.channels[c]? with
    | some (.pipe pipe) => some pipe
    | _ => none

theorem pipe?_eq_some_iff :
    w.pipe? channel = some pipe ↔ ∃ c, channel = some c ∧ w.channels[c]? = some (.pipe pipe) := by
  cases channel with
  | none => simp [pipe?]
  | some c =>
      simp only [pipe?, Option.bind_some, Option.some.injEq, exists_eq_left']
      split
      case h_1 id hid => simp [hid]
      case h_2 hne =>
        constructor
        · intro h
          cases h
        · intro h
          exact absurd h (hne pipe)

/-- The channel is one of the host. If it leads to a pipe, then to one of the first pipes or to one
in this range. -/
structure Within (count low high : Nat) (w : World) (channel : Option Nat) : Prop where
  lt : ∀ c ∈ channel, c < w.channels.size
  pipe_within : ∀ pipe, w.pipe? channel = some pipe → pipe < count ∨ low ≤ pipe ∧ pipe < high

theorem within_none (count low high : Nat) (w : World) : w.Within count low high none :=
  ⟨nofun, nofun⟩

theorem pipe?_of_extends (h : w.Within count low high channel) (hextends : w.Extends w') :
    w'.pipe? channel = w.pipe? channel := by
  cases channel with
  | none => rfl
  | some c => simp only [pipe?, Option.bind_some, hextends.channels c (h.lt c rfl)]

theorem Within.mono {low' high' : Nat} (h : w.Within count low high channel)
    (hextends : w.Extends w') (hlow : low' ≤ low) (hhigh : high ≤ high') :
    w'.Within count low' high' channel where
  lt c hc := Nat.lt_of_lt_of_le (h.lt c hc) hextends.channelCount
  pipe_within pipe hpipe := by
    rw [pipe?_of_extends h hextends] at hpipe
    have := h.pipe_within pipe hpipe
    omega

theorem within_of_leadsBack (h : ∀ c ∈ channel, w.LeadsBack count c) :
    w.Within count low high channel where
  lt c hc := (h c hc).lt
  pipe_within pipe hpipe := by
    obtain ⟨c, rfl, hc⟩ := pipe?_eq_some_iff.1 hpipe
    exact .inl ((h c rfl).pipe_lt pipe hc)

theorem MakesPipe.within {p : Pipe} (h : w.MakesPipe w' channel pipe p) :
    w'.Within count w.pipes.size w'.pipes.size channel := by
  obtain ⟨c, rfl, -, hle, hc, hp⟩ := h
  refine ⟨?_, fun id hid ↦ .inr ?_⟩
  · rintro _ ⟨⟩
    exact (Array.getElem?_eq_some_iff.1 hc).1
  · obtain ⟨_, ⟨⟩, hid⟩ := pipe?_eq_some_iff.1 hid
    cases hc.symm.trans hid
    exact ⟨hle, (Array.getElem?_eq_some_iff.1 hp).1⟩

theorem MakesPipe.pipe?_eq {p : Pipe} (h : w.MakesPipe w' channel pipe p) :
    w'.pipe? channel = some pipe := by
  obtain ⟨c, hchannel, -, -, hc, -⟩ := h
  exact pipe?_eq_some_iff.2 ⟨c, hchannel, hc⟩

theorem MakesNull.within (h : w.MakesNull w' channel) : w'.Within count low high channel := by
  obtain ⟨c, rfl, -, hc⟩ := h
  refine ⟨?_, fun id hid ↦ ?_⟩
  · rintro _ ⟨⟩
    exact (Array.getElem?_eq_some_iff.1 hc).1
  · obtain ⟨_, ⟨⟩, hid⟩ := pipe?_eq_some_iff.1 hid
    cases hc.symm.trans hid

end World

/-- The descriptors of a process refer to channels of the host, and to no pipes but the first. -/
def Process.Sits (p : Process) (count : Nat) (w : World) : Prop :=
  ∀ fd channel, p.channel? fd = some channel → w.LeadsBack count channel

section Ends

variable {caller : Process} {file predecessor channel pipe : Option Nat} {fd count : Nat}
  {w w' : World}

theorem Process.Sits.mono (h : caller.Sits count w) (hextends : w.Extends w') :
    caller.Sits count w' :=
  fun fd channel hchannel ↦ (h fd channel hchannel).mono hextends

theorem InputEnd.Leads.within {wire : InputEnd} (sits : caller.Sits count w')
    (hfile : ∀ c ∈ file, w'.LeadsBack count c)
    (h : wire.Leads caller file predecessor w w' channel) :
    channel = predecessor ∨ w'.Within count w.pipes.size w'.pipes.size channel := by
  cases wire with
  | file => exact .inr (World.within_of_leadsBack (h ▸ hfile))
  | predecessor => exact .inl h
  | callerStdin => exact .inr (World.within_of_leadsBack (h ▸ sits 0))
  | supplied =>
      obtain ⟨id, p, hpipe, -⟩ := h
      exact .inr hpipe.within
  | empty => exact .inr (World.MakesNull.within h)

theorem OutputEnd.Leads.within {wire : OutputEnd} (sits : caller.Sits count w')
    (hfile : ∀ c ∈ file, w'.LeadsBack count c)
    (h : wire.Leads caller fd file w w' channel pipe) :
    w'.Within count w.pipes.size w'.pipes.size channel := by
  cases wire with
  | file => exact World.within_of_leadsBack (h.1 ▸ hfile)
  | downstream | captured =>
      obtain ⟨id, -, hpipe⟩ := h
      exact hpipe.within
  | caller => exact World.within_of_leadsBack (h.1 ▸ sits fd)
  | discarded => exact World.MakesNull.within h.1

theorem OutputEnd.Leads.made {wire : OutputEnd}
    (h : wire.Leads caller fd file w w' channel pipe) :
    ∀ id ∈ pipe, w.pipes.size ≤ id ∧ id < w'.pipes.size := by
  intro id hid
  cases wire with
  | file | caller | discarded =>
      rw [h.2] at hid
      cases hid
  | downstream | captured =>
      obtain ⟨made, rfl, c, -, -, hle, -, hp⟩ := h
      cases hid
      exact ⟨hle, (Array.getElem?_eq_some_iff.1 hp).1⟩

end Ends

namespace Execution

variable {caller : Process} {options : RunOptions} {launch : Launch} {wiring : Wiring}
  {predecessor : Option Nat} {st : Station} {w w' : World} {count fd pipe : Nat}

/-- The channel of a descriptor. -/
def Station.channel? (st : Station) (fd : Nat) : Option Nat := st.descriptors.lookup fd

theorem Station.channel?_eq (st : Station) (fd : Nat) :
    st.channel? fd =
      match fd with
      | 0 => st.stdin
      | 1 => st.stdout
      | 2 => st.stderr
      | _ => none := by
  unfold channel? descriptors
  match fd with
  | 0 => cases st.stdin <;> cases st.stdout <;> cases st.stderr <;> rfl
  | 1 => cases st.stdin <;> cases st.stdout <;> cases st.stderr <;> rfl
  | 2 => cases st.stdin <;> cases st.stdout <;> cases st.stderr <;> rfl
  | _ + 3 => cases st.stdin <;> cases st.stdout <;> cases st.stderr <;> rfl

theorem Station.Opened.leadsBack (h : st.Opened caller options launch w w')
    (sits : caller.Sits count w) {fd channel : Nat} (hchannel : st.files.lookup fd = some channel) :
    w'.LeadsBack count channel := by
  obtain ⟨v, v', hbefore, hbehind, hfiles⟩ := h.opened
  obtain ⟨before, behind, hsplit, -⟩ := List.lookup_eq_some_iff.1 hchannel
  have hback := (gives_openFiles hfiles).2 count (sits.mono hbefore)
    (fun _ hentry ↦ absurd hentry List.not_mem_nil) (fd, channel)
    (hsplit ▸ List.mem_append_right _ List.mem_cons_self)
  exact hback.mono hbehind

/-- The pipes of the descriptors of one stage come one after another. -/
theorem Connects.ranges (sits : caller.Sits count w)
    (h : Connects caller options launch wiring predecessor w st w') :
    ∃ low high, w.pipes.size ≤ low ∧ low ≤ high ∧ high ≤ w'.pipes.size ∧
      (st.stdin = predecessor ∨ w'.Within count w.pipes.size low st.stdin) ∧
      w'.Within count low high st.stdout ∧ w'.Within count high w'.pipes.size st.stderr := by
  obtain ⟨w₁, w₂, w₃, hfiles, -, hstdin, hstdout, hstderr⟩ := h.connects
  obtain ⟨hopened, -⟩ := gives_openFiles hfiles
  obtain ⟨hinput, hin⟩ := gives_inputChannel hstdin
  obtain ⟨houtput, hout⟩ := gives_outputChannel hstdout
  obtain ⟨herrors, herr⟩ := gives_outputChannel hstderr
  have hstation : st.Opened caller options launch w w₁ := ⟨w, w₁, .refl w, .refl w₁, hfiles⟩
  have hfile : ∀ fd, ∀ c ∈ st.files.lookup fd, w₁.LeadsBack count c := fun fd c hc ↦
    hstation.leadsBack sits hc
  have sits₁ := sits.mono hopened
  have sits₂ := sits₁.mono hinput
  have hstdinWithin := hin.within sits₂ fun c hc ↦ (hfile 0 c hc).mono hinput
  have hstdoutWithin := hout.within (sits₂.mono houtput) fun c hc ↦
    (hfile 1 c hc).mono (hinput.trans houtput)
  have hstderrWithin := herr.within ((sits₂.mono houtput).mono herrors) fun c hc ↦
    (hfile 2 c hc).mono ((hinput.trans houtput).trans herrors)
  refine ⟨w₂.pipes.size, w₃.pipes.size, Nat.le_trans hopened.pipeCount hinput.pipeCount,
    houtput.pipeCount, herrors.pipeCount, hstdinWithin.imp_right fun hwithin ↦ ?_, ?_,
    hstderrWithin⟩
  · exact hwithin.mono (houtput.trans herrors) hopened.pipeCount (Nat.le_refl _)
  · exact hstdoutWithin.mono herrors (Nat.le_refl _) (Nat.le_refl _)

/-- A stage gets no new pipe twice, and its new pipes but for its predecessor's are made for it. -/
theorem Connects.pipes (sits : caller.Sits count w)
    (hpredecessor : w.Within count 0 w.pipes.size predecessor)
    (h : Connects caller options launch wiring predecessor w st w')
    (hpipe : w'.pipe? (st.channel? fd) = some pipe) (hnew : count ≤ pipe) :
    pipe < w'.pipes.size ∧ (fd = 0 ∧ st.stdin = predecessor ∨ w.pipes.size ≤ pipe) ∧
      ∀ fd', w'.pipe? (st.channel? fd') = some pipe → fd' = fd := by
  obtain ⟨low, high, hlow, hmiddle, hhigh, hin, hout, herr⟩ := h.ranges sits
  have hstdin : w'.pipe? st.stdin = some pipe →
      pipe < low ∧ (st.stdin = predecessor ∨ w.pipes.size ≤ pipe) := by
    intro hid
    rcases hin with heq | hwithin
    · have hback := (hpredecessor.mono h.wired.1 (Nat.le_refl 0) (Nat.le_refl _)).pipe_within pipe
        (heq ▸ hid)
      exact ⟨by omega, .inl heq⟩
    · have hrange := hwithin.pipe_within pipe hid
      omega
  have hstdout := hout.pipe_within pipe
  have hstderr := herr.pipe_within pipe
  -- The descriptor can be told from where the pipe lies.
  have hrange : ∀ fd, w'.pipe? (st.channel? fd) = some pipe →
      fd = 0 ∧ pipe < low ∧ (st.stdin = predecessor ∨ w.pipes.size ≤ pipe) ∨
        fd = 1 ∧ low ≤ pipe ∧ pipe < high ∨ fd = 2 ∧ high ≤ pipe ∧ pipe < w'.pipes.size := by
    intro fd hfd
    rw [Station.channel?_eq] at hfd
    split at hfd
    · exact .inl ⟨rfl, hstdin hfd⟩
    · exact .inr (.inl ⟨rfl, by have := hstdout hfd; omega⟩)
    · exact .inr (.inr ⟨rfl, by have := hstderr hfd; omega⟩)
    · cases hfd
  have hfd := hrange fd hpipe
  refine ⟨by omega, ?_, fun fd' hfd' ↦ ?_⟩
  · rcases hfd with ⟨rfl, -, hpred | hle⟩ | ⟨-, hle, -⟩ | ⟨-, hle, -⟩
    · exact .inl ⟨rfl, hpred⟩
    · exact .inr hle
    · exact .inr (by omega)
    · exact .inr (by omega)
  · have := hrange fd' hfd'
    omega

theorem Connects.within_channel (sits : caller.Sits count w)
    (hpredecessor : w.Within count 0 w.pipes.size predecessor)
    (h : Connects caller options launch wiring predecessor w st w') (fd : Nat) :
    w'.Within count 0 w'.pipes.size (st.channel? fd) := by
  obtain ⟨low, high, hlow, hmiddle, hhigh, hin, hout, herr⟩ := h.ranges sits
  rw [Station.channel?_eq]
  split
  · rcases hin with heq | hwithin
    · rw [heq]
      exact hpredecessor.mono h.wired.1 (Nat.le_refl 0) h.wired.1.pipeCount
    · exact hwithin.mono (.refl w') (Nat.zero_le _) (by omega)
  · exact hout.mono (.refl w') (Nat.zero_le _) hhigh
  · exact herr.mono (.refl w') (Nat.zero_le _) (Nat.le_refl _)
  · exact World.within_none ..

/-- A new pipe belongs to one descriptor of one stage, or it leads from a stage to the next. -/
def PipesApart (count : Nat) (stations : List Station) (w : World) : Prop :=
  ∀ {i j : Nat} {st st' : Station} {fd fd' pipe : Nat}, stations[i]? = some st →
    stations[j]? = some st' → i ≤ j → w.pipe? (st.channel? fd) = some pipe →
      w.pipe? (st'.channel? fd') = some pipe → count ≤ pipe →
        i = j ∧ fd = fd' ∨ j = i + 1 ∧ fd = 1 ∧ fd' = 0

/-- The pipes of a stage's outputs. -/
def Station.made (st : Station) : List Nat := st.outPipe.toList ++ st.errPipe.toList

theorem Connects.made (h : Connects caller options launch wiring predecessor w st w') :
    st.made.Pairwise (· < ·) ∧ ∀ id ∈ st.made, w.pipes.size ≤ id ∧ id < w'.pipes.size := by
  obtain ⟨w₁, w₂, w₃, hfiles, -, hstdin, hstdout, hstderr⟩ := h.connects
  have hopened := (gives_openFiles hfiles).1.pipeCount
  have hinput := (gives_inputChannel hstdin).1.pipeCount
  obtain ⟨houtput, hout⟩ := gives_outputChannel hstdout
  obtain ⟨herrors, herr⟩ := gives_outputChannel hstderr
  have hinterval : w₂.pipes.size ≤ w₃.pipes.size ∧ w₃.pipes.size ≤ w'.pipes.size :=
    ⟨houtput.pipeCount, herrors.pipeCount⟩
  have hfirst := hout.made
  have hsecond := herr.made
  unfold Station.made
  constructor
  · refine List.pairwise_append.2 ⟨?_, ?_, fun a ha b hb ↦ ?_⟩
    · cases st.outPipe <;> simp
    · cases st.errPipe <;> simp
    · have := hfirst a (Option.mem_toList.1 ha)
      have := hsecond b (Option.mem_toList.1 hb)
      omega
  · intro id hid
    rcases List.mem_append.1 hid with hid | hid
    · have := hfirst id (Option.mem_toList.1 hid)
      omega
    · have := hsecond id (Option.mem_toList.1 hid)
      omega

namespace Chain

variable {tasks : List (Launch × Wiring × Option Launch)} {stations : List Station}
  {s s' : Starting}

/-- What goes on to the next stage is the output of this one, or nothing. -/
theorem predecessor_behind (st : Station) (wiring : Wiring) (s : Starting) (run : RunState Branch) :
    (st.behind wiring s run).predecessor = st.channel? 1 ∨
      (st.behind wiring s run).predecessor = none := by
  rw [Station.channel?_eq]
  unfold Station.behind
  dsimp only
  split_ifs
  · exact .inl rfl
  · exact .inr rfl

theorem within_behind (run : RunState Branch) (sits : caller.Sits count w)
    (hpredecessor : w.Within count 0 w.pipes.size s.predecessor)
    (connects : Connects caller options launch wiring s.predecessor w st w') :
    w'.Within count 0 w'.pipes.size (st.behind wiring s run).predecessor := by
  rcases predecessor_behind st wiring s run with heq | heq <;> rw [heq]
  · exact connects.within_channel sits hpredecessor 1
  · exact World.within_none ..

/-- The new pipes of the stages are made for them, but for the one that the first of them is given. -/
theorem pipes (h : Chain caller options tasks s w stations s' w') (sits : caller.Sits count w)
    (hpredecessor : w.Within count 0 w.pipes.size s.predecessor) {i : Nat}
    (hst : stations[i]? = some st) (hpipe : w'.pipe? (st.channel? fd) = some pipe)
    (hnew : count ≤ pipe) :
    i = 0 ∧ fd = 0 ∧ st.stdin = s.predecessor ∨ w.pipes.size ≤ pipe := by
  induction h generalizing i with
  | nil => cases hst
  | cons run connects started behind ih =>
      cases i with
      | zero =>
          cases hst
          rw [World.pipe?_of_extends (connects.within_channel sits hpredecessor fd) behind.grows]
            at hpipe
          exact (connects.pipes sits hpredecessor hpipe hnew).2.1.imp_left fun hfd ↦ ⟨rfl, hfd⟩
      | succ i =>
          have hextends := connects.wired.1
          have hbehind := within_behind run sits hpredecessor connects
          rcases ih (sits.mono hextends) hbehind hst hpipe with ⟨rfl, rfl, hstdin⟩ | hle
          · -- The pipe is that of the stage before, which has made it for its output.
            rw [Station.channel?_eq] at hpipe
            change World.pipe? _ st.stdin = some pipe at hpipe
            rw [hstdin, World.pipe?_of_extends hbehind behind.grows] at hpipe
            rcases predecessor_behind _ _ _ run with heq | heq <;> rw [heq] at hpipe
            · have hmade := (connects.pipes sits hpredecessor hpipe hnew).2.1
              omega
            · cases hpipe
          · exact .inr (Nat.le_trans hextends.pipeCount hle)

theorem pipesApart (h : Chain caller options tasks s w stations s' w') (sits : caller.Sits count w)
    (hpredecessor : w.Within count 0 w.pipes.size s.predecessor) :
    PipesApart count stations w' := by
  intro i j st st' fd fd' pipe hst hst' hle hpipe hpipe' hnew
  induction h generalizing i j with
  | nil => cases hst
  | cons run connects started behind ih =>
      have hextends := connects.wired.1
      have hbehind := within_behind run sits hpredecessor connects
      cases i with
      | zero =>
          cases hst
          rw [World.pipe?_of_extends (connects.within_channel sits hpredecessor fd) behind.grows]
            at hpipe
          obtain ⟨hlt, -, hsame⟩ := connects.pipes sits hpredecessor hpipe hnew
          cases j with
          | zero =>
              -- One stage, so the descriptor is the same one.
              cases hst'
              rw [World.pipe?_of_extends (connects.within_channel sits hpredecessor fd') behind.grows]
                at hpipe'
              exact .inl ⟨rfl, (hsame fd' hpipe').symm⟩
          | succ j =>
              -- A stage behind has the pipe from its predecessor, or has made it after this one.
              rcases behind.pipes (sits.mono hextends) hbehind hst' hpipe' hnew with
                ⟨rfl, rfl, hstdin⟩ | hle
              · rw [Station.channel?_eq] at hpipe'
                change World.pipe? _ st'.stdin = some pipe at hpipe'
                rw [hstdin, World.pipe?_of_extends hbehind behind.grows] at hpipe'
                rcases predecessor_behind _ _ _ run with heq | heq <;> rw [heq] at hpipe'
                · exact .inr ⟨rfl, (hsame 1 hpipe').symm, rfl⟩
                · cases hpipe'
              · omega
      | succ i =>
          cases j with
          | zero => omega
          | succ j =>
              have := ih (sits.mono hextends) hbehind hst hst' (by omega) hpipe hpipe'
              omega

theorem made (h : Chain caller options tasks s w stations s' w') :
    (stations.flatMap Station.made).Pairwise (· < ·) ∧
      ∀ id ∈ stations.flatMap Station.made, w.pipes.size ≤ id ∧ id < w'.pipes.size := by
  induction h with
  | nil => exact ⟨.nil, nofun⟩
  | cons _ connects _ behind ih =>
      obtain ⟨hsorted, hrange⟩ := connects.made
      have hextends := connects.wired.1
      rw [List.flatMap_cons]
      refine ⟨List.pairwise_append.2 ⟨hsorted, ih.1, fun a ha b hb ↦ ?_⟩, fun id hid ↦ ?_⟩
      · exact Nat.lt_of_lt_of_le (hrange a ha).2 (ih.2 b hb).1
      · rcases List.mem_append.1 hid with hid | hid
        · exact ⟨(hrange id hid).1, Nat.lt_of_lt_of_le (hrange id hid).2 behind.grows.pipeCount⟩
        · exact ⟨Nat.le_trans hextends.pipeCount (ih.2 id hid).1, (ih.2 id hid).2⟩

/-- No pipe that is taken in is taken in twice, and all of them are there. -/
theorem taken (h : Chain caller options tasks s w stations s' w') (hstdout : s.stdout = none)
    (hstderr : s.stderr = []) :
    (s'.stdout.toList ++ s'.stderr).Nodup ∧
      ∀ id ∈ s'.stdout.toList ++ s'.stderr, id < w'.pipes.size := by
  obtain ⟨hsorted, hrange⟩ := h.made
  have hperm := List.flatMap_append_perm stations (fun st ↦ st.outPipe.toList)
    fun st ↦ st.errPipe.toList
  have hsublist : (s'.stdout.toList ++ s'.stderr).Sublist
      ((stations.flatMap fun st ↦ st.outPipe.toList) ++
        stations.flatMap fun st ↦ st.errPipe.toList) := by
    have hout := h.stdout_sublist
    rw [hstdout] at hout
    rw [h.stderr_eq, hstderr]
    exact hout.append (.refl _)
  constructor
  · have hnodup : (stations.flatMap Station.made).Nodup := hsorted.imp Nat.ne_of_lt
    exact (hperm.nodup_iff.2 hnodup).sublist hsublist
  · exact fun id hid ↦ (hrange id (hperm.mem_iff.1 (hsublist.mem hid))).2

end Chain

end Execution

end ShellTemplate
