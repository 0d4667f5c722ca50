import Mathlib.Tactic.SplitIfs
import ShellTemplate.Run.Children

/-!
# No child is left behind

A run may fail at every step, and it may be dropped between any two. Whatever happens, the set of its
children has every process that was started, and none of them goes on when the run has ended: each
has been waited for or sent a kill. Behind a failure nothing is opened or started any more.

Here a kill is sent or not; whether the system carries it out is not asserted.
-/

namespace ShellTemplate

variable {α : Type}

/-- A child that is not left behind: it has been waited for or sent a kill. -/
def Child.Tended (c : Child α) : Prop := c.reaped = true ∨ c.killed = true

namespace StageSet

variable {s : StageSet α}

def processes (s : StageSet α) : List α := s.children.map Child.process

/-- None of the children is left behind. -/
def Tended (s : StageSet α) : Prop := ∀ c ∈ s.children, c.Tended

@[simp] theorem processes_push (s : StageSet α) (process : α) :
    (s.push process).processes = s.processes ++ [process] := by
  simp [processes, push]

@[simp] theorem processes_kill (s : StageSet α) : s.kill.processes = s.processes := by
  simp [processes, kill]

@[simp] theorem processes_reap (s : StageSet α) (index : Nat) :
    (s.reap index).processes = s.processes := by
  refine List.ext_getElem? fun i ↦ ?_
  simp only [processes, reap, List.getElem?_map, List.getElem?_modify]
  cases s.children[i]? with
  | none => rfl
  | some child =>
      simp only [Option.map_eq_map, Option.map_some, Option.some.injEq]
      split_ifs <;> rfl

@[simp] theorem processes_disarm (s : StageSet α) : s.disarm.processes = s.processes := rfl

@[simp] theorem processes_drop (s : StageSet α) : s.drop.processes = s.processes := by
  unfold drop
  split_ifs
  · exact processes_kill s
  · rfl

theorem tended_kill (s : StageSet α) : s.kill.Tended := by
  intro c hc
  obtain ⟨child, -, rfl⟩ := List.mem_map.1 hc
  exact .inr rfl

/-- Going away, a set leaves no child behind. -/
theorem tended_drop (h : s.armed = false → s.Tended) : s.drop.Tended := by
  unfold drop
  split_ifs with harmed
  · exact tended_kill s
  · exact h (Bool.eq_false_iff.2 harmed)

/-- So many of the children, the first of them, have been waited for. -/
def Reaped (s : StageSet α) (count : Nat) : Prop :=
  ∀ i < count, ∀ c, s.children[i]? = some c → c.reaped = true

theorem Reaped.reap {count : Nat} (h : s.Reaped count) : (s.reap count).Reaped (count + 1) := by
  intro i hi c hc
  simp only [StageSet.reap, List.getElem?_modify, Option.map_eq_map,
    Option.map_eq_some_iff] at hc
  obtain ⟨child, hchild, rfl⟩ := hc
  split_ifs with heq
  · rfl
  · exact h i (by omega) child hchild

theorem Reaped.tended {count : Nat} (h : s.Reaped count) (hcount : s.processes.length ≤ count) :
    s.Tended := by
  intro c hc
  obtain ⟨i, hi, rfl⟩ := List.mem_iff_getElem.1 hc
  refine .inl (h i ?_ _ (List.getElem?_eq_getElem hi))
  rw [processes, List.length_map] at hcount
  omega

end StageSet

namespace RunState

variable {stages : Nat} {s : RunState α}

/-- Where a run has failed, it has started what is before the failure. -/
def Failed (s : RunState α) : RunEnding → Prop
  | .openFailed k => s.started.length = k ∧ s.opened = List.range k
  | .connectFailed k | .spawnFailed k => s.started.length = k ∧ s.opened = List.range (k + 1)
  | .waitFailed _ | .collectFailed | .dropped | .finished => True

/-- What a run has done by the time it comes to a phase. -/
def Reaches (stages : Nat) (s : RunState α) : Phase → Prop
  | .opening k => s.set.armed = true ∧ k < stages ∧ s.started.length = k ∧ s.opened = List.range k
  | .connecting k | .spawning k =>
    s.set.armed = true ∧ k < stages ∧ s.started.length = k ∧ s.opened = List.range (k + 1)
  | .waiting i =>
    s.set.armed = true ∧ i < stages ∧ s.started.length = stages ∧ s.set.Reaped i
  | .collecting => s.set.Tended
  | .aborting ending | .ended ending => s.set.Tended ∧ s.Failed ending

/-- What holds throughout a run. -/
structure Kept (stages : Nat) (s : RunState α) : Prop where
  owned : s.set.processes = s.started
  disarmed : s.set.armed = false → s.set.Tended
  reaches : s.Reaches stages s.phase

namespace Kept

theorem start (stages : Nat) : (RunState.start stages : RunState α).Kept stages := by
  unfold RunState.start
  split_ifs with hzero
  · exact ⟨rfl, fun _ c hc ↦ absurd hc List.not_mem_nil, fun c hc ↦ absurd hc List.not_mem_nil⟩
  · exact ⟨rfl, nofun, rfl, Nat.pos_of_ne_zero hzero, rfl, rfl⟩

theorem abort (h : s.Kept stages) {ending : RunEnding} (hfailed : s.Failed ending) :
    (s.abort ending).Kept stages where
  owned := (StageSet.processes_kill s.set).trans h.owned
  disarmed _ := StageSet.tended_kill s.set
  reaches := ⟨StageSet.tended_kill s.set, by cases ending <;> exact hfailed⟩

theorem leave (h : s.Kept stages) {ending : RunEnding} (hfailed : s.Failed ending) :
    (s.leave ending).Kept stages where
  owned := (StageSet.processes_drop s.set).trans h.owned
  disarmed _ := StageSet.tended_drop h.disarmed
  reaches := ⟨StageSet.tended_drop h.disarmed, by cases ending <;> exact hfailed⟩

theorem spawned (h : s.Kept stages) {k : Nat} (hphase : s.phase = .spawning k) (process : α) :
    (s.step stages (.spawned process)).Kept stages := by
  have hreaches := h.reaches
  rw [hphase] at hreaches
  obtain ⟨harmed, hlt, hlength, hopened⟩ := hreaches
  simp only [RunState.step, hphase]
  refine ⟨by simp [h.owned], fun hnot ↦ absurd hnot (by simp [StageSet.push, harmed]), ?_⟩
  split_ifs with hnext
  · exact ⟨harmed, hnext, by simp [hlength], hopened⟩
  · exact ⟨harmed, by omega, by simp only [List.length_append, List.length_singleton]; omega,
      fun i hi ↦ absurd hi (Nat.not_lt_zero i)⟩

/-- When the last child has been waited for, the set has nothing left to take care of. -/
theorem waited (h : s.Kept stages) {i : Nat} (hphase : s.phase = .waiting i) :
    (s.step stages .succeeded).Kept stages := by
  have hreaches := h.reaches
  rw [hphase] at hreaches
  obtain ⟨harmed, hlt, hlength, hreaped⟩ := hreaches
  have howned := (StageSet.processes_reap s.set i).trans h.owned
  simp only [RunState.step, hphase]
  split_ifs with hnext
  · exact ⟨howned, fun hnot ↦ absurd (harmed.symm.trans hnot) nofun, harmed, hnext, hlength,
      hreaped.reap⟩
  · -- Here alone a set is disarmed with nothing killed: no child is left to wait for.
    have htended : (s.set.reap i).Tended := by
      refine hreaped.reap.tended ?_
      rw [howned]
      omega
    exact ⟨howned, fun _ ↦ htended, htended⟩

theorem step (h : s.Kept stages) (event : RunEvent α) : (s.step stages event).Kept stages := by
  have hreaches := h.reaches
  cases hphase : s.phase with
  | ended ending =>
      simp only [RunState.step, hphase]
      exact h
  | opening k =>
      rw [hphase] at hreaches
      obtain ⟨harmed, hlt, hlength, hopened⟩ := hreaches
      cases event <;> simp only [RunState.step, hphase]
      case succeeded =>
        refine ⟨h.owned, h.disarmed, harmed, hlt, hlength, ?_⟩
        rw [hopened, List.range_succ]
      case spawned => exact h
      case failed => exact h.abort ⟨hlength, hopened⟩
      case dropped => exact h.leave trivial
  | connecting k =>
      rw [hphase] at hreaches
      obtain ⟨harmed, hlt, hlength, hopened⟩ := hreaches
      cases event <;> simp only [RunState.step, hphase]
      case succeeded => exact ⟨h.owned, h.disarmed, harmed, hlt, hlength, hopened⟩
      case spawned => exact h
      case failed => exact h.abort ⟨hlength, hopened⟩
      case dropped => exact h.leave trivial
  | spawning k =>
      rw [hphase] at hreaches
      obtain ⟨-, -, hlength, hopened⟩ := hreaches
      cases event with
      | spawned process => exact h.spawned hphase process
      | succeeded =>
          simp only [RunState.step, hphase]
          exact h
      | failed =>
          simp only [RunState.step, hphase]
          exact h.abort ⟨hlength, hopened⟩
      | dropped =>
          simp only [RunState.step, hphase]
          exact h.leave trivial
  | waiting i =>
      cases event with
      | succeeded => exact h.waited hphase
      | spawned =>
          simp only [RunState.step, hphase]
          exact h
      | failed | dropped =>
          simp only [RunState.step, hphase]
          exact h.leave trivial
  | collecting =>
      cases event <;> simp only [RunState.step, hphase]
      case spawned => exact h
      all_goals exact h.leave trivial
  | aborting ending =>
      rw [hphase] at hreaches
      obtain ⟨htended, hfailed⟩ := hreaches
      cases event <;> simp only [RunState.step, hphase]
      case spawned => exact h
      case dropped => exact h.leave trivial
      all_goals exact ⟨h.owned, fun _ ↦ htended, htended, by cases ending <;> exact hfailed⟩

theorem tended_of_ended (h : s.Kept stages) {ending : RunEnding} (hphase : s.phase = .ended ending) :
    s.set.Tended := by
  have hreaches := h.reaches
  rw [hphase] at hreaches
  exact hreaches.1

end Kept

/-- A run that goes on with no failure. -/
theorem Reachable.foldl {β : Type} (h : Reachable stages s) (items : List β) :
    Reachable stages (items.foldl (fun run _ ↦ run.step stages .succeeded) s) := by
  induction items generalizing s with
  | nil => exact h
  | cons item rest ih => exact ih (h.step .succeeded)

theorem Reachable.kept (h : Reachable stages s) : s.Kept stages := by
  induction h with
  | start => exact .start stages
  | step event _ ih => exact ih.step event

/-- A run that only waits for what it has killed, or that has ended. -/
def IsOver (s : RunState α) : Prop := ∃ ending, s.phase = .aborting ending ∨ s.phase = .ended ending

/-- A run that is over starts and opens nothing more. -/
structure NothingNew (s t : RunState α) : Prop where
  started : t.started = s.started
  opened : t.opened = s.opened

theorem IsOver.step (h : s.IsOver) (stages : Nat) (event : RunEvent α) :
    (s.step stages event).IsOver ∧ NothingNew s (s.step stages event) := by
  obtain ⟨ending, hphase | hphase⟩ := h
  · cases event <;> simp only [RunState.step, hphase]
    case spawned => exact ⟨⟨ending, .inl hphase⟩, rfl, rfl⟩
    case dropped => exact ⟨⟨.dropped, .inr rfl⟩, rfl, rfl⟩
    all_goals exact ⟨⟨ending, .inr rfl⟩, rfl, rfl⟩
  · simp only [RunState.step, hphase]
    exact ⟨⟨ending, .inr hphase⟩, rfl, rfl⟩

theorem IsOver.run (h : s.IsOver) (stages : Nat) (events : List (RunEvent α)) :
    NothingNew s (events.foldl (RunState.step stages) s) := by
  induction events generalizing s with
  | nil => exact ⟨rfl, rfl⟩
  | cons event rest ih =>
      obtain ⟨hover, hstep⟩ := h.step stages event
      have hrest := ih hover
      exact ⟨hrest.started.trans hstep.started, hrest.opened.trans hstep.opened⟩

/-- A stage that fails is the last one that a run has to do with. -/
theorem Kept.failing (h : s.Kept stages) {k : Nat}
    (hphase : s.phase = .opening k ∨ s.phase = .connecting k ∨ s.phase = .spawning k) :
    s.started.length = k ∧ (∀ i ∈ s.opened, i ≤ k) ∧
      ∀ events : List (RunEvent α),
        s.NothingNew (events.foldl (RunState.step stages) (s.step stages .failed)) := by
  have hreaches := h.reaches
  refine ⟨?_, ?_, fun events ↦ ?_⟩
  · rcases hphase with hphase | hphase | hphase <;> rw [hphase] at hreaches <;>
      exact hreaches.2.2.1
  · intro i hi
    rcases hphase with hphase | hphase | hphase <;> rw [hphase] at hreaches <;>
      rw [hreaches.2.2.2, List.mem_range] at hi <;> omega
  · obtain ⟨ending, habort⟩ : ∃ ending, s.step stages .failed = s.abort ending := by
      rcases hphase with hphase | hphase | hphase <;> simp only [RunState.step, hphase] <;>
        exact ⟨_, rfl⟩
    have hover : (s.abort ending).IsOver := ⟨ending, .inl rfl⟩
    have hrun := hover.run stages events
    rw [habort]
    exact ⟨hrun.started, hrun.opened⟩

/-- Where nothing fails, a run has waited for all its children in as many steps. -/
theorem phase_of_waits {β : Type} {i : Nat} {items : List β} (hphase : s.phase = .waiting i)
    (hne : items ≠ []) (hlength : i + items.length = stages) :
    (items.foldl (fun run _ ↦ run.step stages .succeeded) s).phase = .collecting := by
  induction items generalizing i s with
  | nil => exact absurd rfl hne
  | cons item rest ih =>
      rw [List.length_cons] at hlength
      rw [List.foldl_cons]
      by_cases hrest : rest = []
      · subst hrest
        rw [List.length_nil] at hlength
        simp only [List.foldl_nil, RunState.step, hphase]
        rw [if_neg (by omega)]
      · have hpos := List.length_pos_iff.2 hrest
        refine ih (i := i + 1) ?_ hrest (by omega)
        simp only [RunState.step, hphase]
        rw [if_pos (by omega)]

end RunState

end ShellTemplate
