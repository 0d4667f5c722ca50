import Mathlib.Tactic.SplitIfs
import ShellTemplate.Run.Execution

/-!
# Starting a stage

What the start of a stage can come to: one of its files cannot be opened, its program cannot be
started, or there is a process with channels for its descriptors. All that is said of the processes
of a run is said of these three cases.
-/

namespace ShellTemplate

section Gives

/-- The activity comes to this result, and leaves the host like this. -/
def Act.Gives {α : Type} (x : Act α) (w : World) (a : α) (w' : World) : Prop :=
  x.run.run w = (.ok a, w')

variable {α β : Type} {x : Act α} {f : α → Act β} {a b : α} {w w' : World}

theorem Act.gives_pure : (pure a : Act α).Gives w b w' ↔ b = a ∧ w' = w := by
  constructor
  · rintro ⟨⟩
    exact ⟨rfl, rfl⟩
  · rintro ⟨rfl, rfl⟩
    rfl

theorem Act.gives_bind {b : β} :
    (x >>= f).Gives w b w' ↔ ∃ a w₁, x.Gives w a w₁ ∧ (f a).Gives w₁ b w' := by
  unfold Gives
  rw [ExceptT.run_bind, StateT.run_bind]
  rcases hx : x.run.run w with ⟨halt | a, w₁⟩
  · constructor
    · rintro ⟨⟩
    · rintro ⟨a, w₂, ⟨⟩, -⟩
  · constructor
    · intro h
      exact ⟨a, w₁, rfl, h⟩
    · rintro ⟨a, w₂, ⟨⟩, h⟩
      exact h

theorem Act.gives_map {g : α → β} {b : β} :
    (g <$> x).Gives w b w' ↔ ∃ a, x.Gives w a w' ∧ b = g a := by
  rw [map_eq_pure_bind, gives_bind]
  constructor
  · rintro ⟨a, w₁, hx, hpure⟩
    obtain ⟨rfl, rfl⟩ := gives_pure.1 hpure
    exact ⟨a, hx, rfl⟩
  · rintro ⟨a, hx, rfl⟩
    exact ⟨a, w', hx, gives_pure.2 ⟨rfl, rfl⟩⟩

theorem Act.gives_get {g : World → Act β} {b : β} :
    (get >>= g).Gives w b w' ↔ (g w).Gives w b w' := Iff.rfl

theorem Act.exists_gives {f : α → Bool} (h : (x.run.run w).1.toOption.any f = true) :
    ∃ a w', x.Gives w a w' ∧ f a = true := by
  rcases hgives : x.run.run w with ⟨halt | a, w'⟩
  · rw [hgives] at h
    cases h
  · rw [hgives] at h
    exact ⟨a, w', hgives, h⟩

/-- What goes on behind a refusal has not been refused. -/
theorem Act.gives_refusal {c : Prop} [Decidable c] {halt : Halt} {g : Unit → Act β} {b : β} :
    (if c then (do let r ← throw halt; g r) else g ()).Gives w b w' ↔
      ¬ c ∧ (g ()).Gives w b w' := by
  by_cases hc : c
  · rw [if_pos hc]
    constructor
    · intro h
      cases h
    · intro h
      exact absurd hc h.1
  · rw [if_neg hc]
    exact ⟨fun h ↦ ⟨hc, h⟩, And.right⟩

end Gives

namespace Execution

variable {caller : Process} {options : RunOptions} {count index : Nat} {s s' : Starting}
  {launch : Launch} {wiring : Wiring} {next : Option Launch} {w w' : World}

/-- What a stage is started with: the channels of its files and of its standard descriptors, and the
pipes that were made for its outputs. -/
structure Station where
  files : List (Nat × Nat)
  program : Program
  cwd : Path
  stdin : Option Nat
  stdout : Option Nat
  outPipe : Option Nat
  stderr : Option Nat
  errPipe : Option Nat

namespace Station

/-- The descriptors of a process; one without a channel is closed. -/
def descriptors (st : Station) : List (Nat × Nat) :=
  [(0, st.stdin), (1, st.stdout), (2, st.stderr)].filterMap fun (fd, channel) ↦ channel.map (fd, ·)

def process (caller : Process) (options : RunOptions) (launch : Launch) (st : Station) :
    Process where
  argv := (launch.program :: launch.args).map ByteText.ofText
  env := environment caller options
  cwd := st.cwd
  descriptors := st.descriptors

def branch (caller : Process) (options : RunOptions) (launch : Launch) (wiring : Wiring)
    (next : Option Launch) (st : Station) : Branch where
  work := Shell.start Shell.depthLimit st.program (st.process caller options launch)
  output := if wiring.stdout = .downstream then st.outPipe else none
  unread := next.any (·.hasFile 0)

/-- The run behind a stage. -/
def behind (st : Station) (wiring : Wiring) (s : Starting) (run : RunState Branch) : Starting :=
  { s with
    run
    predecessor := if wiring.stdout = .downstream then st.stdout else none
    stdout := if wiring.stdout = .downstream then none else st.outPipe
    stderr := s.stderr ++ st.errPipe.toList }

end Station

/-- The activities that give a stage its channels, one after another. -/
structure Connects (caller : Process) (options : RunOptions) (launch : Launch) (wiring : Wiring)
    (predecessor : Option Nat) (w : World) (st : Station) (w' : World) : Prop where
  connects : ∃ w₁ w₂ w₃, (openFiles caller options launch.openings []).Gives w (.ok st.files) w₁ ∧
    findProgram w₁.tree caller options launch = .ok (st.program, st.cwd) ∧
    (inputChannel caller (st.files.lookup 0) predecessor wiring.stdin).Gives w₁ st.stdin w₂ ∧
    (outputChannel caller 1 (st.files.lookup 1) wiring.stdout).Gives w₂ (st.stdout, st.outPipe) w₃ ∧
    (outputChannel caller 2 (st.files.lookup 2) wiring.stderr).Gives w₃ (st.stderr, st.errPipe) w'

/-- How a run that comes to a stage goes on. -/
inductive Comes (caller : Process) (options : RunOptions) (count : Nat) (s : Starting)
    (launch : Launch) (wiring : Wiring) (next : Option Launch) (index : Nat) (w : World) :
    Starting → World → Prop
  | openFailed (e : RunError) (w' : World)
      (hopen : (openFiles caller options launch.openings []).Gives w (.error e) w') :
      Comes caller options count s launch wiring next index w
        { s with run := s.run.step count .failed, error := some e } w'
  | spawnFailed (files : List (Nat × Nat)) (cause : OsError) (w' : World)
      (hopen : (openFiles caller options launch.openings []).Gives w (.ok files) w')
      (hfind : findProgram w'.tree caller options launch = .error cause) :
      Comes caller options count s launch wiring next index w
        { s with
          run := ((s.run.step count .succeeded).step count .succeeded).step count .failed
          error := some (.spawn index launch.program cause) } w'
  | started (st : Station) (w' : World)
      (hconnects : Connects caller options launch wiring s.predecessor w st w') :
      Comes caller options count s launch wiring next index w
        (st.behind wiring s (((s.run.step count .succeeded).step count .succeeded).step count
          (.spawned (st.branch caller options launch wiring next)))) w'

/-- A run that has come to a stage goes on in one of these ways. -/
theorem startStage_comes (hphase : s.run.phase = .opening index)
    (h : (startStage caller options count s ((launch, wiring, next), index)).Gives w s' w') :
    Comes caller options count s launch wiring next index w s' w' := by
  unfold startStage at h
  simp only [hphase, ne_eq, not_true_eq_false, if_false] at h
  obtain ⟨result, w₁, hfiles, h⟩ := Act.gives_bind.1 h
  cases result with
  | error e =>
      obtain ⟨rfl, rfl⟩ := Act.gives_pure.1 h
      exact .openFailed e w' hfiles
  | ok files =>
      obtain ⟨world, w₂, hworld, h⟩ := Act.gives_bind.1 h
      cases hworld
      cases hprogram : findProgram w₁.tree caller options launch with
      | error cause =>
          simp only [hprogram] at h
          obtain ⟨rfl, rfl⟩ := Act.gives_pure.1 h
          exact .spawnFailed files cause w' hfiles hprogram
      | ok found =>
          obtain ⟨program, cwd⟩ := found
          simp only [hprogram] at h
          obtain ⟨stdin, w₃, hstdin, h⟩ := Act.gives_bind.1 h
          obtain ⟨⟨stdout, outPipe⟩, w₄, hstdout, h⟩ := Act.gives_bind.1 h
          obtain ⟨⟨stderr, errPipe⟩, w₅, hstderr, h⟩ := Act.gives_bind.1 h
          obtain ⟨rfl, rfl⟩ := Act.gives_pure.1 h
          exact .started ⟨files, program, cwd, stdin, stdout, outPipe, stderr, errPipe⟩ w'
            ⟨w₁, w₃, w₄, hfiles, hprogram, hstdin, hstdout, hstderr⟩

/-- A run that has not come to a stage passes it over. -/
theorem startStage_of_ne (hphase : s.run.phase ≠ .opening index)
    (h : (startStage caller options count s ((launch, wiring, next), index)).Gives w s' w') :
    s' = s ∧ w' = w := by
  simp only [startStage, hphase, ne_eq, not_false_eq_true, if_true] at h
  exact Act.gives_pure.1 h

end Execution

end ShellTemplate
