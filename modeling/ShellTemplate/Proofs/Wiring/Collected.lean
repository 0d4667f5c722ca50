import ShellTemplate.Proofs.Children
import ShellTemplate.Proofs.Wiring.Extends

/-!
# What a run takes in

When all processes have ended, what there is in the pipes of captured outputs is taken out of them,
one pipe after another. Taking in one pipe changes no other, so the result can be told from the host
as the processes have left it.
-/

namespace ShellTemplate

/-- What there is to read from a pipe, in the order of the times at which it was written. -/
def World.received (w : World) (pipe : Nat) : ByteText :=
  ((w.pipes[pipe]?.getD {}).chunks.reverse.mergeSort fun a b ↦ a.time ≤ b.time).flatMap Chunk.data

section MapM

variable {α β : Type} {f : α → Act β} {w w' : World}

theorem Act.length_of_mapM {entries : List α} {results : List β}
    (h : (entries.mapM f).Gives w results w') : results.length = entries.length := by
  induction entries generalizing w results with
  | nil =>
      rw [List.mapM_nil] at h
      obtain ⟨rfl, -⟩ := Act.gives_pure.1 h
      rfl
  | cons entry rest ih =>
      rw [List.mapM_cons] at h
      obtain ⟨result, w₁, -, h⟩ := Act.gives_bind.1 h
      obtain ⟨more, w₂, hmore, h⟩ := Act.gives_bind.1 h
      obtain ⟨rfl, rfl⟩ := Act.gives_pure.1 h
      rw [List.length_cons, List.length_cons, ih hmore]

end MapM

namespace Branch

theorem length_settle (w : World) (branches : List (Branch × Finish)) :
    (settle w branches).length = branches.length := by
  induction branches with
  | nil => rfl
  | cons entry rest ih =>
      obtain ⟨branch, finish⟩ := entry
      simp only [settle, List.length_cons, ih]

theorem length_of_runAll {branches : List Branch} {finishes : List Finish} {w w' : World}
    (h : (runAll branches).Gives w finishes w') : finishes.length = branches.length := by
  unfold runAll at h
  obtain ⟨before, w₁, -, h⟩ := Act.gives_bind.1 h
  obtain ⟨ended, w₂, hended, h⟩ := Act.gives_bind.1 h
  obtain ⟨behind, w₃, -, h⟩ := Act.gives_bind.1 h
  obtain ⟨⟨⟩, w₄, -, h⟩ := Act.gives_bind.1 h
  obtain ⟨rfl, -⟩ := Act.gives_pure.1 h
  rw [length_settle, List.length_zip, Act.length_of_mapM hended, Nat.min_self]

end Branch

section Received

variable {w w' : World} {pipe other : Nat}

theorem World.received_of_pipes (h : w'.pipes[pipe]? = w.pipes[pipe]?) :
    w'.received pipe = w.received pipe := by
  rw [received, received, h]

theorem World.received_changePipe_ne (w : World) (change : Pipe → Pipe) (hne : other ≠ pipe) :
    (w.changePipe pipe change).received other = w.received other :=
  received_of_pipes (by simp [changePipe, Array.getElem?_modify, hne.symm])

/-- A pipe that is only told how it ends has the same to read. -/
theorem Act.gives_setEnding {ending : Ending} (h : (setEnding pipe ending).Gives w () w')
    (other : Nat) : w'.received other = w.received other := by
  cases h
  by_cases hother : other = pipe
  · subst hother
    simp only [World.received, World.changePipe, Array.getElem?_modify, if_pos]
    cases w.pipes[other]? <;> rfl
  · exact w.received_changePipe_ne _ hother

theorem Act.gives_awaitEnding {ending : Ending} (h : (awaitEnding ending).Gives w () w') :
    w'.pipes = w.pipes := by
  cases ending with
  | eof time =>
      replace h := Act.gives_get.1 h
      dsimp only at h
      split at h
      · split_ifs at h
        · cases h
        · cases h
          rfl
      · cases h
        rfl
  | endless | never => cases h

theorem Act.gives_readAll {channel : Nat} {chunks : List Chunk} {ending : Ending}
    (hchannel : w.channels[channel]? = some (.pipe pipe))
    (h : (readAll channel).Gives w (chunks, ending) w') :
    chunks.flatMap Chunk.data = w.received pipe ∧
      ∀ other ≠ pipe, w'.received other = w.received other := by
  replace h := Act.gives_get.1 h
  simp only [hchannel] at h
  obtain ⟨⟨⟩, w₁, hset, h⟩ := Act.gives_bind.1 h
  cases hset
  obtain ⟨hread, rfl⟩ := Act.gives_pure.1 h
  cases hread
  exact ⟨rfl, fun other hother ↦ w.received_changePipe_ne _ hother⟩

end Received

namespace Execution

variable {caller : Process} {options : RunOptions} {w w' : World}

/-- Taking in a pipe gives what there is in it and leaves the others as they are. -/
theorem gives_collect {pipe : Nat} {data : ByteText} (h : (collect pipe).Gives w data w') :
    data = w.received pipe ∧ ∀ other ≠ pipe, w'.received other = w.received other := by
  obtain ⟨⟨⟩, w₁, hending, h⟩ := Act.gives_bind.1 (Act.gives_get.1 h)
  obtain ⟨channel, w₂, hmade, h⟩ := Act.gives_bind.1 h
  obtain ⟨⟨chunks, ending⟩, w₃, hread, h⟩ := Act.gives_bind.1 h
  obtain ⟨⟨⟩, w₄, hawait, h⟩ := Act.gives_bind.1 h
  obtain ⟨rfl, rfl⟩ := Act.gives_pure.1 h
  obtain ⟨-, -, hchannel, hpipes⟩ := Act.gives_newChannel hmade
  obtain ⟨hdata, hothers⟩ := Act.gives_readAll hchannel hread
  have hbefore : ∀ other, w₂.received other = w.received other := fun other ↦
    (World.received_of_pipes (congrArg (·[other]?) hpipes)).trans (Act.gives_setEnding hending other)
  refine ⟨hdata.trans (hbefore pipe), fun other hother ↦ ?_⟩
  rw [World.received_of_pipes (congrArg (·[other]?) (Act.gives_awaitEnding hawait)),
    hothers other hother, hbefore]

/-- Taking in pipes one after another gives what there is in each of them. -/
theorem gives_mapM_collect {pipes : List Nat} {data : List ByteText}
    (h : (pipes.mapM collect).Gives w data w') (hpipes : pipes.Nodup) :
    data = pipes.map w.received ∧ ∀ other ∉ pipes, w'.received other = w.received other := by
  induction pipes generalizing w data with
  | nil =>
      rw [List.mapM_nil] at h
      obtain ⟨rfl, rfl⟩ := Act.gives_pure.1 h
      exact ⟨rfl, fun _ _ ↦ rfl⟩
  | cons pipe rest ih =>
      rw [List.mapM_cons] at h
      obtain ⟨first, w₁, hfirst, h⟩ := Act.gives_bind.1 h
      obtain ⟨more, w₂, hmore, h⟩ := Act.gives_bind.1 h
      obtain ⟨rfl, rfl⟩ := Act.gives_pure.1 h
      obtain ⟨hnot, hrest⟩ := List.nodup_cons.1 hpipes
      obtain ⟨rfl, hothers⟩ := gives_collect hfirst
      obtain ⟨rfl, hbehind⟩ := ih hmore hrest
      refine ⟨?_, fun other hother ↦ ?_⟩
      · refine congrArg (w.received pipe :: ·) (List.map_congr_left fun other hother ↦ ?_)
        exact hothers other (ne_of_mem_of_not_mem hother hnot)
      · rw [List.mem_cons, not_or] at hother
        rw [hbehind other hother.2, hothers other hother.1]

/-- What a run comes to when its processes have ended. -/
structure Yields (options : RunOptions) (s : Starting) (finishes : List Finish) (w : World)
    (outcome : Outcome) : Prop where
  stageCodes : outcome.stageCodes = finishes.map fun finish ↦ finish.halt.code
  stdout : outcome.stdout = if options.capture.isSome then
    some (ByteText.toBytes (s.stdout.toList.flatMap w.received)) else none
  stderr : outcome.stderr = if options.captureStderr then
    some (ByteText.toBytes (s.stderr.flatMap w.received)) else none

variable {line : List Char} {encoding : Option Encoding} {started : Nat} {s : Starting}

/-- The run when so many of its children have been waited for. -/
def Starting.waited (s : Starting) (finishes : List Finish) : RunState Branch :=
  finishes.foldl (fun run _ ↦ run.step finishes.length .succeeded) s.run

theorem gives_complete {report : RunReport}
    (h : (complete caller options line encoding started s).Gives w report w') :
    ∃ finishes w₁ outcome, (Branch.runAll s.run.set.processes).Gives w finishes w₁ ∧
      report.result = decodeOutcome encoding outcome ∧
      ((s.stdout.toList ++ s.stderr).Nodup → Yields options s finishes w₁ outcome) ∧
      (s.waited finishes).phase = .collecting ∧
      report.run = some ((s.waited finishes).step finishes.length .succeeded) := by
  unfold complete at h
  obtain ⟨finishes, w₁, hfinishes, h⟩ := Act.gives_bind.1 h
  dsimp only at h
  obtain ⟨-, h⟩ := Act.gives_refusal.1 h
  obtain ⟨stdout, w₂, hstdout, h⟩ := Act.gives_bind.1 h
  obtain ⟨stderr, w₃, hstderr, h⟩ := Act.gives_bind.1 h
  obtain ⟨⟨⟩, w₄, -, h⟩ := Act.gives_bind.1 h
  obtain ⟨⟨⟩, w₅, -, h⟩ := Act.gives_bind.1 h
  obtain ⟨hphase, h⟩ := Act.gives_refusal.1 h
  rw [Act.gives_get, Act.gives_pure] at h
  obtain ⟨rfl, -⟩ := h
  refine ⟨finishes, w₁, _, hfinishes, rfl, fun hpipes ↦ ?_, Decidable.not_not.1 hphase, rfl⟩
  obtain ⟨houtput, herrors, hdisjoint⟩ := List.nodup_append.1 hpipes
  obtain ⟨rfl, hothers⟩ := gives_mapM_collect hstdout houtput
  obtain ⟨rfl, -⟩ := gives_mapM_collect hstderr herrors
  -- The pipes of the errors are as the processes have left them: standard output is none of them.
  have hkept : s.stderr.map w₂.received = s.stderr.map w₁.received :=
    List.map_congr_left fun pipe hpipe ↦
      hothers pipe fun hmem ↦ hdisjoint pipe hmem pipe hpipe rfl
  refine ⟨rfl, ?_, ?_⟩
  · rw [List.flatMap_def]
  · rw [hkept, List.flatMap_def]

end Execution

end ShellTemplate
