import ShellTemplate.Proofs.Wiring.Collected

/-!
# Coming to a report

A run has nothing that stops it once all its processes have ended: the pipes can be read to their
ends, and what was in them can be passed on. Whether the processes end is up to their programs.
-/

namespace ShellTemplate

/-- All processes have ended by this time, which is not behind the deadline. -/
structure World.EndedBy (w : World) (time : Nat) : Prop where
  latest : w.latest = some time
  clock : w.clock ≤ time
  deadline : ∀ limit ∈ w.deadline, time ≤ limit

variable {w w' : World} {time pipe channel : Nat}

theorem Act.awaitEnding_gives (h : w.EndedBy time) :
    (awaitEnding (.eof time)).Gives w () { w with clock := time } := by
  refine gives_get.2 ?_
  simp only [Nat.max_eq_left h.clock]
  split
  case h_1 limit hlimit =>
    rw [if_neg (Nat.not_lt.2 (h.deadline limit hlimit))]
    rfl
  case h_2 => rfl

theorem Act.write_gives (channel : Nat) (data : ByteText) (w : World) :
    ∃ w', (Act.write channel data).Gives w () w' := by
  unfold Act.write
  simp only [gives_get]
  split
  · by_cases hdata : List.isEmpty data = true
    · exact ⟨w, by rw [if_pos hdata]; rfl⟩
    · exact ⟨_, by rw [if_neg hdata]; rfl⟩
  · by_cases hdata : List.isEmpty data = true
    · exact ⟨w, by rw [if_pos hdata]; rfl⟩
    · exact ⟨_, by rw [if_neg hdata]; rfl⟩
  · exact ⟨w, rfl⟩

theorem Act.slurp_gives (h : w.EndedBy time) (hchannel : w.channels[channel]? = some (.pipe pipe))
    (hending : (w.pipes[pipe]?.getD {}).ending = .eof time) :
    ∃ data w', (slurp channel).Gives w data w' ∧ w'.EndedBy time ∧
      w'.pipes.size = w.pipes.size := by
  obtain ⟨chunks, v, hread, hv, hsize⟩ : ∃ chunks v, (readAll channel).Gives w
      (chunks, .eof time) v ∧ v.EndedBy time ∧ v.pipes.size = w.pipes.size := by
    unfold readAll
    simp only [gives_get, hchannel, hending]
    exact ⟨_, _, rfl, ⟨h.latest, h.clock, h.deadline⟩, Array.size_modify ..⟩
  exact ⟨chunks.flatMap Chunk.data, { v with clock := time },
    gives_bind.2 ⟨_, v, hread, gives_bind.2 ⟨(), _, awaitEnding_gives hv, rfl⟩⟩,
    ⟨hv.latest, Nat.le_refl time, hv.deadline⟩, hsize⟩

/-- A pipe can be taken in once all processes have ended. -/
theorem Execution.collect_gives (h : w.EndedBy time) (hpipe : pipe < w.pipes.size) :
    ∃ data w', (collect pipe).Gives w data w' ∧ w'.EndedBy time ∧
      w'.pipes.size = w.pipes.size := by
  have hwriters : w.writersEnding = .eof time := by
    simp only [World.writersEnding, h.latest]
  let v : World := { w.changePipe pipe fun p ↦ { p with ending := .eof time } with
    channels := w.channels.push (.pipe pipe) }
  have hv : v.EndedBy time := ⟨h.latest, h.clock, h.deadline⟩
  have hchannel : v.channels[w.channels.size]? = some (.pipe pipe) := Array.getElem?_push_size
  have hending : (v.pipes[pipe]?.getD {}).ending = .eof time := by
    simp only [v, World.changePipe, Array.getElem?_modify, Array.getElem?_eq_getElem hpipe, if_true]
    rfl
  obtain ⟨data, w', hslurp, hended, hsize⟩ := Act.slurp_gives hv hchannel hending
  refine ⟨data, w', ?_, hended, hsize.trans (Array.size_modify ..)⟩
  unfold collect
  rw [Act.gives_get, hwriters]
  exact Act.gives_bind.2 ⟨(), _, rfl, Act.gives_bind.2 ⟨_, _, rfl, hslurp⟩⟩

theorem Execution.mapM_collect_gives {pipes : List Nat} (h : w.EndedBy time)
    (hpipes : ∀ pipe ∈ pipes, pipe < w.pipes.size) :
    ∃ data w', (pipes.mapM collect).Gives w data w' ∧ w'.EndedBy time ∧
      w'.pipes.size = w.pipes.size := by
  induction pipes generalizing w with
  | nil => exact ⟨[], w, rfl, h, rfl⟩
  | cons pipe rest ih =>
      obtain ⟨data, w₁, hdata, hended, hsize⟩ := collect_gives h (hpipes pipe List.mem_cons_self)
      obtain ⟨more, w₂, hmore, hended', hsize'⟩ := ih hended fun other hother ↦
        hsize ▸ hpipes other (List.mem_cons_of_mem _ hother)
      refine ⟨data :: more, w₂, ?_, hended', hsize'.trans hsize⟩
      rw [List.mapM_cons]
      exact Act.gives_bind.2 ⟨data, w₁, hdata, Act.gives_bind.2 ⟨more, w₂, hmore, rfl⟩⟩

/-- Writing never stops a process. -/
theorem Process.write_gives (p : Process) (fd : Nat) (data : ByteText) (w : World) :
    ∃ w', (p.write fd data).Gives w () w' := by
  unfold Process.write
  split
  · exact Act.write_gives _ data w
  · exact ⟨w, rfl⟩

theorem Execution.forward_gives (caller : Process) (options : RunOptions) (fd : Nat)
    (outputs : List ByteText) (w : World) :
    ∃ w', (forward caller options fd outputs).Gives w () w' := by
  unfold forward
  split_ifs
  · exact ⟨w, rfl⟩
  · induction outputs generalizing w with
    | nil => exact ⟨w, rfl⟩
    | cons output rest ih =>
        obtain ⟨w₁, hfirst⟩ := caller.write_gives fd output w
        obtain ⟨w₂, hrest⟩ := ih w₁
        exact ⟨w₂, Act.gives_bind.2 ⟨(), w₁, hfirst, hrest⟩⟩

/-- A run whose processes have all ended in time comes to a report. -/
theorem Execution.complete_gives (caller : Process) (options : RunOptions) (line : List Char)
    (encoding : Option Encoding) (started : Nat) {s : Starting} {finishes : List Finish}
    (hfinishes : (Branch.runAll s.run.set.processes).Gives w finishes w')
    (hstuck : ∀ finish ∈ finishes, finish.halt ≠ .stuck)
    (hphase : (s.waited finishes).phase = .collecting)
    (hended : w'.EndedBy time) (hpipes : ∀ pipe ∈ s.stdout.toList ++ s.stderr, pipe < w'.pipes.size) :
    ∃ report w'', (complete caller options line encoding started s).Gives w report w'' := by
  obtain ⟨stdout, w₂, hstdout, hended₂, hsize⟩ := mapM_collect_gives hended fun pipe hpipe ↦
    hpipes pipe (List.mem_append_left s.stderr hpipe)
  obtain ⟨stderr, w₃, hstderr, -, -⟩ := mapM_collect_gives hended₂ fun pipe hpipe ↦
    hsize ▸ hpipes pipe (List.mem_append_right s.stdout.toList hpipe)
  obtain ⟨w₄, hfirst⟩ := forward_gives caller options 1 stdout w₃
  obtain ⟨w₅, hsecond⟩ := forward_gives caller options 2 stderr w₄
  refine ⟨_, w₅, Act.gives_bind.2 ⟨finishes, w', hfinishes, Act.gives_refusal.2 ⟨?_,
    Act.gives_bind.2 ⟨stdout, w₂, hstdout, Act.gives_bind.2 ⟨stderr, w₃, hstderr,
      Act.gives_bind.2 ⟨(), w₄, hfirst, Act.gives_bind.2 ⟨(), w₅, hsecond,
        Act.gives_refusal.2 ⟨not_not_intro hphase, rfl⟩⟩⟩⟩⟩⟩⟩⟩
  simpa using hstuck

/-- The processes have come to their ends in time, and the pipes are still there. -/
structure World.Outlives (w : World) (finishes : List Finish) (w' : World) : Prop where
  halted : ∀ finish ∈ finishes, finish.halt ≠ .stuck
  deadline : ∀ limit ∈ w'.deadline, ∀ time ∈ w'.latest, time ≤ limit
  pipes : w.pipes.size ≤ w'.pipes.size

theorem Branch.ended_of_runAll {branches : List Branch} {finishes : List Finish} {before : World}
    (h : (runAll branches).Gives w finishes w') (outlives : before.Outlives finishes w') :
    ∃ time, w'.EndedBy time := by
  obtain ⟨hstuck, hdeadline, -⟩ := outlives
  unfold runAll at h
  obtain ⟨ended, w₁, -, h⟩ := Act.gives_bind.1 (Act.gives_get.1 h)
  obtain ⟨⟨⟩, w₂, hset, h⟩ := Act.gives_bind.1 (Act.gives_get.1 h)
  obtain ⟨rfl, rfl⟩ := Act.gives_pure.1 h
  cases hset
  have hall : (settle w₁ (branches.zip ended)).all (fun finish ↦ finish.halt ≠ .stuck) = true := by
    simpa using hstuck
  -- A host on which an earlier process has never ended takes the end of these as its latest.
  cases hlatest : w₁.latest with
  | none =>
      refine ⟨_, ⟨?_, Nat.le_refl _, ?_⟩⟩
      · simp only [hall, if_true]
      · simpa only [hlatest, hall, if_true, Option.mem_some_iff, forall_eq'] using hdeadline
  | some time =>
      refine ⟨_, ⟨rfl, Nat.le_max_right time _, ?_⟩⟩
      simpa only [hlatest, Option.mem_some_iff, forall_eq'] using hdeadline

end ShellTemplate
