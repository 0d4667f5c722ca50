import ShellTemplate.Proofs.Failures
import ShellTemplate.Proofs.Wiring.Apart
import ShellTemplate.Proofs.Wiring.Completed

/-!
# Running stages directly

A pipeline that needs no shell runs as its stages, each wired to its files, to its neighbours and to
the caller; and the run takes in what they have written. What a program does with its descriptors
is left open, so is whether it ends.
-/

namespace ShellTemplate

/-- What has been written to a descriptor of its own: the pipe that was made for it has that, and
with a file there is none. -/
theorem OutputEnd.Leads.received {caller : Process} {wire : OutputEnd}
    {file channel pipe : Option Nat} {fd : Nat} {hasFile : Bool} {w w' : World}
    (h : wire.Leads caller fd file w w' channel pipe)
    (hwire : wire = if hasFile then .file else .captured) (after : World) :
    pipe.toList.flatMap after.received =
      if hasFile then [] else (w'.pipe? channel).toList.flatMap after.received := by
  subst hwire
  cases hasFile with
  | true => rw [h.2]; rfl
  | false =>
      obtain ⟨id, rfl, hpipe⟩ := h
      rw [hpipe.pipe?_eq]
      rfl

namespace Execution

variable {caller : Process} {options : RunOptions} {p : Pipeline} {s : Starting} {launch : Launch}
  {stations : List Station} {st : Station} {w w' : World} {i : Nat}

/-- What a stage has written to a descriptor where it has no file. -/
def written (w w' : World) (fd : Nat) (stage : Launch × Station) : ByteText :=
  if stage.1.hasFile fd then []
  else (w.pipe? (stage.2.channel? fd)).toList.flatMap w'.received

/-- What a run results in, said of the host when its processes have been started and of the host
when they have ended. -/
structure Results (options : RunOptions) (launches : List Launch) (stations : List Station)
    (w : World) (finishes : List Finish) (w' : World) (outcome : Outcome) : Prop where
  stageCodes : outcome.stageCodes = finishes.map fun finish ↦ finish.halt.code
  length_eq : finishes.length = launches.length
  isSome_stdout : outcome.stdout.isSome = options.capture.isSome
  /-- The captured output is what the last stage has written. -/
  stdout : ∀ {i launch st}, At launches stations i launch st → i + 1 = launches.length →
    options.capture.isSome = true →
      outcome.stdout = some (ByteText.toBytes (written w w' 1 (launch, st)))
  /-- The captured errors are those of all stages, one stage after another. -/
  stderr : outcome.stderr = if options.captureStderr then
    some (ByteText.toBytes ((launches.zip stations).flatMap (written w w' 2))) else none

section Chain

variable (h : Chain caller options (p.tasks options) { run := .start (p.launches options).length } w
  stations s w')
include h

theorem stdout_written (hat : At (p.launches options) stations i launch st)
    (hlast : i + 1 = (p.launches options).length) (hcapture : options.capture.isSome = true)
    (after : World) :
    s.stdout.toList.flatMap after.received = written w' after 1 (launch, st) := by
  obtain ⟨fed, wiring, next, htask, hwiring⟩ := Pipeline.getElem?_tasks hat.launch
  obtain ⟨predecessor, hwired, -⟩ := h.wired htask hat.station
  have hstdout : wiring.stdout = if launch.hasFile 1 then .file else .captured := by
    simp [hwiring.wiring_eq, Wiring.output, hlast, hcapture]
  have htaskLast : (p.tasks options).getLast? = some (launch, wiring, next) := by
    rw [List.getLast?_eq_getElem?, p.length_tasks, ← hlast, Nat.add_sub_cancel, htask]
  have hstLast : stations.getLast? = some st := by
    rw [List.getLast?_eq_getElem?, h.length_eq, p.length_tasks, ← hlast, Nat.add_sub_cancel,
      hat.station]
  have hdown : wiring.stdout ≠ .downstream := by
    rw [hstdout]
    cases launch.hasFile 1 <;> decide
  rw [h.stdout_eq htaskLast hstLast, if_neg hdown, written, Station.channel?_eq]
  exact hwired.stdout.received hstdout after

theorem stderr_written (hcapture : options.captureStderr = true) (after : World) :
    s.stderr.flatMap after.received =
      ((p.launches options).zip stations).flatMap (written w' after 2) := by
  have hlength : stations.length ≤ (p.launches options).length :=
    Nat.le_of_eq (h.length_eq.trans (p.length_tasks options))
  calc
    s.stderr.flatMap after.received
    _ = (((p.launches options).zip stations).map Prod.snd).flatMap
          fun st ↦ st.errPipe.toList.flatMap after.received := by
      rw [h.stderr_eq, List.nil_append, List.flatMap_assoc, List.map_snd_zip hlength]
    _ = ((p.launches options).zip stations).flatMap (written w' after 2) := by
      rw [List.flatMap_map]
      refine List.flatMap_congr fun ⟨launch, st⟩ hmem ↦ ?_
      obtain ⟨i, hi⟩ := List.mem_iff_getElem?.1 hmem
      obtain ⟨hlaunch, hst⟩ := List.getElem?_zip_eq_some.1 hi
      obtain ⟨fed, predecessor, hstage⟩ := stageAt_of_chain h ⟨hlaunch, hst⟩
      rw [written, Station.channel?_eq]
      exact hstage.wired.stderr.received (by simp [Wiring.errors, hcapture]) after

theorem results_of_yields {finishes : List Finish} {after : World} {outcome : Outcome}
    (hyields : Yields options s finishes after outcome)
    (hlength : finishes.length = (p.launches options).length) :
    Results options (p.launches options) stations w' finishes after outcome where
  stageCodes := hyields.stageCodes
  length_eq := hlength
  isSome_stdout := by
    rw [hyields.stdout]
    split_ifs with hcapture <;> simp [hcapture]
  stdout hat hlast hcapture := by
    rw [hyields.stdout, if_pos hcapture, stdout_written h hat hlast hcapture]
  stderr := by
    rw [hyields.stderr]
    split_ifs with hcapture
    · rw [stderr_written h hcapture]
    · rfl

end Chain

end Execution

open Execution

namespace Pipeline

variable {p : Pipeline} {options : RunOptions} {caller : Process} {s : Starting} {w w' : World}

theorem chain_of_startAll (h : (p.startAll options caller).Gives w s w') (hnone : s.error = none) :
    ∃ stations, Chain caller options (p.tasks options)
      { run := .start (p.launches options).length } w stations s w' := by
  rw [startAll_eq] at h
  exact chain_of_foldlM (by rw [Nat.zero_add, p.length_tasks]) (fun hne ↦ p.phase_start hne) h hnone

/-- All that a run starts is waited for, and then the run takes in what has been written. -/
theorem waits_of_startAll (h : (p.startAll options caller).Gives w s w') (hnone : s.error = none) :
    s.run.set.processes = s.run.started ∧
      ∀ finishes : List Finish, finishes.length = (p.launches options).length →
        (s.waited finishes).phase = .collecting := by
  obtain ⟨hreach, hwaiting, -⟩ := reaches_of_startAll h
  refine ⟨hreach.kept.owned, fun finishes hlength ↦ ?_⟩
  rcases hwaiting hnone with ⟨hzero, hrun⟩ | hphase
  · rw [hzero] at hlength
    obtain rfl := List.length_eq_zero_iff.1 hlength
    rw [Starting.waited, hrun]
    rfl
  · have hreaches := hreach.kept.reaches
    rw [hphase, ← hlength] at hreaches
    exact RunState.phase_of_waits hphase (List.length_pos_iff.1 hreaches.2.1) (Nat.zero_add _)

end Pipeline

/-- Where no stage comes to an error, the stages of a pipeline that needs no shell are wired to their
files, to their neighbours and to the caller; its new pipes are its own; and what the run results in
is what the stages have written. It comes to a result if all processes end in time. -/
theorem direct_run_wired {p : Pipeline} {options : RunOptions} {caller : Process} {s : Starting}
    {w w₁ : World} (direct : p.requiresShell = false)
    (hstart : (p.startAll options caller).Gives w s w₁) (hnone : s.error = none) :
    ∃ stations,
      StagesWired caller options w w₁ (p.stages.map Launch.ofStage) stations s.run.started ∧
      (caller.Sits w.pipes.size w →
        EndsApart caller options w w₁ (p.stages.map Launch.ofStage) stations) ∧
      ∀ encoding, options.capture.encoding? = .ok encoding →
        (∀ report w', (p.execute options caller).Gives w report w' →
          ∃ finishes w₂ outcome, (Branch.runAll s.run.started).Gives w₁ finishes w₂ ∧
            report.result = decodeOutcome encoding outcome ∧
            Results options (p.stages.map Launch.ofStage) stations w₁ finishes w₂ outcome) ∧
        ∀ finishes w₂, (Branch.runAll s.run.started).Gives w₁ finishes w₂ →
          w₁.Outlives finishes w₂ → ∃ report w', (p.execute options caller).Gives w report w' := by
  have hlaunches : p.launches options = p.stages.map Launch.ofStage := by
    rw [Pipeline.launches, direct]
    rfl
  obtain ⟨stations, hchain⟩ := Pipeline.chain_of_startAll hstart hnone
  obtain ⟨howned, hcollecting⟩ := Pipeline.waits_of_startAll hstart hnone
  obtain ⟨hnodup, hthere⟩ := hchain.taken rfl rfl
  have hlength : ∀ {finishes w₂}, (Branch.runAll s.run.started).Gives w₁ finishes w₂ →
      finishes.length = (p.launches options).length := fun hfinishes ↦ by
    rw [Branch.length_of_runAll hfinishes, hchain.length_started, RunState.started_start,
      List.length_nil, Nat.zero_add, p.length_tasks]
  rw [← hlaunches]
  refine ⟨stations, stagesWired hchain, endsApart hchain,
    fun encoding hencoding ↦ ⟨fun report w' hreport ↦ ?_, fun finishes w₂ hfinishes houtlives ↦ ?_⟩⟩
  · -- A run starts in the same way again, so its start is the one that is given.
    rw [Pipeline.execute_eq, hencoding] at hreport
    obtain ⟨s', w₁', hstart', hreport⟩ := Act.gives_bind.1 (Act.gives_get.1 hreport)
    cases hstart.symm.trans hstart'
    simp only [hnone] at hreport
    obtain ⟨finishes, w₂, outcome, hfinishes, hresult, hyields, -⟩ := gives_complete hreport
    rw [howned] at hfinishes
    exact ⟨finishes, w₂, outcome, hfinishes, hresult,
      results_of_yields hchain (hyields hnodup) (hlength hfinishes)⟩
  · obtain ⟨time, hended⟩ := Branch.ended_of_runAll hfinishes houtlives
    have hrun : (Branch.runAll s.run.set.processes).Gives w₁ finishes w₂ := howned ▸ hfinishes
    obtain ⟨report, w', hreport⟩ := complete_gives caller options p.line encoding w.clock hrun
      houtlives.halted (hcollecting finishes (hlength hfinishes)) hended
      fun pipe hpipe ↦ Nat.lt_of_lt_of_le (hthere pipe hpipe) houtlives.pipes
    refine ⟨report, w', ?_⟩
    rw [Pipeline.execute_eq, hencoding]
    refine Act.gives_get.2 (Act.gives_bind.2 ⟨s, w₁, hstart, ?_⟩)
    simpa only [hnone] using hreport

/-- A file is copied twice; the first command has a file for its errors, too. -/
private def copyingPipeline : Pipeline where
  stages :=
    [⟨[⟨"cat".toList, "cat".toList, false⟩],
      [(0, .file ⟨"in".toList, "in".toList, false⟩ .read),
        (2, .file ⟨"err".toList, "err".toList, false⟩ .truncate)]⟩,
      ⟨[⟨"cat".toList, "cat".toList, false⟩], []⟩]
  line := "cat <in 2>err | cat".toList

private def copyingHost : World where
  tree := ⟨[(["bin".toList], .directory), (["bin".toList, "cat".toList], .program .cat),
    (["in".toList], .file ['b'])]⟩
  channels := #[.device .null]

private def copyingCaller : Process := ⟨[], [], [], [(0, 0)]⟩

private theorem sits_copyingCaller : copyingCaller.Sits 0 copyingHost := by
  intro fd channel hchannel
  obtain ⟨before, behind, hsplit, -⟩ := List.lookup_eq_some_iff.1 hchannel
  have hmem : (fd, channel) ∈ copyingCaller.descriptors :=
    hsplit ▸ List.mem_append_right _ List.mem_cons_self
  cases List.mem_singleton.1 hmem
  exact ⟨by decide, fun pipe hpipe ↦ by cases hpipe⟩

private def copyingOptions : RunOptions := { capture := .bytes, captureStderr := true }

/-- Start the two commands, let them run, and see whether they have come to their ends in time. -/
private def copyingEnds : Act Bool := do
  let s ← copyingPipeline.startAll copyingOptions copyingCaller
  let w ← get
  let finishes ← Branch.runAll s.run.started
  let w' ← get
  return finishes.all (fun finish ↦ finish.halt ≠ .stuck) && w'.deadline.isNone &&
    decide (w.pipes.size ≤ w'.pipes.size) && s.error.isNone

theorem direct_run_wired_copying :
    ∃ s w₁ stations report w' finishes w₂ outcome,
      (copyingPipeline.startAll copyingOptions copyingCaller).Gives copyingHost s w₁ ∧
      StagesWired copyingCaller copyingOptions copyingHost w₁
        (copyingPipeline.stages.map Launch.ofStage) stations s.run.started ∧
      EndsApart copyingCaller copyingOptions copyingHost w₁
        (copyingPipeline.stages.map Launch.ofStage) stations ∧
      (Branch.runAll s.run.started).Gives w₁ finishes w₂ ∧ w₁.Outlives finishes w₂ ∧
      (copyingPipeline.execute copyingOptions copyingCaller).Gives copyingHost report w' ∧
      report.result = .ok outcome ∧ outcome.stdout = some [98] ∧
      Results copyingOptions (copyingPipeline.stages.map Launch.ofStage) stations w₁ finishes w₂
        outcome := by
  have hends : (copyingEnds.run.run copyingHost).1.toOption.any id = true := by decide +kernel
  have hresult : ((copyingPipeline.execute copyingOptions copyingCaller).run.run
      copyingHost).1.toOption.any (fun report ↦
        report.result.toOption.any fun outcome ↦ outcome.stdout = some [98]) = true := by
    decide +kernel
  obtain ⟨ended, w₂, hends, hended⟩ := Act.exists_gives hends
  obtain ⟨s, w₁, hstart, hends⟩ := Act.gives_bind.1 hends
  obtain ⟨finishes, _, hfinishes, hends⟩ := Act.gives_bind.1 (Act.gives_get.1 hends)
  rw [Act.gives_get, Act.gives_pure] at hends
  obtain ⟨rfl, rfl⟩ := hends
  simp only [id, Bool.and_eq_true, List.all_eq_true, decide_eq_true_eq, Option.isNone_iff_eq_none]
    at hended
  obtain ⟨⟨⟨hhalted, hdeadline⟩, hpipes⟩, hnone⟩ := hended
  obtain ⟨stations, hwired, hapart, hruns⟩ := direct_run_wired rfl hstart hnone
  obtain ⟨report, w', hreport, hresult⟩ := Act.exists_gives hresult
  obtain ⟨finishes', w₂', outcome, hfinishes', hdecoded, hresults⟩ := (hruns none rfl).1 _ _ hreport
  cases hfinishes.symm.trans hfinishes'
  refine ⟨s, w₁, stations, report, w', finishes, w₂, outcome, hstart, hwired,
    hapart sits_copyingCaller, hfinishes, ⟨hhalted, by simp [hdeadline], hpipes⟩, hreport, hdecoded,
    ?_, hresults⟩
  rw [hdecoded] at hresult
  exact of_decide_eq_true hresult

end ShellTemplate
