import ShellTemplate.Proofs.Launches
import ShellTemplate.Proofs.Wiring.Collected

/-!
# Failures at the start

The first stage that fails ends the start of a run: the error names that stage, as many processes
have been started as there are stages before it, and the host is left as its own files leave it.
Whether a stage fails or not, the run has ended when its result is given, and no child is left
behind.
-/

namespace ShellTemplate

namespace Execution

variable {caller : Process} {options : RunOptions}

/-- A file that cannot be opened is reported as such. -/
theorem openFiles_error {openings : List Opening} {opened : List (Nat × Nat)} {e : RunError}
    {w w' : World} (h : (openFiles caller options openings opened).Gives w (.error e) w') :
    ∃ path cause, e = .redirect path cause := by
  induction openings generalizing opened w with
  | nil =>
      obtain ⟨hresult, -⟩ := Act.gives_pure.1 h
      cases hresult
  | cons opening rest ih =>
      cases opening with
      | shared fd earlier =>
          unfold openFiles at h
          exact ih h
      | fresh fd path mode =>
          unfold openFiles at h
          obtain ⟨answer, w₁, -, hrest⟩ := Act.gives_bind.1 h
          cases answer with
          | error cause =>
              obtain ⟨hresult, -⟩ := Act.gives_pure.1 hrest
              cases hresult
              exact ⟨_, cause, rfl⟩
          | ok channel => exact ih hrest

/-- The error that the stage with this number and launch comes to, and the ending of its run. -/
inductive FailsAt (stage : Nat) (launch : Launch) : RunError → RunEnding → Prop
  | redirect (path : List Char) (cause : OsError) :
      FailsAt stage launch (.redirect path cause) (.openFailed stage)
  | spawn (cause : OsError) :
      FailsAt stage launch (.spawn stage launch.program cause) (.spawnFailed stage)

theorem FailsAt.spawn_eq {stage named : Nat} {launch : Launch} {program : List Char}
    {cause : OsError} {ending : RunEnding}
    (h : FailsAt stage launch (.spawn named program cause) ending) :
    stage = named ∧ launch.program = program ∧ ending = .spawnFailed named := by
  cases h
  exact ⟨rfl, rfl, rfl⟩

/-- A run fails at a stage, or it has come to the next one. -/
theorem Comes.reaches {count index : Nat} {s s' : Starting} {launch : Launch} {wiring : Wiring}
    {next : Option Launch} {w w' : World} (hreach : RunState.Reachable count s.run)
    (hphase : s.run.phase = .opening index) (hclean : s.error = none)
    (h : Comes caller options count s launch wiring next index w s' w') :
    RunState.Reachable count s'.run ∧
      ((∃ e ending, s'.error = some e ∧ FailsAt index launch e ending ∧
          s'.run.phase = .aborting ending) ∨
        s'.error = none ∧ s'.run.phase =
          if index + 1 < count then .opening (index + 1) else .waiting 0) := by
  have hopened := (hreach.step .succeeded).step .succeeded
  cases h with
  | openFailed e _ hopen =>
      obtain ⟨path, cause, rfl⟩ := openFiles_error hopen
      refine ⟨hreach.step .failed, .inl ⟨_, _, rfl, .redirect path cause, ?_⟩⟩
      simp [RunState.step, RunState.abort, hphase]
  | spawnFailed files cause =>
      refine ⟨hopened.step .failed, .inl ⟨_, _, rfl, .spawn cause, ?_⟩⟩
      simp [RunState.step, RunState.abort, hphase]
  | started st =>
      refine ⟨hopened.step (.spawned _), .inr ⟨hclean, ?_⟩⟩
      simp [Station.behind, RunState.step, hphase]

theorem foldlM_startStage_reaches {count index : Nat} {s s' : Starting} {w w' : World}
    {stages : List (Launch × Wiring × Option Launch)} (hcount : index + stages.length = count)
    (hreach : RunState.Reachable count s.run) (hclean : s.error = none)
    (hphase : stages ≠ [] → s.run.phase = .opening index)
    (h : ((stages.zipIdx index).foldlM (startStage caller options count) s).Gives w s' w') :
    RunState.Reachable count s'.run ∧
      (s'.error = none → stages ≠ [] → s'.run.phase = .waiting 0) ∧
      ∀ e, s'.error = some e → ∃ i stage ending, stages[i]? = some stage ∧
        FailsAt (index + i) stage.1 e ending ∧ s'.run.phase = .aborting ending ∧
        (((stages.take (i + 1)).zipIdx index).foldlM (startStage caller options count) s).Gives
          w s' w' := by
  induction stages generalizing index s w with
  | nil =>
      obtain ⟨rfl, rfl⟩ := Act.gives_pure.1 h
      exact ⟨hreach, fun _ hne ↦ absurd rfl hne, fun e he ↦ absurd (hclean.symm.trans he) nofun⟩
  | cons stage rest ih =>
      obtain ⟨launch, wiring, next⟩ := stage
      rw [List.zipIdx_cons, List.foldlM_cons] at h
      obtain ⟨s₁, w₁, hstage, h⟩ := Act.gives_bind.1 h
      have hopening := hphase (by simp)
      obtain ⟨hreach₁, hcomes⟩ := (startStage_comes hopening hstage).reaches hreach hopening hclean
      rcases hcomes with ⟨e, ending, herror, hfails, haborting⟩ | ⟨hclean₁, hphase₁⟩
      · -- The stages behind are passed over, so the host is as this one has left it.
        obtain ⟨rfl, rfl⟩ := foldlM_startStage_of_over (by simp [haborting]) h
        refine ⟨hreach₁, fun hnone ↦ absurd (hnone.symm.trans herror) nofun, fun e' he' ↦ ?_⟩
        obtain rfl : e = e' := Option.some.inj (herror.symm.trans he')
        refine ⟨0, _, ending, rfl, hfails, haborting, ?_⟩
        exact Act.gives_bind.2 ⟨_, _, hstage, Act.gives_pure.2 ⟨rfl, rfl⟩⟩
      · rw [List.length_cons] at hcount
        have hphase₂ : rest ≠ [] → s₁.run.phase = .opening (index + 1) := by
          intro hrest
          have hpos := List.length_pos_iff.2 hrest
          rw [hphase₁, if_pos (by omega)]
        obtain ⟨hreach', hnone', herror'⟩ := ih (by omega) hreach₁ hclean₁ hphase₂ h
        refine ⟨hreach', fun hnone _ ↦ ?_, fun e he ↦ ?_⟩
        · by_cases hrest : rest = []
          · subst hrest
            obtain ⟨rfl, -⟩ := Act.gives_pure.1 h
            rw [hphase₁, if_neg (by simp at hcount; omega)]
          · exact hnone' hnone hrest
        · obtain ⟨i, stage, ending, hget, hfails, haborting, hfirst⟩ := herror' e he
          refine ⟨i + 1, stage, ending, hget, ?_, haborting, ?_⟩
          · rwa [Nat.add_right_comm] at hfails
          · rw [List.take_succ_cons, List.zipIdx_cons, List.foldlM_cons]
            exact Act.gives_bind.2 ⟨s₁, w₁, hstage, hfirst⟩

end Execution

/-- Start the first processes of a run, so many of them. -/
def Pipeline.startFirst (p : Pipeline) (options : RunOptions) (caller : Process) (stages : Nat) :
    Act Execution.Starting :=
  ((p.tasks options).take stages).zipIdx.foldlM
    (Execution.startStage caller options (p.launches options).length)
    { run := .start (p.launches options).length }

namespace Pipeline

open Execution

variable {p : Pipeline} {options : RunOptions} {caller : Process} {s : Starting} {w w' : World}

theorem reaches_of_startAll (h : (p.startAll options caller).Gives w s w') :
    RunState.Reachable (p.launches options).length s.run ∧
      (s.error = none →
        (p.launches options = [] ∧ s.run = .start 0) ∨ s.run.phase = .waiting 0) ∧
      ∀ e, s.error = some e → ∃ k launch ending, (p.launches options)[k]? = some launch ∧
        FailsAt k launch e ending ∧ s.run.phase = .aborting ending ∧
        (p.startFirst options caller (k + 1)).Gives w s w' := by
  have hcount : 0 + (p.tasks options).length = (p.launches options).length := by
    rw [Nat.zero_add, p.length_tasks]
  rw [startAll_eq] at h
  obtain ⟨hreach, hwaiting, herror⟩ :=
    foldlM_startStage_reaches hcount .start rfl (fun hne ↦ p.phase_start hne) h
  refine ⟨hreach, fun hnone ↦ ?_, fun e he ↦ ?_⟩
  · by_cases hne : p.tasks options = []
    · have hzero : (p.launches options).length = 0 := by
        rw [← p.length_tasks, hne, List.length_nil]
      rw [hne, hzero] at h
      obtain ⟨rfl, -⟩ := Act.gives_pure.1 h
      exact .inl ⟨List.length_eq_zero_iff.1 hzero, rfl⟩
    · exact .inr (hwaiting hnone hne)
  · obtain ⟨k, task, ending, htask, hfails, haborting, hfirst⟩ := herror e he
    rw [Nat.zero_add] at hfails
    refine ⟨k, task.1, ending, ?_, hfails, haborting, hfirst⟩
    rw [← p.map_fst_tasks, List.getElem?_map, htask]
    rfl

/-- Where no stage fails, all are started. -/
theorem length_started (h : (p.startAll options caller).Gives w s w') (hnone : s.error = none) :
    s.run.started.length = (p.launches options).length := by
  obtain ⟨hreach, hwaiting, -⟩ := reaches_of_startAll h
  rcases hwaiting hnone with ⟨hzero, hrun⟩ | hphase
  · rw [hzero, hrun]
    rfl
  · have hreaches := hreach.kept.reaches
    rw [hphase] at hreaches
    exact hreaches.2.2.1

/-- What a run comes to, it comes to by its own steps, and it has ended by then. -/
theorem ended_of_execute {report : RunReport} (h : (p.execute options caller).Gives w report w') :
    (report.run = none →
      ∃ e, options.capture.encoding? = .error e ∧ report.result = .error e) ∧
    ∀ run, report.run = some run → RunState.Reachable (p.launches options).length run ∧
      ∃ ending, run.phase = .ended ending ∧ (ending = .finished ∨
        ∃ k launch e, (p.launches options)[k]? = some launch ∧ FailsAt k launch e ending ∧
          report.result = .error e) := by
  rw [execute_eq] at h
  cases hencoding : options.capture.encoding? with
  | error e =>
      rw [hencoding] at h
      obtain ⟨rfl, -⟩ := Act.gives_pure.1 h
      exact ⟨fun _ ↦ ⟨e, rfl, rfl⟩, by simp⟩
  | ok encoding =>
      rw [hencoding] at h
      obtain ⟨s, w₁, hstart, h⟩ := Act.gives_bind.1 (Act.gives_get.1 h)
      obtain ⟨hreach, -, herror⟩ := reaches_of_startAll hstart
      cases hs : s.error with
      | some e =>
          simp only [hs] at h
          obtain ⟨rfl, -⟩ := Act.gives_pure.1 h
          obtain ⟨k, launch, ending, hlaunch, hfails, hphase, -⟩ := herror e hs
          refine ⟨by simp, ?_⟩
          rintro _ ⟨⟩
          refine ⟨hreach.step .succeeded, ending, ?_, .inr ⟨k, launch, e, hlaunch, hfails, rfl⟩⟩
          simp [RunState.step, hphase]
      | none =>
          simp only [hs] at h
          obtain ⟨finishes, w₂, outcome, hfinishes, -, -, hphase, hrun⟩ := gives_complete h
          rw [hreach.kept.owned] at hfinishes
          have hlength : finishes.length = (p.launches options).length :=
            (Branch.length_of_runAll hfinishes).trans (length_started hstart hs)
          have hwaited : RunState.Reachable (p.launches options).length (s.waited finishes) := by
            unfold Starting.waited
            rw [hlength]
            exact hreach.foldl finishes
          rw [hrun, hlength]
          refine ⟨by simp, ?_⟩
          rintro _ ⟨⟩
          refine ⟨hwaited.step .succeeded, .finished, ?_, .inl rfl⟩
          simp [RunState.step, hphase, RunState.leave]

end Pipeline

/-- No child is left behind, whatever happens to a run and whenever; a run that fails to open or to
start a stage goes no further; and a run has ended when it is executed. -/
theorem children_tended :
    (∀ {α : Type} (stages : Nat) (s : RunState α), RunState.Reachable stages s →
      s.set.processes = s.started ∧
      (s.set.armed = false → s.set.Tended) ∧
      (∀ ending, s.phase = .ended ending → s.set.Tended) ∧
      ∀ k, s.phase = .opening k ∨ s.phase = .connecting k ∨ s.phase = .spawning k →
        s.started.length = k ∧ (∀ i ∈ s.opened, i ≤ k) ∧
        ∀ events : List (RunEvent α),
          s.NothingNew (events.foldl (RunState.step stages) (s.step stages .failed))) ∧
    (∀ (p : Pipeline) (options : RunOptions) (caller : Process) (w : World)
      (s : Execution.Starting) (w' : World), (p.startAll options caller).Gives w s w' →
      RunState.Reachable (p.launches options).length s.run ∧
      ∀ e, s.error = some e → ∃ k launch ending, (p.launches options)[k]? = some launch ∧
        Execution.FailsAt k launch e ending ∧ s.run.phase = .aborting ending ∧
        s.run.started.length = k ∧ (p.startFirst options caller (k + 1)).Gives w s w') ∧
    ∀ (p : Pipeline) (options : RunOptions) (caller : Process) (w : World)
      (report : RunReport) (w' : World), (p.execute options caller).Gives w report w' →
      (report.run = none →
        ∃ e, options.capture.encoding? = .error e ∧ report.result = .error e) ∧
      ∀ run, report.run = some run → RunState.Reachable (p.launches options).length run ∧
        run.set.processes = run.started ∧ run.set.Tended ∧
        ∃ ending, run.phase = .ended ending ∧ (ending = .finished ∨
          ∃ k launch e, (p.launches options)[k]? = some launch ∧
            Execution.FailsAt k launch e ending ∧ report.result = .error e) := by
  refine ⟨?_, ?_, ?_⟩
  · intro α stages s h
    have hkept := h.kept
    exact ⟨hkept.owned, hkept.disarmed, fun ending ↦ hkept.tended_of_ended,
      fun k hphase ↦ hkept.failing hphase⟩
  · intro p options caller w s w' h
    obtain ⟨hreach, -, herror⟩ := Pipeline.reaches_of_startAll h
    refine ⟨hreach, fun e he ↦ ?_⟩
    obtain ⟨k, launch, ending, hlaunch, hfails, haborting, hfirst⟩ := herror e he
    refine ⟨k, launch, ending, hlaunch, hfails, haborting, ?_, hfirst⟩
    have hreaches := hreach.kept.reaches
    rw [haborting] at hreaches
    cases hfails <;> exact hreaches.2.1
  · intro p options caller w report w' h
    obtain ⟨hnone, hended⟩ := Pipeline.ended_of_execute h
    refine ⟨hnone, fun run hrun ↦ ?_⟩
    obtain ⟨hreach, ending, hphase, hending⟩ := hended run hrun
    exact ⟨hreach, hreach.kept.owned, hreach.kept.tended_of_ended hphase, ending, hphase, hending⟩

/-- Three commands; there is no program for the second. -/
private def missingSecond : Pipeline where
  stages :=
    [⟨[⟨"sort".toList, "sort".toList, false⟩], []⟩, ⟨[⟨"look".toList, "look".toList, false⟩], []⟩,
      ⟨[⟨"wc".toList, "wc".toList, false⟩],
        [(1, .file ⟨"out".toList, "out".toList, false⟩ .truncate)]⟩]
  line := "sort | look | wc >out".toList

theorem children_tended_missing :
    ∃ s w' report w'', (missingSecond.startAll {} ⟨[], [], [], []⟩).Gives sortingHost s w' ∧
      s.error = some (.spawn 1 "look".toList .noEntry) ∧ s.run.started.length = 1 ∧
      (missingSecond.startFirst {} ⟨[], [], [], []⟩ 2).Gives sortingHost s w' ∧
      (s.run.step 3 .dropped).set.Tended ∧
      (missingSecond.execute {} ⟨[], [], [], []⟩).Gives sortingHost report w'' ∧
      ∃ run, report.run = some run ∧ run.phase = .ended (.spawnFailed 1) ∧ run.set.Tended := by
  have hfails : ((missingSecond.startAll {} ⟨[], [], [], []⟩).run.run sortingHost).1.toOption.any
      (fun s ↦ s.error = some (.spawn 1 "look".toList .noEntry)) = true := by decide +kernel
  have hends : ((missingSecond.execute {} ⟨[], [], [], []⟩).run.run sortingHost).1.toOption.any
      (fun report ↦ report.run.any (·.phase = .ended (.spawnFailed 1))) = true := by
    decide +kernel
  obtain ⟨s, w', hgives, hfailed⟩ := Act.exists_gives hfails
  have herror : s.error = some (.spawn 1 "look".toList .noEntry) := of_decide_eq_true hfailed
  obtain ⟨hreach, hstage⟩ := children_tended.2.1 _ _ _ _ _ _ hgives
  obtain ⟨k, launch, ending, -, hfailsAt, hphase, hstarted, hfirst⟩ := hstage _ herror
  obtain ⟨rfl, -, rfl⟩ := hfailsAt.spawn_eq
  have hended : (s.run.step 3 .dropped).phase = .ended .dropped := by
    simp [RunState.step, hphase, RunState.leave]
  obtain ⟨-, -, htended, -⟩ := children_tended.1 3 _ (hreach.step .dropped)
  obtain ⟨report, w'', hreport, hany⟩ := Act.exists_gives hends
  obtain ⟨run, hrun, hover⟩ := (Option.any_eq_true _ _).1 hany
  have hover : run.phase = .ended (.spawnFailed 1) := of_decide_eq_true hover
  obtain ⟨-, hruns⟩ := children_tended.2.2 _ _ _ _ _ _ hreport
  obtain ⟨-, -, htended', -⟩ := hruns run hrun
  exact ⟨s, w', report, w'', hgives, herror, hstarted, hfirst, htended _ hended, hreport, run, hrun,
    hover, htended'⟩

end ShellTemplate
