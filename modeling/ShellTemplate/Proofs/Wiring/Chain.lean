import ShellTemplate.Proofs.Launches
import ShellTemplate.Proofs.Wiring.Ends

/-!
# The stages of a run side by side

A run that starts all its processes gives every stage its channels, one stage after another. What
one stage makes is kept by those behind it, so the channels of all of them can be compared when the
run has been started.
-/

namespace ShellTemplate

namespace Execution

variable {caller : Process} {options : RunOptions}

/-- What a stage is started with leads to where its wiring says. -/
structure Station.Wired (caller : Process) (wiring : Wiring) (predecessor : Option Nat) (w w' : World)
    (st : Station) : Prop where
  stdin : wiring.stdin.Leads caller (st.files.lookup 0) predecessor w w' st.stdin
  stdout : wiring.stdout.Leads caller 1 (st.files.lookup 1) w w' st.stdout st.outPipe
  stderr : wiring.stderr.Leads caller 2 (st.files.lookup 2) w w' st.stderr st.errPipe

theorem Station.Wired.mono {wiring : Wiring} {predecessor : Option Nat} {st : Station}
    {v w w' w'' : World} (h : st.Wired caller wiring predecessor w w') (hbefore : v.Extends w)
    (hbehind : w'.Extends w'') : st.Wired caller wiring predecessor v w'' :=
  ⟨h.stdin.mono hbefore hbehind, h.stdout.mono hbefore hbehind, h.stderr.mono hbefore hbehind⟩

/-- The files of a stage have been opened on the way from one host to the other. -/
structure Station.Opened (caller : Process) (options : RunOptions) (launch : Launch) (w w' : World)
    (st : Station) : Prop where
  opened : ∃ v v', w.Extends v ∧ v'.Extends w' ∧
    (openFiles caller options launch.openings []).Gives v (.ok st.files) v'

theorem Station.Opened.mono {launch : Launch} {st : Station} {v w w' w'' : World}
    (h : st.Opened caller options launch w w') (hbefore : v.Extends w)
    (hbehind : w'.Extends w'') : st.Opened caller options launch v w'' := by
  obtain ⟨u, u', hu, hu', hfiles⟩ := h.opened
  exact ⟨u, u', hbefore.trans hu, hu'.trans hbehind, hfiles⟩

theorem Connects.wired {launch : Launch} {wiring : Wiring} {predecessor : Option Nat}
    {st : Station} {w w' : World} (h : Connects caller options launch wiring predecessor w st w') :
    w.Extends w' ∧ st.Wired caller wiring predecessor w w' ∧
      st.Opened caller options launch w w' := by
  obtain ⟨w₁, w₂, w₃, hfiles, -, hstdin, hstdout, hstderr⟩ := h.connects
  have hopened := (gives_openFiles hfiles).1
  obtain ⟨hinput, hin⟩ := gives_inputChannel hstdin
  obtain ⟨houtput, hout⟩ := gives_outputChannel hstdout
  obtain ⟨herrors, herr⟩ := gives_outputChannel hstderr
  have hbefore := hopened.trans hinput
  have hbehind := houtput.trans herrors
  exact ⟨hbefore.trans hbehind, ⟨hin.mono hopened hbehind, hout.mono hbefore herrors,
    herr.mono (hbefore.trans houtput) (.refl w')⟩, w, w₁, .refl w, hinput.trans hbehind, hfiles⟩

/-- The stages of a run, started one after another. -/
inductive Chain (caller : Process) (options : RunOptions) :
    List (Launch × Wiring × Option Launch) → Starting → World → List Station → Starting → World →
      Prop
  | nil (s : Starting) (w : World) : Chain caller options [] s w [] s w
  | cons {launch : Launch} {wiring : Wiring} {next : Option Launch}
      {rest : List (Launch × Wiring × Option Launch)} {st : Station} {more : List Station}
      {s s' : Starting} {w w₁ w' : World} (run : RunState Branch)
      (connects : Connects caller options launch wiring s.predecessor w st w₁)
      (started : run.started = s.run.started ++ [st.branch caller options launch wiring next])
      (behind : Chain caller options rest (st.behind wiring s run) w₁ more s' w') :
      Chain caller options ((launch, wiring, next) :: rest) s w (st :: more) s' w'

/-- A run whose stages come to no error has gone through all of them. -/
theorem chain_of_foldlM {count index : Nat} {s s' : Starting} {w w' : World}
    {tasks : List (Launch × Wiring × Option Launch)} (hcount : index + tasks.length = count)
    (hphase : tasks ≠ [] → s.run.phase = .opening index)
    (h : ((tasks.zipIdx index).foldlM (startStage caller options count) s).Gives w s' w')
    (hnone : s'.error = none) : ∃ stations, Chain caller options tasks s w stations s' w' := by
  induction tasks generalizing index s w with
  | nil =>
      obtain ⟨rfl, rfl⟩ := Act.gives_pure.1 h
      exact ⟨[], .nil _ _⟩
  | cons task rest ih =>
      obtain ⟨launch, wiring, next⟩ := task
      rw [List.zipIdx_cons, List.foldlM_cons] at h
      obtain ⟨s₁, w₁, hstage, h⟩ := Act.gives_bind.1 h
      have hopening := hphase (by simp)
      rw [List.length_cons] at hcount
      -- A failure here ends the run, and its error would still be there at the end.
      cases startStage_comes hopening hstage with
      | openFailed | spawnFailed =>
          obtain ⟨rfl, -⟩ := foldlM_startStage_of_over
            (by simp [RunState.step, RunState.abort, hopening]) h
          cases hnone
      | started st _ hconnects =>
          have hnext := RunState.step_spawned hopening count
            (st.branch caller options launch wiring next)
          obtain ⟨more, hmore⟩ := ih (by omega) (fun hrest ↦ by
            have hpos := List.length_pos_iff.2 hrest
            exact hnext.2 (by omega)) h
          exact ⟨st :: more, .cons _ hconnects hnext.1 hmore⟩

namespace Chain

variable {tasks : List (Launch × Wiring × Option Launch)} {stations : List Station}
  {s s' : Starting} {w w' : World}

theorem length_eq (h : Chain caller options tasks s w stations s' w') :
    stations.length = tasks.length := by
  induction h with
  | nil => rfl
  | cons _ _ _ _ ih => rw [List.length_cons, List.length_cons, ih]

theorem grows (h : Chain caller options tasks s w stations s' w') : w.Extends w' := by
  induction h with
  | nil => rfl
  | cons _ connects _ _ ih => exact connects.wired.1.trans ih

theorem stderr_eq (h : Chain caller options tasks s w stations s' w') :
    s'.stderr = s.stderr ++ stations.flatMap fun st ↦ st.errPipe.toList := by
  induction h with
  | nil => simp
  | cons _ _ _ _ ih => rw [ih, List.flatMap_cons, Station.behind, List.append_assoc]

theorem started_eq (h : Chain caller options tasks s w stations s' w') :
    s'.run.started = s.run.started ++ List.zipWith
      (fun task st ↦ st.branch caller options task.1 task.2.1 task.2.2) tasks stations := by
  induction h with
  | nil => simp
  | cons run _ started _ ih =>
      rw [ih, List.zipWith_cons_cons, Station.behind, started, List.append_assoc,
        List.singleton_append]

theorem length_started (h : Chain caller options tasks s w stations s' w') :
    s'.run.started.length = s.run.started.length + tasks.length := by
  rw [h.started_eq, List.length_append, List.length_zipWith, h.length_eq, Nat.min_self]

/-- The standard output that is kept is that of the last stage. -/
theorem stdout_eq (h : Chain caller options tasks s w stations s' w') {launch : Launch}
    {wiring : Wiring} {next : Option Launch} {st : Station}
    (htask : tasks.getLast? = some (launch, wiring, next)) (hst : stations.getLast? = some st) :
    s'.stdout = if wiring.stdout = .downstream then none else st.outPipe := by
  induction h with
  | nil => cases hst
  | cons _ _ _ behind ih =>
      cases behind with
      | nil =>
          cases htask
          cases hst
          rfl
      | cons => exact ih htask hst

theorem stdout_sublist (h : Chain caller options tasks s w stations s' w') :
    s'.stdout.toList.Sublist (s.stdout.toList ++ stations.flatMap fun st ↦ st.outPipe.toList) := by
  induction h with
  | nil => simp
  | @cons launch wiring next rest st more s s' w w₁ w' run _ _ _ ih =>
      have hbehind : (st.behind wiring s run).stdout.toList.Sublist st.outPipe.toList := by
        unfold Station.behind
        dsimp only
        split_ifs
        · exact List.nil_sublist _
        · exact .refl _
      exact ih.trans ((hbehind.append (.refl _)).trans (List.sublist_append_right _ _))

/-- Each stage has been given its channels, the input from the stage before it if that one leads
there. -/
theorem wired (h : Chain caller options tasks s w stations s' w') {i : Nat} {launch : Launch}
    {wiring : Wiring} {next : Option Launch} {st : Station}
    (htask : tasks[i]? = some (launch, wiring, next)) (hst : stations[i]? = some st) :
    ∃ predecessor, st.Wired caller wiring predecessor w w' ∧
      st.Opened caller options launch w w' ∧
      (i = 0 → predecessor = s.predecessor) ∧
      ∀ j launch' wiring' next' st', i = j + 1 → tasks[j]? = some (launch', wiring', next') →
        stations[j]? = some st' →
        predecessor = if wiring'.stdout = .downstream then st'.stdout else none := by
  induction h generalizing i with
  | nil => cases hst
  | @cons launch₀ wiring₀ next₀ rest st₀ more s₀ s₀' w₀ w₁ w₀' run connects _ behind ih =>
      obtain ⟨hextends, hwired, hopened⟩ := connects.wired
      cases i with
      | zero =>
          cases htask
          cases hst
          exact ⟨_, hwired.mono (.refl _) behind.grows, hopened.mono (.refl _) behind.grows,
            fun _ ↦ rfl, fun _ _ _ _ _ hj ↦ absurd hj (by omega)⟩
      | succ i =>
          obtain ⟨predecessor, hmore, hfiles, hfirst, hnext⟩ := ih htask hst
          refine ⟨predecessor, hmore.mono hextends (.refl _), hfiles.mono hextends (.refl _),
            fun hi ↦ absurd hi (by omega), fun j launch' wiring' next' st' hj htask' hst' ↦ ?_⟩
          obtain rfl : i = j := by omega
          -- The predecessor of the first of the rest is what this stage leaves behind.
          cases i with
          | zero =>
              cases htask'
              cases hst'
              exact hfirst rfl
          | succ i => exact hnext i launch' wiring' next' st' rfl htask' hst'

end Chain

end Execution

end ShellTemplate
