import ShellTemplate.Proofs.Wiring.Pipes

/-!
# What every stage reads and writes

The wiring of a stage is told by its position, its files and those of the stage before it, and by the
options.
-/

namespace ShellTemplate

/-- The wiring at a position is that of the launch there, fed if the one before has no file for its
standard output. -/
theorem Wiring.getElem?_ofLaunches (options : RunOptions) (isFirst isFed : Bool)
    {launches : List Launch} {i : Nat} {launch : Launch} (h : launches[i]? = some launch) :
    ∃ fed, (ofLaunches options isFirst isFed launches)[i]? =
        some ⟨input options (isFirst && decide (i = 0)) fed launch,
          output options (decide (i + 1 = launches.length)) launch, errors options launch⟩ ∧
      (i = 0 → fed = isFed) ∧
      ∀ j launch', i = j + 1 → launches[j]? = some launch' → fed = !launch'.hasFile 1 := by
  induction launches generalizing isFirst isFed i with
  | nil => cases h
  | cons first rest ih =>
      cases i with
      | zero =>
          cases h
          refine ⟨isFed, ?_, fun _ ↦ rfl, fun _ _ hj ↦ absurd hj (by omega)⟩
          cases rest <;> simp [ofLaunches]
      | succ i =>
          -- Behind the first launch, whether a launch is fed depends on the output before it.
          obtain ⟨fed, hget, hzero, hsucc⟩ := ih false
            (decide (output options rest.isEmpty first = .downstream)) h
          refine ⟨fed, ?_, fun hi ↦ absurd hi (by omega), fun j launch' hj hlaunch ↦ ?_⟩
          · simpa [ofLaunches] using hget
          · obtain rfl : i = j := by omega
            cases i with
            | zero =>
                cases hlaunch
                have hrest : rest.isEmpty = false := by
                  cases rest with
                  | nil => cases h
                  | cons => rfl
                rw [hzero rfl, hrest]
                cases hfile : first.hasFile 1 <;> simp [output, hfile]
            | succ i => exact hsucc i launch' rfl hlaunch

namespace Pipeline

variable {p : Pipeline} {options : RunOptions}

/-- The wiring of a launch by its position and by the launch before it. -/
structure WiredAt (p : Pipeline) (options : RunOptions) (i : Nat) (launch : Launch) (fed : Bool)
    (wiring : Wiring) : Prop where
  wiring_eq : wiring = ⟨Wiring.input options (decide (i = 0)) fed launch,
    Wiring.output options (decide (i + 1 = (p.launches options).length)) launch,
    Wiring.errors options launch⟩
  first : i = 0 → fed = false
  behind : ∀ {j launch'}, i = j + 1 → (p.launches options)[j]? = some launch' →
    fed = !launch'.hasFile 1

theorem getElem?_tasks {i : Nat} {launch : Launch} (h : (p.launches options)[i]? = some launch) :
    ∃ fed wiring next, (p.tasks options)[i]? = some (launch, wiring, next) ∧
      p.WiredAt options i launch fed wiring := by
  obtain ⟨fed, hget, hfirst, hbehind⟩ := Wiring.getElem?_ofLaunches options true false h
  obtain ⟨hlt, -⟩ := List.getElem?_eq_some_iff.1 h
  have hnext : i < ((p.launches options).tail.map some ++ [none]).length := by
    rw [List.length_append, List.length_map, List.length_tail, List.length_singleton]
    omega
  refine ⟨fed, _, ((p.launches options).tail.map some ++ [none])[i], ?_, rfl, hfirst,
    fun hj hlaunch ↦ hbehind _ _ hj hlaunch⟩
  rw [tasks, List.getElem?_zip_eq_some, List.getElem?_zip_eq_some]
  exact ⟨h, hget, List.getElem?_eq_getElem hnext⟩

end Pipeline

namespace Execution

/-- The stage at a position, with what it was started with. -/
structure At (launches : List Launch) (stations : List Station) (i : Nat) (launch : Launch)
    (st : Station) : Prop where
  launch : launches[i]? = some launch
  station : stations[i]? = some st

/-- How the stages of a run are wired on a host, as seen from the one before the run. -/
structure StagesWired (caller : Process) (options : RunOptions) (w w' : World)
    (launches : List Launch) (stations : List Station) (branches : List Branch) : Prop where
  length_eq : stations.length = launches.length
  /-- The program of a stage has been started with the descriptors of the stage. -/
  started : ∀ {i launch st}, At launches stations i launch st → ∃ branch,
    branches[i]? = some branch ∧
      branch.work = Shell.start Shell.depthLimit st.program (st.process caller options launch)
  /-- The files of a stage have been opened, and it reads and writes them. -/
  file : ∀ {i launch st}, At launches stations i launch st →
    st.Opened caller options launch w w' ∧
      ∀ fd ≤ 2, launch.hasFile fd = true →
        ∃ channel, st.files.lookup fd = some channel ∧ st.channel? fd = some channel
  /-- The first stage reads what the options say. -/
  first : ∀ {launch st}, At launches stations 0 launch st → launch.hasFile 0 = false →
    (Wiring.callerInput options.stdin).Leads caller none none w w' (st.channel? 0)
  /-- A stage reads what the one before writes. -/
  fed : ∀ {i launch st next st'}, At launches stations i launch st →
    At launches stations (i + 1) next st' → next.hasFile 0 = false → launch.hasFile 1 = false →
      st'.channel? 0 = st.channel? 1
  /-- A stage has nothing to read if the one before writes to a file. -/
  starved : ∀ {i launch st next st'}, At launches stations i launch st →
    At launches stations (i + 1) next st' → next.hasFile 0 = false → launch.hasFile 1 = true →
      w.MakesNull w' (st'.channel? 0)
  /-- What a stage before the last writes goes into a pipe, whatever the options say. -/
  piped : ∀ {i launch st}, At launches stations i launch st → i + 1 < launches.length →
    launch.hasFile 1 = false → ∃ pipe, w.MakesPipe w' (st.channel? 1) pipe {}
  /-- What the last stage writes is captured, discarded or passed on. -/
  last : ∀ {i launch st}, At launches stations i launch st → i + 1 = launches.length →
    launch.hasFile 1 = false →
      w.LeadsOut w' caller 1 options.capture.isSome options.quiet (st.channel? 1)
  /-- So are the errors of every stage. -/
  errors : ∀ {i launch st}, At launches stations i launch st → launch.hasFile 2 = false →
    w.LeadsOut w' caller 2 options.captureStderr options.quiet (st.channel? 2)

variable {caller : Process} {options : RunOptions} {p : Pipeline} {s : Starting}
  {launches : List Launch} {launch : Launch} {stations : List Station} {st : Station}
  {w w' : World} {i : Nat}

/-- What a chain says of one of its stages. -/
structure StageAt (caller : Process) (options : RunOptions) (w w' : World) (launches : List Launch)
    (stations : List Station) (i : Nat) (launch : Launch) (st : Station) (fed : Bool)
    (predecessor : Option Nat) : Prop where
  wired : st.Wired caller ⟨Wiring.input options (decide (i = 0)) fed launch,
    Wiring.output options (decide (i + 1 = launches.length)) launch,
    Wiring.errors options launch⟩ predecessor w w'
  opened : st.Opened caller options launch w w'
  first : i = 0 → fed = false
  behind : ∀ {j launch' st'}, i = j + 1 → At launches stations j launch' st' →
    fed = (!launch'.hasFile 1) ∧ (launch'.hasFile 1 = false → predecessor = st'.channel? 1)

namespace StageAt

variable {fed : Bool} {predecessor : Option Nat}

theorem files (h : StageAt caller options w w' launches stations i launch st fed predecessor)
    {fd : Nat} (hfd : fd ≤ 2) (hfile : launch.hasFile fd = true) :
    ∃ channel, st.files.lookup fd = some channel ∧ st.channel? fd = some channel := by
  obtain ⟨v, v', -, -, hfiles⟩ := h.opened.opened
  have hkeys : st.files.map Prod.fst = launch.files.map Prod.fst := by
    simpa using keys_of_openFiles rfl hfiles
  obtain ⟨entry, hentry, rfl⟩ := List.mem_map.1 (hkeys ▸ hasFile_iff.1 hfile)
  obtain ⟨channel, hchannel⟩ := Option.isSome_iff_exists.1
    (List.lookup_isSome_iff.2 ⟨entry, hentry, beq_self_eq_true entry.1⟩)
  refine ⟨channel, hchannel, ?_⟩
  rw [← hchannel, Station.channel?_eq]
  obtain ⟨hstdin, hstdout, hstderr⟩ := h.wired
  match hkey : entry.1, hfd with
  | 0, _ =>
      rw [hkey] at hfile
      simp only [Wiring.input, hfile, if_true] at hstdin
      exact hstdin
  | 1, _ =>
      rw [hkey] at hfile
      simp only [Wiring.output, hfile, if_true] at hstdout
      exact hstdout.1
  | 2, _ =>
      rw [hkey] at hfile
      simp only [Wiring.errors, hfile, if_true] at hstderr
      exact hstderr.1

theorem errors (h : StageAt caller options w w' launches stations i launch st fed predecessor)
    (hfile : launch.hasFile 2 = false) :
    w.LeadsOut w' caller 2 options.captureStderr options.quiet (st.channel? 2) := by
  have hstderr := h.wired.stderr
  simp only [Wiring.errors, hfile, Bool.false_eq_true, if_false] at hstderr
  rw [Station.channel?_eq]
  exact hstderr.leadsOut

theorem last (h : StageAt caller options w w' launches stations i launch st fed predecessor)
    (hlast : i + 1 = launches.length) (hfile : launch.hasFile 1 = false) :
    w.LeadsOut w' caller 1 options.capture.isSome options.quiet (st.channel? 1) := by
  have hstdout := h.wired.stdout
  simp only [Wiring.output, hfile, hlast, decide_true, Bool.not_true, Bool.false_eq_true,
    if_false] at hstdout
  rw [Station.channel?_eq]
  exact hstdout.leadsOut

theorem piped (h : StageAt caller options w w' launches stations i launch st fed predecessor)
    (hlast : i + 1 < launches.length) (hfile : launch.hasFile 1 = false) :
    ∃ pipe, w.MakesPipe w' (st.channel? 1) pipe {} := by
  have hstdout := h.wired.stdout
  simp only [Wiring.output, hfile, Nat.ne_of_lt hlast, decide_false, Bool.not_false,
    Bool.false_eq_true, if_false, if_true] at hstdout
  obtain ⟨pipe, -, hpipe⟩ := hstdout
  rw [Station.channel?_eq]
  exact ⟨pipe, hpipe⟩

end StageAt

section Chain

variable (h : Chain caller options (p.tasks options) { run := .start (p.launches options).length } w
  stations s w')
include h

theorem stageAt_of_chain (hat : At (p.launches options) stations i launch st) :
    ∃ fed predecessor,
      StageAt caller options w w' (p.launches options) stations i launch st fed predecessor := by
  obtain ⟨fed, wiring, next, htask, hwiring⟩ := Pipeline.getElem?_tasks hat.launch
  obtain ⟨predecessor, hwired, hfiles, -, hpredecessor⟩ := h.wired htask hat.station
  rw [hwiring.wiring_eq] at hwired
  refine ⟨fed, predecessor, hwired, hfiles, hwiring.first, fun {j launch' st'} hj hbefore ↦
    ⟨hwiring.behind hj hbefore.launch, fun hout ↦ ?_⟩⟩
  obtain ⟨fed', wiring', next', htask', hwiring'⟩ := Pipeline.getElem?_tasks hbefore.launch
  obtain ⟨hlt, -⟩ := List.getElem?_eq_some_iff.1 hat.launch
  -- The one before is not the last, so without a file it writes downstream.
  have hnotLast : ¬ j + 1 = (p.launches options).length := by omega
  have hdown : wiring'.stdout = .downstream := by
    simp [hwiring'.wiring_eq, Wiring.output, hout, hnotLast]
  rw [hpredecessor j _ _ _ _ hj htask' hbefore.station, if_pos hdown, Station.channel?_eq]
  rfl

/-- A run that starts all its stages has them wired. -/
theorem stagesWired :
    StagesWired caller options w w' (p.launches options) stations s.run.started where
  length_eq := by rw [h.length_eq, Pipeline.length_tasks]
  started hat := by
    obtain ⟨fed, wiring, next, htask, -⟩ := Pipeline.getElem?_tasks hat.launch
    refine ⟨Station.branch caller options _ wiring next _, ?_, rfl⟩
    rw [h.started_eq, RunState.started_start, List.nil_append, List.getElem?_zipWith, htask,
      hat.station]
  file hat := by
    obtain ⟨fed, predecessor, hstage⟩ := stageAt_of_chain h hat
    exact ⟨hstage.opened, fun _ hfd hfile ↦ hstage.files hfd hfile⟩
  first hat hfile := by
    obtain ⟨fed, predecessor, hstage⟩ := stageAt_of_chain h hat
    have hstdin := hstage.wired.stdin
    simp only [Wiring.input, hfile, hstage.first rfl, decide_true, Bool.false_eq_true, if_false,
      if_true] at hstdin
    rw [Station.channel?_eq]
    cases hsource : options.stdin <;> rw [hsource] at hstdin <;> exact hstdin
  fed hat hnext hin hout := by
    obtain ⟨fed, predecessor, hstage⟩ := stageAt_of_chain h hnext
    obtain ⟨rfl, hpredecessor⟩ := hstage.behind rfl hat
    have hstdin := hstage.wired.stdin
    simp only [Wiring.input, hin, hout, Bool.not_false, Bool.false_eq_true, if_false,
      if_true] at hstdin
    rw [Station.channel?_eq]
    exact hstdin.trans (hpredecessor hout)
  starved hat hnext hin hout := by
    obtain ⟨fed, predecessor, hstage⟩ := stageAt_of_chain h hnext
    obtain ⟨rfl, -⟩ := hstage.behind rfl hat
    have hstdin := hstage.wired.stdin
    simp only [Wiring.input, hin, hout, Bool.not_true, Nat.add_one_ne_zero, decide_false,
      Bool.false_eq_true, if_false] at hstdin
    rw [Station.channel?_eq]
    exact hstdin
  piped hat hlast hfile := by
    obtain ⟨fed, predecessor, hstage⟩ := stageAt_of_chain h hat
    exact hstage.piped hlast hfile
  last hat hlast hfile := by
    obtain ⟨fed, predecessor, hstage⟩ := stageAt_of_chain h hat
    exact hstage.last hlast hfile
  errors hat hfile := by
    obtain ⟨fed, predecessor, hstage⟩ := stageAt_of_chain h hat
    exact hstage.errors hfile

end Chain

end Execution

end ShellTemplate
