import ShellTemplate.Proofs.Wiring.Stages

/-!
# What is supplied, and to whom

Of what a run makes, only the input that is supplied has something to read at once, and that is the
input of the first stage. No stage behind it reads what the caller reads.
-/

namespace ShellTemplate

namespace World

variable {caller : Process} {w w' : World} {channel : Option Nat}

/-- The channel leads to no new pipe that has something to read. -/
def Unfilled (w w' : World) (channel : Option Nat) : Prop :=
  ∀ pipe p, w'.pipe? channel = some pipe → w.pipes.size ≤ pipe → w'.pipes[pipe]? = some p →
    p.chunks = []

theorem unfilled_of_leadsBack (h : ∀ c ∈ channel, w'.LeadsBack w.pipes.size c) :
    w.Unfilled w' channel := by
  intro pipe p hpipe hnew
  have hback := (within_of_leadsBack h : w'.Within w.pipes.size 0 0 channel).pipe_within pipe hpipe
  omega

theorem MakesNull.unfilled (h : w.MakesNull w' channel) : w.Unfilled w' channel := by
  intro pipe p hpipe hnew
  have hnone := (h.within : w'.Within 0 0 0 channel).pipe_within pipe hpipe
  omega

theorem MakesPipe.unfilled {id : Nat} (h : w.MakesPipe w' channel id {}) :
    w.Unfilled w' channel := by
  intro pipe p hpipe _ hp
  cases h.pipe?_eq.symm.trans hpipe
  obtain ⟨c, -, -, -, -, hempty⟩ := h
  cases hempty.symm.trans hp
  rfl

theorem unfilled_of_caller {fd : Nat} (sits : caller.Sits w.pipes.size w')
    (h : channel = caller.channel? fd) : w.Unfilled w' channel :=
  unfilled_of_leadsBack (h ▸ sits fd)

theorem LeadsOut.unfilled {fd : Nat} {captured quiet : Bool} (sits : caller.Sits w.pipes.size w')
    (h : w.LeadsOut w' caller fd captured quiet channel) : w.Unfilled w' channel := by
  unfold LeadsOut at h
  split_ifs at h
  · obtain ⟨id, hpipe⟩ := h
    exact hpipe.unfilled
  · exact h.unfilled
  · exact unfilled_of_caller sits h

end World

namespace Execution

variable {caller : Process} {options : RunOptions} {p : Pipeline} {s : Starting}
  {launches : List Launch} {launch : Launch} {stations : List Station} {st : Station}
  {w w' : World} {i : Nat}

/-- What is new among the ends of a run is its own. -/
structure EndsApart (caller : Process) (options : RunOptions) (w w' : World)
    (launches : List Launch) (stations : List Station) : Prop where
  apart : PipesApart w.pipes.size stations w'
  /-- Only the first stage has something new to read at once, if it has no file. -/
  supplied : ∀ {i launch st fd}, At launches stations i launch st →
    ¬ w.Unfilled w' (st.channel? fd) →
      i = 0 ∧ fd = 0 ∧ launch.hasFile 0 = false ∧ ∃ data, options.stdin = .bytes data
  /-- No stage behind the first reads what the caller reads. -/
  fresh : ∀ {i launch st}, At launches stations (i + 1) launch st → launch.hasFile 0 = false →
    st.channel? 0 ≠ caller.channel? 0

namespace StagesWired

variable {branches : List Branch} (h : StagesWired caller options w w' launches stations branches)
include h

theorem exists_before (hat : At launches stations (i + 1) launch st) :
    ∃ launch' st', At launches stations i launch' st' ∧ i + 1 < launches.length := by
  obtain ⟨hlt, -⟩ := List.getElem?_eq_some_iff.1 hat.launch
  have hlt' := hlt
  rw [← h.length_eq] at hlt'
  exact ⟨_, _, ⟨List.getElem?_eq_getElem (Nat.lt_of_succ_lt hlt),
    List.getElem?_eq_getElem (Nat.lt_of_succ_lt hlt')⟩, hlt⟩

/-- What a stage behind another reads is nothing, or a pipe that is still empty. -/
theorem input_behind (hat : At launches stations (i + 1) launch st)
    (hfile : launch.hasFile 0 = false) :
    w.MakesNull w' (st.channel? 0) ∨ ∃ pipe, w.MakesPipe w' (st.channel? 0) pipe {} := by
  obtain ⟨launch', st', hbefore, hlt⟩ := h.exists_before hat
  cases hout : launch'.hasFile 1 with
  | true => exact .inl (h.starved hbefore hat hfile hout)
  | false =>
      rw [h.fed hbefore hat hfile hout]
      exact .inr (h.piped hbefore hlt hout)

variable (sits : caller.Sits w.pipes.size w) (hextends : w.Extends w')
include sits

theorem unfilled_of_file {fd : Nat} (hat : At launches stations i launch st) (hfd : fd ≤ 2)
    (hfile : launch.hasFile fd = true) : w.Unfilled w' (st.channel? fd) := by
  obtain ⟨hopened, hfiles⟩ := h.file hat
  obtain ⟨channel, hlookup, hchannel⟩ := hfiles fd hfd hfile
  rw [hchannel]
  refine World.unfilled_of_leadsBack fun c hc ↦ ?_
  cases hc
  exact hopened.leadsBack sits hlookup

include hextends

/-- Where a stage writes there is nothing to read yet. -/
theorem unfilled_of_output {fd : Nat} (hat : At launches stations i launch st)
    (hfd : fd = 1 ∨ fd = 2) : w.Unfilled w' (st.channel? fd) := by
  obtain ⟨hlt, -⟩ := List.getElem?_eq_some_iff.1 hat.launch
  cases hfile : launch.hasFile fd with
  | true => exact h.unfilled_of_file sits hat (by omega) hfile
  | false =>
      rcases hfd with rfl | rfl
      · rcases Nat.lt_or_eq_of_le (Nat.succ_le_of_lt hlt) with hbehind | hlast
        · obtain ⟨pipe, hpipe⟩ := h.piped hat hbehind hfile
          exact hpipe.unfilled
        · exact (h.last hat hlast hfile).unfilled (sits.mono hextends)
      · exact (h.errors hat hfile).unfilled (sits.mono hextends)

theorem supplied {fd : Nat} (hat : At launches stations i launch st)
    (hfilled : ¬ w.Unfilled w' (st.channel? fd)) :
    i = 0 ∧ fd = 0 ∧ launch.hasFile 0 = false ∧ ∃ data, options.stdin = .bytes data := by
  match fd with
  | 1 => exact absurd (h.unfilled_of_output sits hextends hat (.inl rfl)) hfilled
  | 2 => exact absurd (h.unfilled_of_output sits hextends hat (.inr rfl)) hfilled
  | fd + 3 =>
      refine absurd (World.unfilled_of_leadsBack ?_) hfilled
      rw [Station.channel?_eq]
      nofun
  | 0 =>
      cases hfile : launch.hasFile 0 with
      | true => exact absurd (h.unfilled_of_file sits hat (Nat.zero_le 2) hfile) hfilled
      | false =>
          cases i with
          | succ i =>
              rcases h.input_behind hat hfile with hnull | ⟨pipe, hpipe⟩
              · exact absurd hnull.unfilled hfilled
              · exact absurd hpipe.unfilled hfilled
          | zero =>
              -- Of what the first stage can be given, only supplied bytes are there at once.
              have hfirst := h.first hat hfile
              cases hsource : options.stdin with
              | bytes data => exact ⟨rfl, rfl, rfl, data, rfl⟩
              | inherit =>
                  rw [hsource] at hfirst
                  exact absurd (World.unfilled_of_caller (sits.mono hextends) hfirst) hfilled
              | null =>
                  rw [hsource] at hfirst
                  exact absurd (World.MakesNull.unfilled hfirst) hfilled

omit hextends

theorem fresh (hat : At launches stations (i + 1) launch st) (hfile : launch.hasFile 0 = false) :
    st.channel? 0 ≠ caller.channel? 0 := by
  obtain ⟨channel, hchannel, hle⟩ : ∃ channel, st.channel? 0 = some channel ∧
      w.channels.size ≤ channel := by
    rcases h.input_behind hat hfile with ⟨channel, hchannel, hle, -⟩ | ⟨-, channel, hchannel, hle, -⟩
    · exact ⟨channel, hchannel, hle⟩
    · exact ⟨channel, hchannel, hle⟩
  intro heq
  have hlt := (sits 0 channel (heq.symm.trans hchannel)).lt
  omega

end StagesWired

theorem endsApart (h : Chain caller options (p.tasks options)
      { run := .start (p.launches options).length } w stations s w')
    (sits : caller.Sits w.pipes.size w) :
    EndsApart caller options w w' (p.launches options) stations where
  apart := h.pipesApart sits (World.within_none ..)
  supplied hat hfilled := (stagesWired h).supplied sits h.grows hat hfilled
  fresh hat hfile := (stagesWired h).fresh sits hat hfile

end Execution

end ShellTemplate
