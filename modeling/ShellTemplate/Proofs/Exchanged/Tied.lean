import ShellTemplate.Proofs.Exchanged.Guides
import ShellTemplate.Proofs.Reread.Run

/-!
# Two lines that are written together

While a template is scanned its command line is written twice, with different texts in the holes.
Between two symbols both lines have been read alike, by readers inside the constructs of the
template's scanner, and whatever the next symbol writes keeps them so.
-/

namespace ShellTemplate

open Scanner

/-- What a scanner has left undecided at the end of a run was begun by the last character. -/
theorem Scans.beginning {cond : HoleCondition} {scope : Scope} {s : Scanner} {items : List Item}
    {out : Step} (h : Scans cond scope s items out) (hs : s.Sound)
    (hcomment : out.1.mode ≠ .comment) {c : Char} (hc : c ∈ out.1.mode.beginning?) :
    items = [] ∧ out.1 = s ∨ (items.map Item.symbol).getLast? = some (.char c) := by
  have hlast : ∀ {first : Item} {rest : List Item},
      (rest.map Item.symbol).getLast? = some (.char c) →
      ((first :: rest).map Item.symbol).getLast? = some (.char c) := by
    intro first rest hrest
    rw [List.map_cons, List.getLast?_cons, hrest, Option.getD_some]
  induction h with
  | nil => exact .inl ⟨rfl, rfl⟩
  | @hole scope s index place rest after _ tail ih =>
      rcases ih (hs.stepHole index) hcomment hc with ⟨-, hout⟩ | hrest
      · rw [Step.before, hout] at hc hcomment
        rcases @stepHole_mode scope s index with hmode | hmode
        · rw [hmode] at hc
          cases hc
        · exact absurd hmode hcomment
      · exact .inr (hlast hrest)
  | @char scope s d place rest after closed tail ih =>
      rcases ih (hs.stepChar d place) hcomment hc with ⟨rfl, hout⟩ | hrest
      · rw [Step.before, hout] at hc hcomment
        obtain rfl := stepChar_beginning hs hcomment c hc
        exact .inr rfl
      · exact .inr (hlast hrest)
  | @body scope s d place rest body behind inner after final opened cut within ended tail ihin ih =>
      rcases ih (hs.stepBody opened _) hcomment hc with ⟨-, hout⟩ | hbehind
      · rw [Step.before, hout, stepBody_mode hs opened] at hc
        cases hc
      · obtain ⟨front, rfl⟩ := suffix_of_cutBody cut
        refine .inr (hlast ?_)
        rw [List.map_append, List.getLast?_append, hbehind, Option.some_or]

/-- A reader that has left a dollar sign undecided has read it last. -/
theorem ReadAlike.getLast?_of_dollar {scope : Scope} {line line' : List Char} {t t' : Scanner}
    (h : ReadAlike scope line line' t t') {place : Nat} (hmode : t.mode = .dollar place) :
    line.getLast? = some '$' := by
  obtain ⟨lexemes, -, hreads, -⟩ := h.reads
  have hscans := scans_of_scan hreads.scan_eq
  rcases hscans.beginning sound_empty (by simp [hmode]) (by rw [hmode]; rfl) with
    ⟨-, hstart⟩ | hlast
  · rw [show t = {} from hstart] at hmode
    cases hmode
  · simpa [charItems] using hlast

namespace Scanner

variable {free free' loose loose' : Prop} {b : Nat} {scope : Scope} {s s' t u v : Scanner}
  {tokens tokens' more more' : List Token} {c : Char} {text : List Char}

theorem Parallel.pushed {scope' : Scope} {extra : List Frame} {step step' : Step} {e : Bool}
    {frames : List Frame} (h : Parallel scope scope' c s t extra step step')
    (hpush : Pushed s step.1 c e frames) :
    ∃ v e', step' = (v, []) ∧ Pushed t v c e' (frames ++ extra) := by
  have hraw : step.1.piece.raw ≠ [] := by simp [hpush.raw]
  have hmode := hpush.mode
  cases h with
  | blank => exact absurd (raw_emitBlank s) hraw
  | operator _ op => exact absurd (raw_emitOperator s op) hraw
  | comment | backslash | dollar => cases hmode
  | begin _ mode hbegin => rcases hbegin with ⟨-, rfl⟩ | ⟨-, rfl⟩ <;> cases hmode
  | angle _ mode hangle =>
      obtain ⟨-, fd, hfd⟩ := readAngle_frames mode s
      dsimp only at hmode
      rw [hfd] at hmode
      rcases hangle with ⟨-, rfl⟩ | ⟨-, rfl⟩ <;> cases hmode
  | push e e' frames' hs ht =>
      obtain rfl := hs.frames.symm.trans hpush.frames
      exact ⟨_, e', rfl, ht⟩

/-- The line that is written, without a backslash that may still be taken back. -/
def decided (b : Nat) (tokens : List Token) (s : Scanner) : List Char :=
  written b tokens ++ s.core.raw

theorem decided_eq_line (h : s.mode ≠ .escape) : s.decided b tokens = s.line b tokens := by
  rw [decided, core_of_ne h, line]

theorem decided_of_same (h : s'.core.raw = s.core.raw) : s'.decided b tokens = s.decided b tokens :=
  by rw [decided, h, decided]

/-- Both lines have been read alike so far, and where no construct is open they may be closed. -/
structure Tied (free loose : Prop) (b : Nat) (scope : Scope) (s : Scanner)
    (tokens tokens' : List Token) : Prop where
  reads : ∃ t t', ReadAlike scope (s.decided b tokens) (s.decided b tokens') t t' ∧
    Guides free loose s t
  ends : s.frames = [] → Ends b scope (s.decided b tokens) (s.decided b tokens')

namespace Tied

/-- The reader, and what follows from reading on with it. -/
theorem exists_reader (h : Tied free loose b scope s tokens tokens') :
    ∃ t, t.Sound ∧ Guides free loose s t ∧
      (∀ place, t.mode = .dollar place → (s.decided b tokens).getLast? = some '$') ∧
      ∀ {free' loose' : Prop} {s' v : Scanner} {more more' : List Token}
        {text : List Char}, s'.decided b more = s.decided b tokens ++ text →
        s'.decided b more' = s.decided b tokens' ++ text → t.ReadsTo scope text v →
        Guides free' loose' s' v →
        (s'.frames = [] → s.frames = [] ∨ ∃ c, text.getLast? = some c ∧ isBlank c = false) →
        Tied free' loose' b scope s' more more' := by
  obtain ⟨t, t', hread, hguides⟩ := h.reads
  refine ⟨t, hread.sound, hguides, fun _ ↦ hread.getLast?_of_dollar, ?_⟩
  intro free' loose' s' v more more' text hline hline' hv hguides' hframes
  obtain ⟨lexemes, hreads⟩ := hv
  obtain ⟨v', hread'⟩ := hread.append_same hreads
  constructor
  · rw [hline, hline']
    exact ⟨v, v', hread', hguides'⟩
  · intro hbare
    rw [hline, hline']
    rcases hframes hbare with hbare' | ⟨c, hlast, hblank⟩
    · exact (h.ends hbare').append hread text
    · exact hread'.ends (by simp [List.getLast?_append, hlast]) hblank
        (by simp [List.getLast?_append, hlast]) hblank

theorem keep (h : Tied free loose b scope s tokens tokens')
    (hline : s'.decided b more = s.decided b tokens)
    (hline' : s'.decided b more' = s.decided b tokens') (hframes : s'.frames = s.frames)
    (hguides : ∀ t, (∀ place, t.mode = .dollar place → (s.decided b tokens).getLast? = some '$') →
      Guides free loose s t → Guides free' loose' s' t) :
    Tied free' loose' b scope s' more more' := by
  obtain ⟨t, -, hguide, hdollar, hgo⟩ := h.exists_reader
  refine hgo ?_ ?_ .nil (hguides t hdollar hguide) fun hbare ↦ .inl (hframes ▸ hbare)
  · rw [hline, List.append_nil]
  · rw [hline', List.append_nil]

theorem of_same (h : Tied free loose b scope s tokens tokens') (hframes : s'.frames = s.frames)
    (hraw : s'.core.raw = s.core.raw) (hprevious : s'.previous = s.previous)
    (hfree : free' → free) (hloose : loose → loose') :
    Tied free' loose' b scope s' tokens tokens' :=
  h.keep (decided_of_same hraw) (decided_of_same hraw) hframes fun _ _ hguides ↦
    hguides.of_same hframes hraw hprevious hfree hloose

theorem emitOperator (h : Tied free loose b scope s tokens tokens') (hmode : s.mode = .plain)
    (hempty : s.piece.raw = [] → s.piece = {}) (hbare : s.frames = []) {op : Operator}
    (hop : op = .openParen → free ∧ ¬ loose) :
    Tied free' loose' b scope (s.emitOperator op).1
      (tokens ++ (s.emitOperator op).2.map Lexeme.token)
      (tokens' ++ (s.emitOperator op).2.map Lexeme.token) := by
  have hescape : s.mode ≠ .escape := by simp [hmode]
  have hends := h.ends hbare
  obtain ⟨hframes, hplain⟩ := emitOperator_frames op s
  have hescape' : (s.emitOperator op).1.mode ≠ .escape := by simp [hplain, hmode]
  obtain ⟨t, -, hguides, -, hgo⟩ := h.exists_reader
  have hgap := operatorGap_congr hends.gap op
  rw [decided_eq_line hescape, decided_eq_line hescape] at hgap
  have hparen : ∀ place, t.mode = .dollar place → op ≠ .openParen := by
    intro place hplace heq
    obtain ⟨hfree, hstrict⟩ := hop heq
    rcases hguides.dollar place hplace with hdollar | hbehind
    · exact hdollar.1 hfree
    · exact hstrict hbehind.1
  obtain ⟨v, hv, hbare', hnone⟩ := @Bare.reads_operator scope t (hguides.bare hbare) _
    ((operatorGap_eq b (s.line b tokens) op).imp_right And.left) op hparen
  have hword := not_midWord hescape' (raw_emitOperator s op)
    (bare_emitOperator hbare hmode op).previous
  refine hgo ?_ ?_ hv (hbare'.guides hnone (hframes.trans hbare) hword) fun _ ↦ .inl hbare
  · rw [decided_eq_line hescape', decided_eq_line hescape, line_emitOperator b tokens hempty,
      List.append_assoc]
  · rw [decided_eq_line hescape', decided_eq_line hescape, line_emitOperator b tokens' hempty,
      hgap, List.append_assoc]

theorem emitBlank (h : Tied free loose b scope s tokens tokens') (hmode : s.mode = .plain)
    (hempty : s.piece.raw = [] → s.piece = {}) (hbare : s.frames = []) :
    Tied free' loose' b scope s.emitBlank.1 (tokens ++ s.emitBlank.2.map Lexeme.token)
      (tokens' ++ s.emitBlank.2.map Lexeme.token) := by
  have hescape : s.mode ≠ .escape := by simp [hmode]
  have hends := h.ends hbare
  obtain ⟨hframes, hplain⟩ := emitBlank_frames s
  have hescape' : s.emitBlank.1.mode ≠ .escape := by simp [hplain, hmode]
  by_cases hwritten : s.piece.raw ≠ [] ∨ s.previous ≠ .blank
  · obtain ⟨t, -, hguides, hdollar, hgo⟩ := h.exists_reader
    have hgap := hends.gap
    rw [decided_eq_line hescape, decided_eq_line hescape] at hgap
    have hword := not_midWord hescape' (raw_emitBlank s) (bare_emitBlank hbare hmode).previous
    have hline : ∀ tokens : List Token,
        s.emitBlank.1.decided b (tokens ++ s.emitBlank.2.map Lexeme.token) =
          s.decided b tokens ++ blankAfter b (s.line b tokens) := by
      intro tokens
      rw [decided_eq_line hescape', decided_eq_line hescape,
        line_emitBlank b tokens hempty hwritten]
    have hread : ∃ v, t.ReadsTo scope (blankAfter b (s.line b tokens)) v ∧ v.Bare ∧
        ∀ place, v.mode ≠ .dollar place := by
      by_cases hnil : blankAfter b (s.line b tokens) = []
      · -- a dollar sign that is undecided would be the last character of the line
        rw [hnil]
        refine ⟨t, .nil, hguides.bare hbare, fun place hplace ↦ ?_⟩
        have hlast := hdollar place hplace
        rw [decided_eq_line hescape] at hlast
        have hend := (getLast?_of_blankAfter hnil).2 '$' hlast
        rcases hend with hend | hend <;> cases hend
      · have hspace : blankAfter b (s.line b tokens) = [' '] := by
          unfold blankAfter at hnil ⊢
          split_ifs at hnil ⊢
          · exact (gapAfter_eq _).resolve_left hnil
          · rfl
        rw [hspace]
        exact (hguides.bare hbare).reads_char (by decide) fun _ _ ↦ by decide
    obtain ⟨v, hv, hbare', hnone⟩ := hread
    exact hgo (hline tokens) (by rw [hline, hgap]) hv
      (hbare'.guides hnone (hframes.trans hbare) hword) fun _ ↦ .inl hbare
  · obtain ⟨hraw, hprevious⟩ := not_or.1 hwritten
    rw [not_not] at hraw hprevious
    rw [emitBlank_of_blank hraw hprevious, List.map_nil, List.append_nil, List.append_nil]
    have hword := not_midWord hescape hraw (by simp [hprevious])
    refine h.keep rfl rfl rfl fun t _ hguides ↦
      { hguides with word := fun hmid ↦ absurd hmid hword, dollar := fun place hplace ↦ ?_ }
    rcases hguides.dollar place hplace with ⟨-, hlast, -⟩ | ⟨-, hbehind⟩
    · simp [core_of_plain hmode, hraw] at hlast
    · exact absurd hbehind.previous (by simp [hprevious])

theorem push (h : Tied (c = '\x7b' ∨ c = '(') loose b scope s tokens tokens')
    (hnext : loose → c ∉ ['#', '\x7b', '(']) (hmode : s.mode = .plain)
    {e : Bool} {frames : List Frame} {lexemes : List Lexeme}
    (hread : s.readChar scope c 0 = (s', lexemes)) (hpush : Pushed s s' c e frames)
    (hbody : ¬ (c = '\x60' ∧ s.opensBody = true))
    (hbare : s.frames = [] → c ∉ ['|', '&', '>'] ∧ (c = '#' → s.atWordStart = false))
    (hquote : s.frames ≠ frames → c ∈ ['\'', '"', '(', ')', '\x7d']) :
    Tied free' loose' b scope s' tokens tokens' := by
  obtain ⟨t, ht, hguides, -, hgo⟩ := h.exists_reader
  have hline : ∀ tokens : List Token, s'.decided b tokens = s.decided b tokens ++ [c] := by
    intro tokens
    rw [decided_eq_line (by simp [hpush.mode]), decided_eq_line (by simp [hmode]),
      line_push b tokens hpush]
  have hreader : ∃ v, t.ReadsTo scope [c] v ∧ Guides free' loose' s' v := by
    have hfree : c = '\x7b' ∨ c = '(' → (c = '\x7b' ∨ c = '(') ∧ ¬ loose := fun hc ↦
      ⟨hc, fun hloose ↦ hnext hloose (by rcases hc with rfl | rfl <;> simp)⟩
    refine hguides.reads_on ht (fun hnil ↦ (hbare hnil).1) hfree fun u hplain hu ↦ ?_
    have hparallel := @parallel_readChar scope scope c s u [] ⟨by rw [hu.frames, List.append_nil],
      .inl rfl, by simp⟩ hmode hplain fun hnil hc ↦ by
        have hstart := (hbare hnil).2 hc
        have hmid : s.MidWord := by
          unfold atWordStart at hstart
          unfold MidWord
          rw [core_of_plain hmode]
          by_contra hnot
          simp_all
        rw [hstart]
        rcases hu.word hmid with (⟨-, hraw⟩ | ⟨place, hdollar⟩) | ⟨hloose, -⟩
        · simp [atWordStart, hraw]
        · simp [hplain] at hdollar
        · exact absurd (by simp [hc]) (hnext hloose)
    rw [hread] at hparallel
    obtain ⟨v, e', hstep, hpushed⟩ := hparallel.pushed hpush
    rw [List.append_nil] at hpushed
    refine ⟨v, readsTo_of_readChar hplain ?_ hstep, hu.pushed hpush hpushed hquote⟩
    rintro ⟨-, hc, hopen⟩
    rw [settleBefore_of_plain hplain, opensBody_of_frames hu.frames] at hopen
    exact hbody ⟨hc, hopen⟩
  obtain ⟨v, hv, hguides'⟩ := hreader
  refine hgo (hline tokens) (hline tokens') hv hguides' fun hnil ↦ ?_
  by_cases hsame : s.frames = frames
  · exact .inl (hsame.trans (hpush.frames.symm.trans hnil))
  · have hc := hquote hsame
    refine .inr ⟨c, rfl, ?_⟩
    simp only [List.mem_cons, List.not_mem_nil, or_false] at hc
    rcases hc with rfl | rfl | rfl | rfl | rfl <;> rfl

end Tied

end Scanner

end ShellTemplate
