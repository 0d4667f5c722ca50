import ShellTemplate.Proofs.Lexeme.Contexts
import ShellTemplate.Proofs.Lexeme.Transcript

/-!
# Reading loses no character

A text without comments and backticks is its tokens written one after another: every character goes
into a piece, into an operator or into a run of blanks, and none is read twice. Comments are left
out of the tokens, and the body of backticks is written anew, so both are excluded.
-/

namespace ShellTemplate

namespace Scanner

variable {scope : Scope} {s t : Scanner} {lexemes : List Lexeme} {text more : List Char} {c : Char}

/-- All that a scanner has read is in the tokens, in its piece or undecided. -/
structure Transcribes (s : Scanner) (lexemes : List Lexeme) (text : List Char) : Prop where
  own : s.previous ≠ .word
  read : ∃ front held, Transcript s.previous lexemes front ∧ s.mode.Undecided held ∧
    text = front ++ s.piece.raw ++ held

theorem transcribes_empty : ({} : Scanner).Transcribes [] [] where
  own := by decide
  read := ⟨[], [], ⟨spelled_nil, .nil, rfl⟩, .plain, rfl⟩

namespace Transcribes

theorem mode_ne_comment (h : s.Transcribes lexemes text) : s.mode ≠ .comment := by
  obtain ⟨front, held, -, hheld, -⟩ := h.read
  intro hcomment
  rw [hcomment] at hheld
  cases hheld with
  | operator _ op _ hmode => cases hmode

/-- No token is completed: what is read goes into the piece or is left undecided. -/
theorem silent (h : s.Transcribes lexemes text) (hprevious : t.previous = s.previous)
    (hread : ∀ held, s.mode.Undecided held → ∃ held', t.mode.Undecided held' ∧
      t.piece.raw ++ held' = s.piece.raw ++ held ++ more) :
    t.Transcribes lexemes (text ++ more) := by
  obtain ⟨front, held, hfront, hheld, rfl⟩ := h.read
  obtain ⟨held', hheld', hraw⟩ := hread held hheld
  refine ⟨hprevious ▸ h.own, front, held', hprevious ▸ hfront, hheld', ?_⟩
  rw [List.append_assoc front t.piece.raw, hraw]
  simp

theorem emitOperator (h : s.Transcribes lexemes text) {op : Operator}
    (hop : ∀ held, s.mode.Undecided held → (Token.operator op).Spells (held ++ more)) :
    ((s.inMode .plain).emitOperator op).1.Transcribes
      (lexemes ++ ((s.inMode .plain).emitOperator op).2) (text ++ more) := by
  obtain ⟨front, held, hfront, hheld, rfl⟩ := h.read
  have hemit := @Transcript.emitOperator lexemes front (held ++ more) (s.inMode .plain) hfront h.own
    op (hop held hheld)
  refine ⟨by simp [Scanner.emitOperator, Step.andThen], _, [], hemit, ?_, ?_⟩
  · rw [(emitOperator_frames op (s.inMode .plain)).2]
    exact .plain
  · rw [raw_emitOperator]
    simp [inMode]

/-- A scanner that has nothing undecided adds characters to its piece. -/
theorem grow (h : s.Transcribes lexemes text) (hmode : s.mode = .plain)
    (hprevious : t.previous = s.previous) (hraw : t.piece.raw = s.piece.raw ++ more)
    (hheld : t.mode.Undecided []) : t.Transcribes lexemes (text ++ more) := by
  refine h.silent hprevious fun held hs ↦ ⟨[], hheld, ?_⟩
  obtain rfl := hs.eq_nil hmode
  simpa using hraw

theorem readAngle (h : s.Transcribes lexemes text) (hmode : s.mode = .plain)
    {mode : Option Nat → Mode} (kind : RedirectKind) (hkind : kind.text = [c])
    (hpending : ∀ fd, (mode fd).pending? = some (.redirect ⟨fd, kind⟩)) :
    (s.readAngle mode).Transcribes lexemes (text ++ [c]) := by
  unfold Scanner.readAngle
  cases hwritten : s.writtenDescriptor? with
  | none =>
      refine h.silent rfl fun held hs ↦ ?_
      obtain rfl := hs.eq_nil hmode
      refine ⟨[c], .operator _ _ _ (hpending none) ?_, by simp⟩
      have htext : Operator.text (.redirect ⟨none, kind⟩) = [c] := hkind
      exact htext ▸ .plain (.redirect ⟨none, kind⟩)
  | some fd =>
      obtain ⟨-, -, hread⟩ := writtenDescriptor?_eq_some_iff.1 hwritten
      obtain ⟨zeros, hzeros⟩ := exists_zeros_of_readDescriptor? hread
      refine h.silent rfl fun held hs ↦ ?_
      obtain rfl := hs.eq_nil hmode
      refine ⟨s.piece.raw ++ [c], .operator _ _ _ (hpending (some fd)) ?_, by simp⟩
      have hpadded := Operator.Spells.padded zeros fd kind
      rwa [Redirect.text, hkind, ← List.append_assoc, ← hzeros] at hpadded

theorem move {place : Nat} {step : Step} (h : s.Transcribes lexemes text) (hmode : s.mode = .plain)
    (hc : c ≠ '#') (hmove : Move scope place c s step) :
    step.1.Transcribes (lexemes ++ step.2) (text ++ [c]) := by
  have hs : s.inMode .plain = s := by
    rw [inMode, ← hmode]
  cases hmove with
  | blank _ hblank =>
      obtain ⟨front, held, hfront, hheld, rfl⟩ := h.read
      obtain rfl := hheld.eq_nil hmode
      have hemit := hfront.emitBlank h.own hblank
      have hprevious := emitBlank_previous s
      refine ⟨by simp [hprevious], _, [], hprevious ▸ hemit, ?_, ?_⟩
      · rw [(emitBlank_frames s).2, hmode]
        exact .plain
      · rw [raw_emitBlank]
        simp
  | operator _ op hop =>
      have hemit : ((s.inMode .plain).emitOperator op).1.Transcribes _ (text ++ [c]) :=
        h.emitOperator fun held hheld ↦ by
          obtain rfl := hheld.eq_nil hmode
          rw [List.nil_append, ← hop]
          exact .operator op _ (.plain op)
      rwa [hs] at hemit
  | comment _ hhash => exact absurd hhash hc
  | begin _ mode hbegin =>
      rw [List.append_nil]
      refine h.silent rfl fun held hheld ↦ ?_
      obtain rfl := hheld.eq_nil hmode
      rcases hbegin with ⟨rfl, rfl⟩ | ⟨rfl, rfl⟩
      · exact ⟨['|'], .operator _ .pipe _ rfl (.plain .pipe), by simp [inMode]⟩
      · exact ⟨['&'], .operator _ .background _ rfl (.plain .background), by simp [inMode]⟩
  | angle _ mode hangle =>
      rw [List.append_nil]
      rcases hangle with ⟨rfl, rfl⟩ | ⟨rfl, rfl⟩
      · exact h.readAngle hmode .out rfl fun _ ↦ rfl
      · exact h.readAngle hmode .input rfl fun _ ↦ rfl
  | backslash =>
      rw [List.append_nil]
      subst_vars
      exact h.grow hmode rfl rfl .escape
  | dollar _ hdollar =>
      rw [List.append_nil]
      subst hdollar
      refine h.silent rfl fun held hheld ↦ ?_
      obtain rfl := hheld.eq_nil hmode
      exact ⟨['$'], .dollar place, by simp [inMode]⟩
  | keep | glob | openQuote | closeQuote | openInner | closeExpansion | nest =>
      rw [List.append_nil]
      refine h.grow hmode rfl rfl ?_
      change s.mode.Undecided []
      rw [hmode]
      exact .plain

theorem completion {step : Step} (h : s.Transcribes lexemes text)
    (hcomplete : s.complete? scope c = some step) :
    step.1.Transcribes (lexemes ++ step.2) (text ++ [c]) := by
  cases complete_completion hcomplete with
  | commentOn hmode | commentEnd hmode => exact absurd hmode h.mode_ne_comment
  | escaped hmode =>
      rw [List.append_nil]
      have hfields := @readEscaped_fields scope s c
      refine h.silent hfields.previous fun held hheld ↦ ⟨[], by rw [hfields.mode]; exact .plain, ?_⟩
      rw [hmode] at hheld
      cases hheld with
      | escape => simp [hfields.raw]
      | operator _ op _ hpending => cases hpending
  | openParameter opened hmode hc | openSubstitution opened hmode hc =>
      rw [List.append_nil]
      refine h.silent rfl fun held hheld ↦ ⟨[], .plain, ?_⟩
      rw [hmode] at hheld
      subst hc
      cases hheld with
      | dollar => simp [push, markExpands, Scanner.enter, inMode]
      | operator _ op _ hpending => cases hpending
  | operator pending op hpending =>
      rw [complete?_of_pending hpending, Option.map_eq_some_iff] at hcomplete
      obtain ⟨completed, hcompleted, hstep⟩ := hcomplete
      rw [← hstep]
      exact h.emitOperator fun held hheld ↦
        Mode.spells_completed? hpending (hheld.spells hpending) hcompleted

theorem settlement {step : Step} (h : s.Transcribes lexemes text)
    (hstep : Settlement scope c s step) : step.1.Transcribes (lexemes ++ step.2) text := by
  rw [← List.append_nil text]
  cases hstep with
  | plain =>
      rw [List.append_nil, List.append_nil]
      exact h
  | dollar opened hmode | lone opened hmode =>
      rw [List.append_nil]
      refine h.silent rfl fun held hheld ↦ ⟨[], .plain, ?_⟩
      rw [hmode] at hheld
      cases hheld with
      | dollar => simp [pushChar, push, markExpands, inMode]
      | operator _ op _ hpending => cases hpending
  | operator pending hpending =>
      refine h.emitOperator fun held hheld ↦ ?_
      rw [List.append_nil]
      exact .operator pending held (hheld.spells hpending)

theorem stepChar (h : s.Transcribes lexemes text) (hc : c ≠ '#') (place : Nat) :
    (s.stepChar scope c place).1.Transcribes (lexemes ++ (s.stepChar scope c place).2)
      (text ++ [c]) := by
  unfold Scanner.stepChar
  cases hcomplete : s.complete? scope c with
  | some step => exact h.completion hcomplete
  | none =>
      have hsettlement := settleBefore_settlement hcomplete
      have hsettled := h.settlement hsettlement
      have hmove := hsettled.move hsettlement.mode hc (@readChar_move scope place c _)
      rw [List.append_assoc] at hmove
      exact hmove

/-- At the end of a text all of it is in the tokens. -/
theorem finish (h : s.Transcribes lexemes text) {final : List Lexeme}
    (hfinish : s.finish scope = .ok final) :
    ∃ previous, Transcript previous (lexemes ++ final) text := by
  unfold Scanner.finish at hfinish
  split at hfinish
  · cases hfinish
  · split_ifs at hfinish with hescape
    cases hfinish
    have hsettlement := @settle_settlement scope s h.mode_ne_comment hescape
    obtain ⟨own, front, held, hfront, hheld, rfl⟩ := h.settlement hsettlement
    obtain rfl := hheld.eq_nil hsettlement.mode
    have hflush := hfront.flush own
    rw [List.append_assoc] at hflush
    rw [List.append_nil]
    exact ⟨_, hflush⟩

end Transcribes

end Scanner

open Scanner

/-- Reading a text, the scanner loses and invents no character. -/
theorem Scans.transcribes {cond : HoleCondition} {scope : Scope} {s : Scanner} {text : List Char}
    {out : Step} (h : Scans cond scope s (charItems text) out) (hhash : '#' ∉ text)
    (htick : '\x60' ∉ text) {lexemes : List Lexeme} {before : List Char}
    (hs : s.Transcribes lexemes before) : out.1.Transcribes (lexemes ++ out.2) (before ++ text) := by
  generalize hitems : charItems text = items at h
  induction h generalizing text lexemes before with
  | nil =>
      obtain rfl := List.map_eq_nil_iff.1 hitems
      rwa [List.append_nil, List.append_nil]
  | hole =>
      obtain ⟨c, rest, -, hitem, -⟩ := List.map_eq_cons_iff.1 hitems
      cases hitem
  | @char _ _ c place _ _ _ _ ih =>
      obtain ⟨d, rest, rfl, hitem, hrest⟩ := List.map_eq_cons_iff.1 hitems
      cases hitem
      rw [List.mem_cons, not_or] at hhash htick
      have hstep := ih hhash.2 htick.2 (hs.stepChar (Ne.symm hhash.1) 0) hrest
      rw [List.append_assoc, List.append_assoc] at hstep
      exact hstep
  | body opened =>
      obtain ⟨d, rest, rfl, hitem, -⟩ := List.map_eq_cons_iff.1 hitems
      cases hitem
      exact absurd (opened.2.1 ▸ List.mem_cons_self) htick

/-- Where reading succeeds, the text is its tokens written one after another; words and blanks are
as long as they can be, no word is empty, and none of the tokens begins behind a backslash. -/
theorem lexemes_spell {text : List Char} {lexemes : List Lexeme} (hhash : '#' ∉ text)
    (htick : '\x60' ∉ text) (h : lexemesOfText text = .ok lexemes) :
    Spelled (lexemes.map Lexeme.token) text ∧
      (lexemes.map Lexeme.token).IsChain Token.Separate ∧
      (∀ p, .piece p ∈ lexemes.map Lexeme.token → p.raw ≠ []) ∧
      ∀ lexeme ∈ lexemes, lexeme.quoting ≠ .escaped := by
  have hscanned := lexemesOfText_eq_ok_iff.1 h
  have hfilled := filled_of_scanAll hscanned
  obtain ⟨out, final, hscan, hfinish, rfl⟩ := scanAll_eq_ok_iff.1 hscanned
  have hscans := scans_of_scan hscan
  obtain ⟨previous, htranscript⟩ :=
    (hscans.transcribes hhash htick transcribes_empty).finish hfinish
  have hunescaped := hscans.unescaped (by decide)
  refine ⟨htranscript.spelled, htranscript.separate, fun p hp ↦ ?_, fun lexeme hlexeme ↦ ?_⟩
  · exact htranscript.spelled.raw_ne_nil hp
  · rcases List.mem_append.1 hlexeme with hout | hfinal
    · exact hunescaped.lexemes lexeme hout (hfilled lexeme hlexeme)
    · exact Unescaped.finish hunescaped.start hfinish lexeme hfinal (hfilled lexeme hlexeme)

private def crowdedText : List Char :=
  "X=\"a$(p 'q')b\"'z'$\x7bu\x7d \t 007>|f \\\n y && (x)".toList

theorem lexemes_spell_crowded :
    '#' ∉ crowdedText ∧ '\x60' ∉ crowdedText ∧ ∃ lexemes, lexemesOfText crowdedText = .ok lexemes ∧
      lexemes.length = 14 ∧ Spelled (lexemes.map Lexeme.token) crowdedText := by
  have hread : (lexemesOfText crowdedText).map List.length = .ok 14 := by decide +kernel
  obtain ⟨lexemes, hlexemes, hlength⟩ := map_eq_ok_iff.1 hread
  have hhash : '#' ∉ crowdedText := by decide +kernel
  have htick : '\x60' ∉ crowdedText := by decide +kernel
  exact ⟨hhash, htick, lexemes, hlexemes, hlength, (lexemes_spell hhash htick hlexemes).1⟩

end ShellTemplate
