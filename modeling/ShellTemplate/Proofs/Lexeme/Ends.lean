import ShellTemplate.Proofs.Lexeme.Holes
import ShellTemplate.Proofs.Lexeme.Reads

/-!
# The end of a text

What a scanner that has read a text says about it. The previous lexeme that it remembers is the
last one of the text; no word is going on behind the last piece; a comment goes on only behind a
`#`.
-/

namespace ShellTemplate

theorem plain_charItems (text : List Char) : Plain (charItems text) := by
  intro item hitem
  obtain ⟨c, _, rfl⟩ := List.mem_map.1 hitem
  exact ⟨c, rfl⟩

theorem Plain.filled_of_scanRest {scope : Scope} {s : Scanner} {items : List Item}
    {lexemes : List Lexeme} (hplain : Plain items) (h : scanRest scope s items = .ok lexemes) :
    Filled lexemes := by
  obtain ⟨out, hscan, hrest⟩ := bind_eq_ok_iff.1 h
  obtain ⟨final, hfinish, rfl⟩ := map_eq_ok_iff.1 hrest
  exact Filled.append_iff.2 ⟨(scans_of_scan hscan).filled hplain, .finish hfinish⟩

theorem Plain.filled_of_scanAll {scope : Scope} {items : List Item} {lexemes : List Lexeme}
    (hplain : Plain items) (h : scanAll scope items = .ok lexemes) : Filled lexemes :=
  hplain.filled_of_scanRest (scanAll_eq_scanRest scope items ▸ h)

theorem filled_of_scanAll {scope : Scope} {text : List Char} {lexemes : List Lexeme}
    (h : scanAll scope (charItems text) = .ok lexemes) : Filled lexemes :=
  (plain_charItems text).filled_of_scanAll h

def Token.previous : Token → Previous
  | .piece _ | .hole _ => .word
  | .operator _ => .boundary
  | .blank => .blank

/-- What the last of these lexemes was, or what was before them. -/
def Previous.after (previous : Previous) (lexemes : List Lexeme) : Previous :=
  (lexemes.getLast?.map fun lexeme ↦ lexeme.token.previous).getD previous

theorem Previous.after_append (previous : Previous) (lexemes more : List Lexeme) :
    previous.after (lexemes ++ more) = (previous.after lexemes).after more := by
  unfold after
  rw [List.getLast?_append]
  cases more.getLast? <;> rfl

@[simp] theorem Previous.after_concat (previous : Previous) (lexemes : List Lexeme)
    (lexeme : Lexeme) : previous.after (lexemes ++ [lexeme]) = lexeme.token.previous := by
  rw [after_append]
  rfl

theorem Previous.after_eq_blank {previous : Previous} {lexemes : List Lexeme}
    (h : previous.after lexemes = .blank) (hprevious : previous ≠ .blank) :
    ∃ before, lexemes.map Lexeme.token = before ++ [.blank] := by
  induction lexemes using List.reverseRecOn with
  | nil => exact absurd h hprevious
  | append_singleton before last _ =>
      obtain ⟨token, quoting, enclosing⟩ := last
      rw [after_concat] at h
      cases token with
      | blank => exact ⟨before.map Lexeme.token, by simp⟩
      | piece | hole | operator => cases h

namespace Scanner

variable {scope : Scope} {s : Scanner}

theorem emitBlank_previous (s : Scanner) : s.emitBlank.1.previous = .blank := by
  unfold emitBlank
  rw [Step.andThen_fst]
  split_ifs with h
  · exact h
  · rfl

/-- A step remembers what it completed last. Without a hole it completes a word only together with
what ends it. -/
structure Remembers (s : Scanner) (step : Step) : Prop where
  previous : step.1.previous = s.previous.after step.2
  word : Filled step.2 → s.previous ≠ .word → step.1.previous ≠ .word

namespace Remembers

theorem silent {t : Scanner} (h : t.previous = s.previous) : s.Remembers (t, []) :=
  ⟨h, fun _ hword ↦ h ▸ hword⟩

theorem of_previous {t : Scanner} {step : Step} (h : t.Remembers step)
    (ht : t.previous = s.previous) : s.Remembers step :=
  ⟨ht ▸ h.previous, ht ▸ h.word⟩

theorem before {step after : Step} (h : s.Remembers step) (h' : step.1.Remembers after) :
    s.Remembers (step.before after) where
  previous := by
    change after.1.previous = s.previous.after (step.2 ++ after.2)
    rw [Previous.after_append, ← h.previous]
    exact h'.previous
  word hfilled hword := by
    obtain ⟨hstep, hafter⟩ := Filled.append_iff.1 hfilled
    exact h'.word hafter (h.word hstep hword)

theorem emitOperator (op : Operator) : s.Remembers (s.emitOperator op) where
  previous := by
    unfold Scanner.emitOperator
    rw [Step.andThen_snd, Previous.after_append]
    rfl
  word _ _ := by simp [Scanner.emitOperator, Step.andThen]

theorem emitBlank : s.Remembers s.emitBlank := by
  have hblank := emitBlank_previous s
  refine ⟨?_, fun _ _ ↦ by simp [hblank]⟩
  rw [hblank]
  unfold Scanner.emitBlank
  rw [Step.andThen_snd]
  split_ifs with h
  · unfold flush at h ⊢
    split_ifs at h ⊢ with hraw
    · exact h.symm
  · rw [Previous.after_append]
    rfl

theorem emitHole (index : Nat) (quoting : Quoting) (enclosing : Enclosing) :
    s.Remembers (s.emitHole index quoting enclosing) where
  previous := by
    unfold Scanner.emitHole
    rw [Step.andThen_snd, Previous.after_append]
    rfl
  word hfilled := by simp [Scanner.emitHole] at hfilled

theorem move {c : Char} {place : Nat} {step : Step} (h : Move scope place c s step) :
    s.Remembers step := by
  cases h with
  | blank => exact emitBlank
  | operator _ op => exact emitOperator op
  | angle _ mode =>
      refine silent ?_
      unfold readAngle
      split <;> rfl
  | _ => exact silent rfl

/-- Deciding on an operator completes it. -/
theorem plainOperator (op : Operator) : s.Remembers ((s.inMode .plain).emitOperator op) :=
  (emitOperator op).of_previous rfl

theorem completion {c : Char} {step : Step} (h : Completion scope c s step) :
    s.Remembers step := by
  cases h with
  | commentEnd | operator => exact plainOperator _
  | escaped => exact silent (readEscaped_fields s c).previous
  | _ => exact silent rfl

theorem settlement {c : Char} {step : Step} (h : Settlement scope c s step) :
    s.Remembers step := by
  cases h with
  | operator => exact plainOperator _
  | _ => exact silent rfl

theorem settle : s.Remembers (s.settle scope) := by
  unfold Scanner.settle
  cases s.mode with
  | pipe | ampersand | greater fd | less fd => exact plainOperator _
  | plain | comment | escape | dollar => exact silent rfl

theorem stepChar (c : Char) (place : Nat) : s.Remembers (s.stepChar scope c place) := by
  unfold Scanner.stepChar
  cases hc : s.complete? scope c with
  | some step => exact completion (complete_completion hc)
  | none => exact (settlement (settleBefore_settlement hc)).before (move readChar_move)

theorem stepHole (index : Nat) : s.Remembers (s.stepHole scope index) := by
  have hmove : HoleMove scope index s (s.stepHole scope index) := stepHole_holeMove
  generalize s.stepHole scope index = step at hmove
  cases hmove with
  | comment => exact silent rfl
  | plain | escaped | dollar => exact (emitHole index _ _).of_previous rfl
  | operator pending => exact (plainOperator pending).before (emitHole index _ _)

theorem spliceLexemes (lexemes : List Lexeme) : s.Remembers (s.spliceLexemes scope lexemes) := by
  induction lexemes generalizing s with
  | nil => exact silent rfl
  | cons lexeme rest ih =>
      obtain ⟨token, quoting, enclosing⟩ := lexeme
      cases token with
      | hole index => exact (emitHole index quoting enclosing).before ih
      | piece | operator | blank => exact ih.of_previous rfl

/-- A body stays part of the word around it. -/
theorem stepBody {c : Char} (hopen : s.OpensBodyAt scope c) (lexemes : List Lexeme) :
    s.Remembers (s.stepBody scope lexemes) := by
  obtain ⟨hc, rfl, _⟩ := hopen
  have hsplice : ∀ t : Scanner, t.Remembers (t.spliceBody scope lexemes) := by
    intro t
    have hinner := @spliceLexemes scope (t.pushSyntax scope '\x60').markExpands lexemes
    exact (hinner.before (@silent _ (pushSyntax scope '\x60' _) rfl)).of_previous rfl
  exact (settlement (settleBefore_settlement hc)).before (hsplice _)

end Remembers

/-- No word goes on at the end of a text iff its last lexeme is no part of one. -/
theorem after_finish_ne_word_iff {final : List Lexeme} (h : s.finish scope = .ok final) :
    s.previous.after final ≠ .word ↔ (s.settle scope).1.atWordStart = true := by
  have hflush : ∀ t : Scanner, t.previous.after t.flush.2 ≠ .word ↔ t.atWordStart = true := by
    intro t
    unfold flush atWordStart
    split_ifs with hraw
    · simp [hraw, Previous.after]
    · simp [hraw, Previous.after, Token.previous]
  obtain ⟨-, -, rfl⟩ := finish_eq_ok_iff.1 h
  rw [Step.andThen_snd, Previous.after_append, ← Remembers.settle.previous, hflush]

/-- A word goes on before a character as it does at the end of the text. -/
theorem atWordStart_settleBefore (c : Char) :
    (s.settleBefore scope c).1.atWordStart = (s.settle scope).1.atWordStart := by
  unfold settleBefore settle
  cases s.mode with
  | dollar => split_ifs <;> simp [atWordStart, pushChar, push, markExpands]
  | _ => rfl

/-- A comment starts at a `#` where no word is going on, and goes on up to a newline. -/
theorem stepChar_comment_iff (hs : s.Sound) {c : Char} {place : Nat} :
    (s.stepChar scope c place).1.mode = .comment ↔
      (s.mode = .comment ∧ c ≠ '\n') ∨ (c = '#' ∧ s.frames = [] ∧ s.mode ≠ .escape ∧
        (s.settle scope).1.atWordStart = true) := by
  constructor
  · intro h
    unfold stepChar at h
    cases hc : s.complete? scope c with
    | some step =>
        rw [hc] at h
        cases complete_completion hc with
        | commentOn hmode hne => exact .inl ⟨hmode, hne⟩
        | commentEnd | operator => rw [(emitOperator_frames _ (s.inMode .plain)).2] at h; cases h
        | escaped => rw [(readEscaped_fields s c).mode] at h; cases h
        | openParameter | openSubstitution => cases h
    | none =>
        rw [hc] at h
        have hsettlement := settleBefore_settlement hc
        have hplain := (hs.settlement hsettlement).2
        have hmove := @readChar_move scope place c (s.settleBefore scope c).1
        rw [Step.andThen_fst] at h
        generalize (s.settleBefore scope c).1.readChar scope c place = step at h hmove
        cases hmove with
        | comment bare hhash start =>
            rw [hsettlement.frames] at bare
            rw [atWordStart_settleBefore] at start
            exact .inr ⟨hhash, bare, (plain_of_complete_eq_none hc).2, start⟩
        | blank => rw [(emitBlank_frames _).2, hplain] at h; cases h
        | operator _ op => rw [(emitOperator_frames op _).2, hplain] at h; cases h
        | begin _ mode hmode => rcases hmode with ⟨-, rfl⟩ | ⟨-, rfl⟩ <;> cases h
        | angle _ mode hmode =>
            obtain ⟨-, fd, hfd⟩ := readAngle_frames mode (s.settleBefore scope c).1
            rw [hfd] at h
            rcases hmode with ⟨-, rfl⟩ | ⟨-, rfl⟩ <;> cases h
        | backslash | dollar => cases h
        | keep | glob | openQuote | closeQuote | openInner | closeExpansion | nest =>
            exact absurd (h.symm.trans hplain) (by simp)
  · by_cases hcomment : s.mode = .comment
    · intro h
      have hne : c ≠ '\n' := by
        rcases h with ⟨-, hne⟩ | ⟨rfl, -⟩
        · exact hne
        · decide
      simp [stepChar, complete?, hcomment, hne]
    · rintro (⟨hmode, -⟩ | ⟨rfl, bare, hescape, start⟩)
      · exact absurd hmode hcomment
      · have hnone : s.complete? scope '#' = none := by
          unfold complete?
          split <;> simp_all
        rw [← (settleBefore_settlement hnone).frames] at bare
        rw [← atWordStart_settleBefore '#'] at start
        simp [stepChar, hnone, readChar, bare, readBare, start, inMode]

end Scanner

open Scanner

/-- Throughout a text the scanner remembers the last lexeme. -/
theorem Scans.remembers {cond : HoleCondition} {scope : Scope} {s : Scanner} {items : List Item}
    {out : Step} (h : Scans cond scope s items out) : s.Remembers out := by
  induction h with
  | nil => exact .silent rfl
  | hole _ _ ih => exact (Remembers.stepHole _).before ih
  | char _ _ ih => exact (Remembers.stepChar _ _).before ih
  | body opened _ _ _ _ _ ih => exact (Remembers.stepBody opened _).before ih

/-- A text without `#` does not end in a comment. -/
theorem Scans.mode_ne_comment {cond : HoleCondition} {scope : Scope} {s : Scanner}
    {items : List Item} {out : Step} (h : Scans cond scope s items out) (hs : s.Sound)
    (hplain : Plain items) (hhash : ∀ item ∈ items, item.symbol ≠ .char '#')
    (hmode : s.mode ≠ .comment) : out.1.mode ≠ .comment := by
  induction h with
  | nil => exact hmode
  | hole => simpa using hplain _ List.mem_cons_self
  | @char _ _ c place _ _ _ _ ih =>
      refine ih (hs.stepChar c place) (fun item hi ↦ hplain item (by simp [hi]))
        (fun item hi ↦ hhash item (by simp [hi])) fun hcomment ↦ ?_
      rcases (stepChar_comment_iff hs).1 hcomment with ⟨hbefore, -⟩ | ⟨rfl, -⟩
      · exact hmode hbefore
      · exact hhash _ List.mem_cons_self rfl
  | body opened cut _ _ _ _ ih =>
      refine ih (hs.stepBody opened _) (fun item hi ↦ hplain item ?_)
        (fun item hi ↦ hhash item ?_) (by simp [stepBody_mode hs opened])
      all_goals exact List.mem_cons_of_mem _ (mem_of_cutBody cut (.inr hi))

theorem mode_ne_comment_of_scan {text : List Char} {out : Step} (hhash : '#' ∉ text)
    (h : scan {} {} (charItems text) = .ok out) : out.1.mode ≠ .comment := by
  refine (scans_of_scan h).mode_ne_comment sound_empty (plain_charItems text)
    (fun item hitem hsymbol ↦ ?_) (by simp)
  obtain ⟨c, hc, rfl⟩ := List.mem_map.1 hitem
  cases hsymbol
  exact hhash hc

end ShellTemplate
