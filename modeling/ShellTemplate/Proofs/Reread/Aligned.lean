import Mathlib.Data.List.Forall2
import ShellTemplate.Proofs.Lexeme.History
import ShellTemplate.Proofs.Lexeme.Parallel
import ShellTemplate.Proofs.Line
import ShellTemplate.Proofs.StagesAlike

/-!
# A template and its command line, side by side

While a template is scanned its command line is written. A second scanner that
reads the line is aligned with the first one when it is inside the same
constructs and has read the same words.
-/

namespace ShellTemplate

/-- What is marked the second time is marked the first time, and in a strict setting the other
way round too. -/
structure SameMark (strict : Prop) (mark mark' : Bool) : Prop where
  le : mark' = true → mark = true
  eq : strict → mark' = mark

namespace SameMark

variable {strict : Prop} {e e' f f' : Bool}

theorem refl (e : Bool) : SameMark strict e e := ⟨id, fun _ ↦ rfl⟩

theorem or (h : SameMark strict e e') (h' : SameMark strict f f') :
    SameMark strict (e || f) (e' || f') where
  le := by
    rw [Bool.or_eq_true, Bool.or_eq_true]
    exact Or.imp h.le h'.le
  eq := fun hs ↦ by rw [h.eq hs, h'.eq hs]

end SameMark

/-- A word as it is read again from the line: the same text, and expanding only where it
expanded before. -/
structure Word.Reread (strict : Prop) (w w' : Word) : Prop where
  raw : w'.raw = w.raw
  expands : SameMark strict w.expands w'.expands

namespace Assembly

/-- The word that is going on is not a number. -/
def Started (a : Assembly) : Prop := ∀ w, a.word = some w → NotDigits w.raw

theorem partOfWord_current {a : Assembly} (hstarted : a.Started) {p : Piece}
    (empty : p.raw = [] → p = {}) : partOfWord (a.current p) =
      if (a.wordWith p).raw = [] then [] else [.word (a.wordWith p)] := by
  unfold current
  by_cases hp : p.raw = []
  · rw [if_pos hp, empty hp, wordWith_empty]
    cases hw : a.word with
    | none => rfl
    | some w => simp [(hstarted w hw).ne_nil, partOfWord]
  · have hraw : (a.wordWith p).raw ≠ [] := by simp [wordWith, Word.push, hp]
    rw [if_neg hp, if_neg hraw]
    rfl

end Assembly

/-- The tokens merged into words. -/
def assembly (tokens : List Token) : Assembly := Assembly.addAll {} tokens

@[simp] theorem assembly_append (tokens more : List Token) :
    assembly (tokens ++ more) = (assembly tokens).addAll more := Assembly.addAll_append _ _ _

namespace Scanner

/-- The line that is written with these tokens and the piece that is being read. -/
def line (b : Nat) (tokens : List Token) (s : Scanner) : List Char :=
  written b tokens ++ s.piece.raw

theorem written_flush (b : Nat) (tokens : List Token) (s : Scanner) :
    written b (tokens ++ s.flush.2.map Lexeme.token) = s.line b tokens := by
  unfold flush line
  split_ifs with h
  · simp [h]
  · exact written_piece _ _ _

theorem line_push (b : Nat) (tokens : List Token) {s s' : Scanner} {c : Char} {e : Bool}
    {frames : List Frame} (h : Pushed s s' c e frames) :
    s'.line b tokens = s.line b tokens ++ [c] := by
  rw [line, h.raw, ← List.append_assoc, line]

theorem line_of_flushed (b : Nat) (tokens : List Token) {s : Scanner} (h : s.piece.raw = []) :
    s.line b tokens = written b tokens := by
  rw [line, h, List.append_nil]

theorem line_emitOperator (b : Nat) (tokens : List Token) {s : Scanner}
    (empty : s.piece.raw = [] → s.piece = {}) (op : Operator) :
    (s.emitOperator op).1.line b (tokens ++ (s.emitOperator op).2.map Lexeme.token) =
      s.line b tokens ++ operatorGap b (s.line b tokens) op ++ op.text := by
  have hpiece : (s.emitOperator op).1.piece.raw = [] := by rw [emitOperator_eq empty]
  rw [line_of_flushed b _ hpiece]
  unfold emitOperator
  rw [Step.andThen_snd, List.map_append, ← List.append_assoc]
  exact (written_operator b _ op).trans (by rw [written_flush])

theorem emitBlank_of_written {s : Scanner} (h : s.piece.raw ≠ [] ∨ s.previous ≠ .blank) :
    s.emitBlank.2 = s.flush.2 ++ [⟨.blank, .bare, {}⟩] := by
  have hprevious : s.flush.1.previous ≠ .blank := by
    unfold flush
    split_ifs with hraw
    · exact h.resolve_left fun hne ↦ hne hraw
    · simp
  unfold emitBlank
  rw [Step.andThen_snd, if_neg hprevious]

theorem emitBlank_of_blank {s : Scanner} (hraw : s.piece.raw = [])
    (hprevious : s.previous = .blank) : s.emitBlank = (s, []) := by
  simp [emitBlank, flush, Step.andThen, hraw, hprevious]

theorem line_emitBlank (b : Nat) (tokens : List Token) {s : Scanner}
    (empty : s.piece.raw = [] → s.piece = {}) (h : s.piece.raw ≠ [] ∨ s.previous ≠ .blank) :
    s.emitBlank.1.line b (tokens ++ s.emitBlank.2.map Lexeme.token) =
      s.line b tokens ++ blankAfter b (s.line b tokens) := by
  have hpiece : s.emitBlank.1.piece.raw = [] := by rw [emitBlank_eq empty]
  rw [line_of_flushed b _ hpiece, emitBlank_of_written h, List.map_append, ← List.append_assoc]
  exact (written_blank b _).trans (by rw [written_flush])

theorem assembly_emitBlank {tokens : List Token} {s : Scanner}
    (hgoing : s.previous = .word ↔ (assembly tokens).word.isSome = true) :
    assembly (tokens ++ s.emitBlank.2.map Lexeme.token) = (assembly tokens).endWord s.piece := by
  rw [assembly_append]
  rcases addAll_emitBlank (s := s) (assembly tokens) with hend | ⟨hnone, hraw, hblank⟩
  · exact hend
  · have hword : (assembly tokens).word = none := by
      simpa [hblank, Option.isSome_iff_ne_none] using hgoing
    rw [hnone, Assembly.endWord, Assembly.current, if_pos hraw, hword, List.map_nil,
      Assembly.addAll_nil, partOfWord, Option.map_none, Option.toList_none, List.append_nil,
      ← hword]

/-- The word that is going on goes on by `text`. -/
structure Continues (b : Nat) (s : Scanner) (tokens : List Token) (s' : Scanner)
    (tokens' : List Token) (text : List Char) (e : Bool) : Prop where
  parts : (assembly tokens').parts = (assembly tokens).parts
  raw : ((assembly tokens').wordWith s'.piece).raw =
    ((assembly tokens).wordWith s.piece).raw ++ text
  expands : ((assembly tokens').wordWith s'.piece).expands =
    (((assembly tokens).wordWith s.piece).expands || e)
  line : s'.line b tokens' = s.line b tokens ++ text
  empty : (s.piece.raw = [] → s.piece = {}) → s'.piece.raw = [] → s'.piece = {}
  started : (assembly tokens).Started → (assembly tokens').Started
  going : (s.previous = .word ↔ (assembly tokens).word.isSome = true) →
    (s'.previous = .word ↔ (assembly tokens').word.isSome = true)
  still : (assembly tokens').word = none → tokens' = tokens

theorem Continues.trans {b : Nat} {s s' s'' : Scanner} {tokens tokens' tokens'' : List Token}
    {text text' : List Char} {e e' : Bool} (h : Continues b s tokens s' tokens' text e)
    (h' : Continues b s' tokens' s'' tokens'' text' e') :
    Continues b s tokens s'' tokens'' (text ++ text') (e || e') where
  parts := h'.parts.trans h.parts
  raw := by rw [h'.raw, h.raw, List.append_assoc]
  expands := by rw [h'.expands, h.expands, Bool.or_assoc]
  line := by rw [h'.line, h.line, List.append_assoc]
  empty := fun hempty ↦ h'.empty (h.empty hempty)
  started := fun hstarted ↦ h'.started (h.started hstarted)
  going := fun hgoing ↦ h'.going (h.going hgoing)
  still := fun hword ↦ by
    obtain rfl := h'.still hword
    exact h.still hword

theorem continues_piece {b : Nat} {s : Scanner} {tokens : List Token}
    (empty : s.piece.raw = [] → s.piece = {}) {p : Piece} (hexpands : p.expands = false)
    (hne : NotDigits (((assembly tokens).wordWith s.piece).raw ++ p.raw)) :
    Continues b s tokens { s with piece := {}, previous := .word }
      (tokens ++ (s.flush.2.map Lexeme.token ++ [.piece p])) p.raw false := by
  have hassembly : assembly (tokens ++ (s.flush.2.map Lexeme.token ++ [.piece p])) =
      ⟨(assembly tokens).parts, some (((assembly tokens).wordWith s.piece).push p)⟩ := by
    rw [assembly_append, Assembly.addAll_append, addAll_flush, Assembly.addAll_cons,
      Assembly.addAll_nil, Assembly.add, Assembly.getD_current empty]
  exact {
    parts := by rw [hassembly]
    raw := by simp [hassembly, Word.push]
    expands := by simp [hassembly, Word.push, hexpands]
    line := by
      rw [line_of_flushed b _ rfl, ← List.append_assoc, written_piece, written_flush]
    empty := fun _ _ ↦ rfl
    started := fun _ w hw ↦ by
      rw [hassembly] at hw
      cases hw
      exact hne
    going := fun _ ↦ by simp [hassembly]
    still := fun hword ↦ by simp [hassembly] at hword }

theorem continues_of_raw (b : Nat) (tokens : List Token) {s s' : Scanner} {raw : List Char}
    {e : Bool} (hprevious : s'.previous = s.previous) (hraw : s'.piece.raw = s.piece.raw ++ raw)
    (hexpands : s'.piece.expands = (s.piece.expands || e))
    (hempty : (s.piece.raw = [] → s.piece = {}) → s'.piece.raw = [] → s'.piece = {}) :
    Continues b s tokens s' tokens raw e where
  parts := rfl
  raw := by simp [Assembly.wordWith, Word.push, hraw]
  expands := by simp [Assembly.wordWith, Word.push, hexpands, Bool.or_assoc]
  line := by simp [line, hraw]
  empty := hempty
  started := id
  going := fun hgoing ↦ by rwa [hprevious]
  still := fun _ ↦ rfl

theorem Pushed.continues {s s' : Scanner} {c : Char} {e : Bool} {frames : List Frame}
    (h : Pushed s s' c e frames) (b : Nat) (tokens : List Token) :
    Continues b s tokens s' tokens [c] e :=
  continues_of_raw b tokens h.previous h.raw h.expands fun _ hnil ↦ by simp [h.raw] at hnil

/-- A scanner with the tokens before it, and a second one with the tokens it has read from the
line, in the same place. -/
structure Aligned (strict : Prop) (b : Nat) (s : Scanner) (tokens : List Token) (t : Scanner)
    (more : List Token) : Prop where
  frames : t.frames = s.frames
  mode : t.mode = .plain
  sound : t.Sound
  previous : t.previous ≠ .word
  fresh : (assembly more).word = none
  parts : List.Forall₂ (Part.Alike (Word.Reread strict)) (assembly tokens).parts
    (assembly more).parts
  word : Word.Reread strict ((assembly tokens).wordWith s.piece) ((assembly more).wordWith t.piece)
  empty : s.piece.raw = [] → s.piece = {}
  started : (assembly tokens).Started
  going : s.previous = .word ↔ (assembly tokens).word.isSome = true
  /-- Inside a construct, and where something expands, the word is not a number. -/
  inside : s.frames ≠ [] ∨ ((assembly tokens).wordWith s.piece).expands = true →
    NotDigits ((assembly tokens).wordWith s.piece).raw
  /-- A word does not end in a blank. -/
  ends : s.frames = [] → ((assembly tokens).wordWith s.piece).raw ≠ [] →
    ∃ c, (s.line b tokens).getLast? = some c ∧ isBlank c = false
  /-- Inside backticks nothing of the line is lost. -/
  spelled : b ≠ 0 → t.line b more = s.line b tokens
  blank : b ≠ 0 → ((assembly tokens).wordWith s.piece).raw = [] → t.previous = s.previous

namespace Aligned

variable {strict : Prop} {b : Nat} {s t : Scanner} {tokens more : List Token}

theorem raw_eq (h : Aligned strict b s tokens t more) :
    t.piece.raw = ((assembly tokens).wordWith s.piece).raw := by
  have hword := h.word.raw
  simpa [Assembly.wordWith, Word.push, h.fresh] using hword

theorem atWordStart_iff (h : Aligned strict b s tokens t more) :
    s.atWordStart = true ↔ ((assembly tokens).wordWith s.piece).raw = [] := by
  have hgoing := h.going
  unfold Scanner.atWordStart Assembly.wordWith
  cases hw : (assembly tokens).word with
  | none => simp_all [Word.push]
  | some w => simp_all [Word.push, (h.started w hw).ne_nil]

theorem atWordStart (h : Aligned strict b s tokens t more) : t.atWordStart = s.atWordStart := by
  have hprevious := h.previous
  rw [Bool.eq_iff_iff, h.atWordStart_iff, ← h.raw_eq]
  simp [Scanner.atWordStart, hprevious]

theorem grow (h : Aligned strict b s tokens t more) {s' t' : Scanner} {tokens' : List Token}
    {text : List Char} {e e' : Bool} (hs : Continues b s tokens s' tokens' text e)
    (ht : Continues b t more t' more text e') (hmark : SameMark strict e e')
    (hframes : t'.frames = s'.frames) (hmode : t'.mode = .plain)
    (hnested : t'.frames.IsChain Frame.OpensIn) (hprevious : t'.previous = t.previous)
    (hraw : ((assembly tokens').wordWith s'.piece).raw ≠ [])
    (hinside : s'.frames ≠ [] ∨ e = true → s.frames = [] → NotDigits text)
    (hends : s'.frames = [] → ∃ c, text.getLast? = some c ∧ isBlank c = false) :
    Aligned strict b s' tokens' t' more := by
  have hword : Word.Reread strict ((assembly tokens').wordWith s'.piece)
      ((assembly more).wordWith t'.piece) := by
    constructor
    · rw [hs.raw, ht.raw, h.word.raw]
    · rw [hs.expands, ht.expands]
      exact h.word.expands.or hmark
  have hpiece : t'.piece.raw ≠ [] := by
    have hne := hraw
    rw [← hword.raw] at hne
    simpa [Assembly.wordWith, Word.push, h.fresh] using hne
  exact {
    frames := hframes
    mode := hmode
    sound := sound_of_pushed hmode hnested hpiece
    previous := by rw [hprevious]; exact h.previous
    fresh := h.fresh
    parts := by rw [hs.parts]; exact h.parts
    word := hword
    empty := hs.empty h.empty
    started := hs.started h.started
    going := hs.going h.going
    inside := fun hinner ↦ by
      rw [hs.raw]
      rw [hs.expands, Bool.or_eq_true] at hinner
      by_cases hold : s.frames ≠ [] ∨ ((assembly tokens).wordWith s.piece).expands = true
      · exact (h.inside hold).append_left _
      · obtain ⟨hbare, hexpands⟩ := not_or.1 hold
        refine (hinside ?_ (not_not.1 hbare)).append_right _
        exact hinner.imp_right fun he ↦ he.resolve_left hexpands
    ends := fun hbare _ ↦ by
      obtain ⟨c, hlast, hblank⟩ := hends hbare
      exact ⟨c, by rw [hs.line, List.getLast?_append, hlast, Option.some_or], hblank⟩
    spelled := fun hb ↦ by rw [hs.line, ht.line, h.spelled hb]
    blank := fun _ hnil ↦ absurd hnil hraw }

theorem push (h : Aligned strict b s tokens t more) {s' t' : Scanner} {c : Char} {e e' : Bool}
    {frames : List Frame} (hs : Pushed s s' c e frames) (ht : Pushed t t' c e' frames)
    (hmark : SameMark strict e e') (hsound : t'.Sound)
    (hinside : frames ≠ [] ∨ e = true → s.frames = [] → isDigit c = false)
    (hblank : frames = [] → isBlank c = false) : Aligned strict b s' tokens t' more := by
  refine h.grow (hs.continues b tokens) (ht.continues b more) hmark (ht.frames.trans hs.frames.symm)
    ht.mode hsound.nested ht.previous ?_ (fun hinner hbare ↦ ?_)
    fun hbare ↦ ⟨c, rfl, hblank (hs.frames.symm.trans hbare)⟩
  · simp [Assembly.wordWith, Word.push, hs.raw]
  · exact ⟨c, by simp, hinside (by rwa [← hs.frames]) hbare⟩

theorem endWord (h : Aligned strict b s tokens t more) :
    List.Forall₂ (Part.Alike (Word.Reread strict)) ((assembly tokens).endWord s.piece).parts
      ((assembly more).endWord t.piece).parts := by
  have hfresh : (assembly more).Started := fun w hw ↦ by simp [h.fresh] at hw
  unfold Assembly.endWord
  rw [Assembly.partOfWord_current h.started h.empty,
    Assembly.partOfWord_current hfresh (h.sound.piece_empty h.mode), h.word.raw]
  refine List.rel_append h.parts ?_
  split_ifs
  · exact .nil
  · exact .cons (.word h.word) .nil

theorem emitOperator (h : Aligned strict b s tokens t more) (hbare : s.frames = [])
    (op : Operator) : Aligned strict b (s.emitOperator op).1
      (tokens ++ (s.emitOperator op).2.map Lexeme.token) (t.emitOperator op).1
      (more ++ (t.emitOperator op).2.map Lexeme.token) := by
  have hempty := h.sound.piece_empty h.mode
  have hbare' : t.frames = [] := h.frames.trans hbare
  have hword : (assembly (tokens ++ (s.emitOperator op).2.map Lexeme.token)).wordWith
      (s.emitOperator op).1.piece = {} := by
    rw [assembly_append, addAll_emitOperator, emitOperator_eq h.empty]
    rfl
  exact {
    frames := by rw [emitOperator_eq h.empty, emitOperator_eq hempty]; exact h.frames
    mode := by rw [emitOperator_eq hempty]; exact h.mode
    sound := (h.sound.emitOperator h.mode hbare' op).1
    previous := by rw [emitOperator_eq hempty]; simp
    fresh := by rw [assembly_append, addAll_emitOperator]
    parts := by
      rw [assembly_append, assembly_append, addAll_emitOperator, addAll_emitOperator]
      exact List.rel_append h.endWord (.cons (.operator op) .nil)
    word := by
      rw [assembly_append, assembly_append, addAll_emitOperator, addAll_emitOperator,
        emitOperator_eq h.empty, emitOperator_eq hempty]
      exact ⟨rfl, .refl _⟩
    empty := fun _ ↦ by rw [emitOperator_eq h.empty]
    started := by
      rw [assembly_append, addAll_emitOperator]
      intro w hw
      cases hw
    going := by
      rw [assembly_append, addAll_emitOperator, emitOperator_eq h.empty]
      simp
    inside := by
      rw [hword, emitOperator_eq h.empty]
      simp [hbare]
    ends := fun _ hne ↦ absurd (congrArg Word.raw hword) hne
    spelled := fun hb ↦ by
      rw [line_emitOperator b tokens h.empty, line_emitOperator b more hempty, h.spelled hb]
    blank := fun _ _ ↦ by rw [emitOperator_eq h.empty, emitOperator_eq hempty] }

theorem going' (h : Aligned strict b s tokens t more) :
    t.previous = .word ↔ (assembly more).word.isSome = true := by
  simp [h.previous, h.fresh]

theorem fresh_emitBlank (h : Aligned strict b s tokens t more) :
    (assembly (more ++ t.emitBlank.2.map Lexeme.token)).word = none := by
  rw [assembly_emitBlank h.going']
  rfl

theorem emitBlank (h : Aligned strict b s tokens t more) (hbare : s.frames = [])
    (hwritten : s.piece.raw ≠ [] ∨ s.previous ≠ .blank) :
    Aligned strict b s.emitBlank.1 (tokens ++ s.emitBlank.2.map Lexeme.token) t.emitBlank.1
      (more ++ t.emitBlank.2.map Lexeme.token) := by
  have hempty := h.sound.piece_empty h.mode
  have hbare' : t.frames = [] := h.frames.trans hbare
  have hword : (assembly (tokens ++ s.emitBlank.2.map Lexeme.token)).wordWith s.emitBlank.1.piece =
      {} := by
    rw [assembly_emitBlank h.going, emitBlank_eq h.empty]
    rfl
  exact {
    frames := by rw [emitBlank_eq h.empty, emitBlank_eq hempty]; exact h.frames
    mode := by rw [emitBlank_eq hempty]; exact h.mode
    sound := h.sound.emitBlank h.mode hbare'
    previous := by rw [emitBlank_eq hempty]; simp
    fresh := h.fresh_emitBlank
    parts := by
      rw [assembly_emitBlank h.going, assembly_emitBlank h.going']
      exact h.endWord
    word := by
      rw [assembly_emitBlank h.going, assembly_emitBlank h.going', emitBlank_eq h.empty,
        emitBlank_eq hempty]
      exact ⟨rfl, .refl _⟩
    empty := fun _ ↦ by rw [emitBlank_eq h.empty]
    started := by
      rw [assembly_emitBlank h.going]
      intro w hw
      cases hw
    going := by
      rw [assembly_emitBlank h.going, emitBlank_eq h.empty]
      simp [Assembly.endWord]
    inside := by
      rw [hword, emitBlank_eq h.empty]
      simp [hbare]
    ends := fun _ hne ↦ absurd (congrArg Word.raw hword) hne
    spelled := fun hb ↦ by
      have hwritten' : t.piece.raw ≠ [] ∨ t.previous ≠ .blank := by
        rw [h.raw_eq]
        by_cases hraw : ((assembly tokens).wordWith s.piece).raw = []
        · right
          rw [h.blank hb hraw]
          refine hwritten.resolve_left fun hne ↦ hne ?_
          simpa [Assembly.wordWith, Word.push] using (List.append_eq_nil_iff.1 hraw).2
        · exact .inl hraw
      rw [line_emitBlank b tokens h.empty hwritten, line_emitBlank b more hempty hwritten',
        h.spelled hb]
    blank := fun _ _ ↦ by rw [emitBlank_eq h.empty, emitBlank_eq hempty] }

theorem endWord_of_empty (h : Aligned strict b s tokens t more)
    (hraw : ((assembly tokens).wordWith s.piece).raw = []) :
    ((assembly tokens).endWord s.piece).parts = (assembly tokens).parts ∧
      ((assembly more).endWord t.piece).parts = (assembly more).parts := by
  have hfresh : (assembly more).Started := fun w hw ↦ by simp [h.fresh] at hw
  unfold Assembly.endWord
  rw [Assembly.partOfWord_current h.started h.empty,
    Assembly.partOfWord_current hfresh (h.sound.piece_empty h.mode), h.word.raw, if_pos hraw,
    if_pos hraw]
  simp

/-- A blank that leaves no trace on the line, where no word is going on. -/
theorem emitBlank_silent (h : Aligned strict b s tokens t more) (hbare : s.frames = []) (hb : b = 0)
    (hraw : ((assembly tokens).wordWith s.piece).raw = []) :
    Aligned strict b s.emitBlank.1 (tokens ++ s.emitBlank.2.map Lexeme.token) t more := by
  have hword : (assembly (tokens ++ s.emitBlank.2.map Lexeme.token)).wordWith s.emitBlank.1.piece =
      {} := by
    rw [assembly_emitBlank h.going, emitBlank_eq h.empty]
    rfl
  have hpiece : t.piece = {} := h.sound.piece_empty h.mode (h.raw_eq.trans hraw)
  exact {
    frames := by rw [emitBlank_eq h.empty]; exact h.frames
    mode := h.mode
    sound := h.sound
    previous := h.previous
    fresh := h.fresh
    parts := by
      rw [assembly_emitBlank h.going, (h.endWord_of_empty hraw).1]
      exact h.parts
    word := by
      rw [hword, Assembly.wordWith, h.fresh, hpiece]
      exact ⟨rfl, .refl _⟩
    empty := fun _ ↦ by rw [emitBlank_eq h.empty]
    started := by
      rw [assembly_emitBlank h.going]
      intro w hw
      cases hw
    going := by
      rw [assembly_emitBlank h.going, emitBlank_eq h.empty]
      simp [Assembly.endWord]
    inside := by
      rw [hword, emitBlank_eq h.empty]
      simp [hbare]
    ends := fun _ hne ↦ absurd (congrArg Word.raw hword) hne
    spelled := fun hne ↦ absurd hb hne
    blank := fun hne ↦ absurd hb hne }

/-- The space before a descriptor number is read, where no word is going on. -/
theorem readGap (h : Aligned strict b s tokens t more) (hbare : s.frames = []) (hb : b = 0)
    (hraw : ((assembly tokens).wordWith s.piece).raw = []) :
    Aligned strict b s tokens t.emitBlank.1 (more ++ t.emitBlank.2.map Lexeme.token) := by
  have hempty := h.sound.piece_empty h.mode
  have hpiece : t.piece = {} := hempty (h.raw_eq.trans hraw)
  have hbare' : t.frames = [] := h.frames.trans hbare
  exact {
    frames := by rw [emitBlank_eq hempty]; exact h.frames
    mode := by rw [emitBlank_eq hempty]; exact h.mode
    sound := h.sound.emitBlank h.mode hbare'
    previous := by rw [emitBlank_eq hempty]; simp
    fresh := h.fresh_emitBlank
    parts := by
      rw [assembly_emitBlank h.going', (h.endWord_of_empty hraw).2]
      exact h.parts
    word := by
      have hword := h.word
      have hnone : (assembly more).wordWith t.piece = {} := by
        rw [Assembly.wordWith, h.fresh, hpiece]
        rfl
      rw [hnone] at hword
      rw [assembly_emitBlank h.going', emitBlank_eq hempty]
      exact hword
    empty := h.empty
    started := h.started
    going := h.going
    inside := h.inside
    ends := h.ends
    spelled := fun hne ↦ absurd hb hne
    blank := fun hne ↦ absurd hb hne }

end Aligned

end Scanner

end ShellTemplate
