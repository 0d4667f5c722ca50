import Mathlib.Data.List.TakeWhile
import ShellTemplate.Proofs.Lexeme.History
import ShellTemplate.Proofs.Lexeme.Holes
import ShellTemplate.Proofs.Outline
import ShellTemplate.Proofs.StagesAlike

/-!
# Assignments

Whether a word is an assignment is settled by its first character that cannot
belong to a name. Wherever a text stands in a word, such a character comes
before it or is its own first one, so texts never decide the answer.
-/

namespace ShellTemplate

/-- A character that may stand in a name behind the first one. -/
def isNameChar (c : Char) : Bool := c = '_' || isLetter c || isDigit c

/-- A character that cannot belong to a name has been read. -/
def Settled (raw : List Char) : Prop := ∃ c ∈ raw, isNameChar c = false

/-- Written as `NAME=value`. -/
def assigns (raw : List Char) : Bool :=
  raw.contains '=' && Word.isName (raw.takeWhile (· ≠ '='))

namespace Settled

variable {raw raw' : List Char}

theorem append_right (h : Settled raw) (rest : List Char) : Settled (raw ++ rest) := by
  obtain ⟨c, hc, hname⟩ := h
  exact ⟨c, by simp [hc], hname⟩

theorem append_left (h : Settled raw) (first : List Char) : Settled (first ++ raw) := by
  obtain ⟨c, hc, hname⟩ := h
  exact ⟨c, by simp [hc], hname⟩

theorem of_mem {c : Char} (hc : c ∈ raw) (h : isNameChar c = false) : Settled raw := ⟨c, hc, h⟩

theorem isName_eq_false {name : List Char} (h : Settled name) : Word.isName name = false := by
  obtain ⟨c, hc, hname⟩ := h
  cases name with
  | nil => rfl
  | cons first rest =>
      rcases List.mem_cons.1 hc with rfl | hc
      · simp only [isNameChar, Bool.or_eq_false_iff] at hname
        simp [Word.isName, hname.1.1, hname.1.2]
      · have hall : (rest.all fun d ↦ d = '_' || isLetter d || isDigit d) = false :=
          List.all_eq_false.2 ⟨c, hc, by simpa [isNameChar] using hname⟩
        simp [Word.isName, hall]

/-- What follows a settled text does not change the answer. -/
theorem assigns_append (h : Settled raw) (rest : List Char) :
    assigns (raw ++ rest) = assigns raw := by
  unfold assigns
  by_cases heq : '=' ∈ raw
  · have htake : (raw ++ rest).takeWhile (· ≠ '=') = raw.takeWhile (· ≠ '=') := by
      rw [List.takeWhile_append, if_neg]
      intro hlength
      have hself := (List.takeWhile_sublist (p := fun c ↦ decide (c ≠ '=')) (l := raw)).eq_of_length
        hlength
      rw [← hself] at heq
      simpa using List.mem_takeWhile_imp heq
    rw [htake]
    simp [heq]
  · have htake : (raw ++ rest).takeWhile (· ≠ '=') = raw ++ rest.takeWhile (· ≠ '=') :=
      List.takeWhile_append_of_pos fun c hc ↦ by
        simpa using fun hceq : c = '=' ↦ heq (hceq ▸ hc)
    rw [htake, (h.append_right _).isName_eq_false]
    simp [heq]

end Settled

/-- Two texts of one word so far: the same, or both settled with the same answer. -/
inductive SameAnswer (raw raw' : List Char) : Prop
  | same (h : raw = raw')
  | settled (h : Settled raw) (h' : Settled raw') (answer : assigns raw = assigns raw')

namespace SameAnswer

variable {raw raw' : List Char}

theorem answer (h : SameAnswer raw raw') : assigns raw = assigns raw' := by
  cases h with
  | same h => rw [h]
  | settled _ _ answer => exact answer

theorem push (h : SameAnswer raw raw') (rest : List Char) :
    SameAnswer (raw ++ rest) (raw' ++ rest) := by
  cases h with
  | same h => exact .same (by rw [h])
  | settled h h' answer =>
      exact .settled (h.append_right rest) (h'.append_right rest)
        (by rw [h.assigns_append, h'.assigns_append, answer])

theorem push_settled (h : SameAnswer raw raw') (hs : Settled raw) (hs' : Settled raw')
    (rest rest' : List Char) : SameAnswer (raw ++ rest) (raw' ++ rest') :=
  .settled (hs.append_right rest) (hs'.append_right rest')
    (by rw [hs.assigns_append, hs'.assigns_append, h.answer])

/-- Different texts that begin with the same character settle the answer. -/
theorem push_head (h : SameAnswer raw raw') {c : Char} (hc : isNameChar c = false)
    (rest rest' : List Char) : SameAnswer (raw ++ c :: rest) (raw' ++ c :: rest') := by
  have hsettled : ∀ first, Settled (first ++ [c]) := fun first ↦ .of_mem (by simp) hc
  have hpush := (h.push [c]).push_settled (hsettled _) (hsettled _) rest rest'
  simpa using hpush

end SameAnswer

/-- Two histories with the same operators and words of the same answers. -/
structure Kin (a a' : Assembly) : Prop where
  parts : List.Forall₂ (Part.Alike fun w w' ↦ w.isAssignment = w'.isAssignment) a.parts a'.parts
  started : a.word.isSome = a'.word.isSome
  word : SameAnswer (a.word.getD {}).raw (a'.word.getD {}).raw

namespace Kin

variable {a a' : Assembly}

theorem partOfWord (h : Kin a a') :
    List.Forall₂ (Part.Alike fun w w' ↦ w.isAssignment = w'.isAssignment)
      (partOfWord a.word) (partOfWord a'.word) := by
  have hstarted := h.started
  have hanswer := h.word.answer
  cases hw : a.word with
  | none =>
      cases hw' : a'.word with
      | none => exact .nil
      | some w' => simp [hw, hw'] at hstarted
  | some w =>
      cases hw' : a'.word with
      | none => simp [hw, hw'] at hstarted
      | some w' =>
          rw [hw, hw'] at hanswer
          exact .cons (.word hanswer) .nil

theorem add (h : Kin a a') (token : Token) : Kin (a.add token) (a'.add token) := by
  cases token with
  | piece p => exact ⟨h.parts, rfl, h.word.push p.raw⟩
  | blank => exact ⟨List.rel_append h.parts h.partOfWord, rfl, .same rfl⟩
  | operator op =>
      exact ⟨List.rel_append (List.rel_append h.parts h.partOfWord) (.cons (.operator op) .nil),
        rfl, .same rfl⟩
  | hole index => exact h

theorem addAll (h : Kin a a') (tokens : List Token) :
    Kin (a.addAll tokens) (a'.addAll tokens) := by
  induction tokens generalizing a a' with
  | nil => exact h
  | cons token rest ih => exact ih (h.add token)

theorem finish (h : Kin a a') :
    List.Forall₂ (Part.Alike fun w w' ↦ w.isAssignment = w'.isAssignment) a.finish a'.finish :=
  List.rel_append h.parts h.partOfWord

end Kin

/-- The word that is going on in a history is settled. -/
def Assembly.Settled (a : Assembly) : Prop := ShellTemplate.Settled (a.word.getD {}).raw

/-- How a text is written where no quotes are open around it. -/
theorem write_eq_cons {quoting : Quoting} (h : quoting.isQuoted = false) (levels : Nat)
    (text : List Char) : ∃ rest, escapeLevels levels (quoting.write text) = '\'' :: rest := by
  have hwrite : ∃ rest, quoting.write text = '\'' :: rest := by
    cases quoting with
    | single | double => cases h
    | bare | substitution | escaped | parameter => exact ⟨_, rfl⟩
  obtain ⟨rest, hrest⟩ := hwrite
  rw [hrest]
  clear hrest
  induction levels generalizing rest with
  | zero => exact ⟨rest, rfl⟩
  | succ n ih =>
      have hescape : escapeBackticks ('\'' :: rest) = '\'' :: escapeBackticks rest := by
        simp [escapeBackticks, escapeBefore, isSpecialInBackticks]
      rw [escapeLevels, hescape]
      exact ih _

section Holes

variable {options : FillOptions} {quoting : Quoting} {enclosing : Enclosing} {a a' : Assembly}

/-- The last word of a list is settled by the quote that it begins with. -/
theorem settled_addAll_list {pieces : List Piece} (hne : pieces ≠ [])
    (hpieces : ∀ p ∈ pieces, Settled p.raw) :
    (a.addAll ((pieces.map Token.piece).intersperse .blank)).Settled := by
  induction pieces generalizing a with
  | nil => exact absurd rfl hne
  | cons p rest ih =>
      cases rest with
      | nil => exact (hpieces p (by simp)).append_left _
      | cons q rest =>
          rw [List.map_cons, List.map_cons, List.intersperse_cons_cons, Assembly.addAll_cons,
            Assembly.addAll_cons]
          exact ih (by simp) fun p' hp' ↦ hpieces p' (List.mem_cons_of_mem p hp')

/-- A settled word stays settled, whatever stands in a hole behind it; a list begins words of
its own there, each with a quote. -/
theorem settled_addHole (h : a.Settled) (hquoting : quoting ≠ .bare) {value : Value}
    {tokens : List Token} (hfill : fillHole options quoting enclosing value = .ok tokens) :
    (a.addAll tokens).Settled := by
  cases htext : value.literalText? with
  | some text =>
      rw [fillHole_of_text htext] at hfill
      split at hfill
      · cases hfill
      · cases hfill
        exact h.append_right _
  | none =>
      cases value with
      | str | scalar | joined => simp [Value.literalText?] at htext
      | raw text => exact absurd (fillHole_raw hfill).1 hquoting
      | list items =>
          obtain ⟨pieces, hpieces, rfl⟩ := map_eq_ok_iff.1 (mapError_eq_ok_iff.1 hfill)
          unfold Value.pieces at hpieces
          split at hpieces
          · cases hpieces
          · dsimp only at hpieces
            split_ifs at hpieces with hquoted
            cases hpieces
            by_cases hne : (Value.list items).texts options = []
            · simpa [hne] using h
            · refine settled_addAll_list (by simpa using hne) fun p hp ↦ ?_
              obtain ⟨text, _, rfl⟩ := List.mem_map.1 hp
              obtain ⟨rest, hrest⟩ := write_eq_cons (by simpa using hquoted) enclosing.backticks text
              exact .of_mem (c := '\'') (by simp [literalPiece, hrest]) (by decide)

/-- Values that only differ in their texts give histories of the same answers. Where a quote is
open, the word is settled before. -/
theorem Kin.addHole (h : Kin a a')
    (hquoted : quoting.isQuoted = true → a.Settled ∧ a'.Settled)
    {value value' : Value} (hvalue : value.Exchange value') {tokens tokens' : List Token}
    (hfill : fillHole options quoting enclosing value = .ok tokens)
    (hfill' : fillHole options quoting enclosing value' = .ok tokens') :
    Kin (a.addAll tokens) (a'.addAll tokens') := by
  cases hvalue with
  | same =>
      obtain rfl : tokens = tokens' := by simpa [hfill] using hfill'
      exact h.addAll tokens
  | text htext htext' =>
      obtain ⟨text, htext⟩ := Option.isSome_iff_exists.1 htext
      obtain ⟨text', htext'⟩ := Option.isSome_iff_exists.1 htext'
      rw [fillHole_of_text htext] at hfill
      rw [fillHole_of_text htext'] at hfill'
      cases hcontext : Value.unsafeContext? quoting enclosing with
      | some context => simp [hcontext] at hfill
      | none =>
          obtain rfl : _ = tokens := by simpa [hcontext] using hfill
          obtain rfl : _ = tokens' := by simpa [hcontext] using hfill'
          refine ⟨h.parts, rfl, ?_⟩
          by_cases hq : quoting.isQuoted = true
          · obtain ⟨hs, hs'⟩ := hquoted hq
            exact h.word.push_settled hs hs' _ _
          · obtain ⟨rest, hrest⟩ := write_eq_cons (by simpa using hq) enclosing.backticks text
            obtain ⟨rest', hrest'⟩ := write_eq_cons (by simpa using hq) enclosing.backticks text'
            have hpush := h.word.push_head (c := '\'') (by decide) rest rest'
            rwa [← hrest, ← hrest'] at hpush

end Holes

namespace Scanner

variable {scope : Scope} {s : Scanner} {a : Assembly}

/-- Inside any construct the word that is going on is settled, by what opened the construct. -/
def Shielded (s : Scanner) (a : Assembly) : Prop :=
  s.frames ≠ [] → ShellTemplate.Settled (a.wordWith s.core).raw

theorem shielded_of_bare (h : s.frames = []) : s.Shielded a := fun hne ↦ absurd h hne

/-- The word grows; where a construct opens, it does so with a character that settles. -/
theorem Shielded.grow (h : s.Shielded a) {t : Scanner} (raw : List Char)
    (hraw : t.core.raw = s.core.raw ++ raw)
    (hopen : s.frames = [] → t.frames ≠ [] → ShellTemplate.Settled raw) : t.Shielded a := by
  intro hframes
  have hword : (a.wordWith t.core).raw = (a.wordWith s.core).raw ++ raw := by
    simp [Assembly.wordWith, Word.push, hraw]
  rw [hword]
  by_cases hbare : s.frames = []
  · exact (hopen hbare hframes).append_left _
  · exact (h hbare).append_right _

theorem QuoteFrame.not_isNameChar {c : Char} {frame : Frame} (h : QuoteFrame c frame) :
    isNameChar c = false := by
  rcases h with ⟨rfl, _⟩ | ⟨rfl, _⟩ <;> decide

theorem Shielded.move (h : s.Shielded a) (hmode : s.mode = .plain) {c : Char} {place : Nat}
    {step : Step} (hmove : Move scope place c s step) :
    step.1.Shielded (a.addAll (step.2.map Lexeme.token)) := by
  have hcore := core_of_plain hmode
  have hkept : ∀ mode : Mode, mode ≠ .escape → (s.inMode mode).Shielded a := fun mode hne ↦
    h.grow [] (by rw [core_of_ne (by exact hne), hcore]; simp [inMode])
      fun hbare hframes ↦ absurd hbare hframes
  have hpushed : ∀ t : Scanner, t.mode = .plain → t.piece.raw = s.piece.raw ++ [c] →
      (s.frames = [] → t.frames ≠ [] → isNameChar c = false) → t.Shielded a :=
    fun t ht hraw hopen ↦ h.grow [c] (by rw [core_of_plain ht, hcore, hraw])
      fun hbare hframes ↦ .of_mem (by simp) (hopen hbare hframes)
  cases hmove with
  | blank bare _ => exact shielded_of_bare ((emitBlank_frames s).1.trans bare)
  | operator bare op _ _ => exact shielded_of_bare ((emitOperator_frames op s).1.trans bare)
  | comment bare _ _ => exact shielded_of_bare bare
  | begin bare _ _ => exact shielded_of_bare bare
  | angle bare mode _ => exact shielded_of_bare ((readAngle_frames mode s).1.trans bare)
  | keep _ => exact hpushed _ hmode rfl fun hbare hframes ↦ absurd hbare hframes
  | glob bare _ _ => exact shielded_of_bare bare
  | openQuote _ frame hframe => exact hpushed _ hmode rfl fun _ _ ↦ hframe.not_isNameChar
  | closeQuote frame rest hframes _ =>
      exact hpushed _ hmode rfl fun hbare _ ↦ by simp [hframes] at hbare
  | openInner outer rest hframes _ frame _ =>
      exact hpushed _ hmode rfl fun hbare _ ↦ by simp [hframes] at hbare
  | closeExpansion frame rest hframes _ =>
      exact hpushed _ hmode rfl fun hbare _ ↦ by simp [hframes] at hbare
  | nest opened parens parens' rest hframes _ =>
      exact hpushed _ hmode rfl fun hbare _ ↦ by simp [hframes] at hbare
  | backslash _ _ =>
      exact h.grow [] (by rw [core_readBackslash, hcore]; simp)
        fun hbare hframes ↦ absurd hbare hframes
  | dollar _ _ => exact hkept _ (by simp)

theorem Shielded.completion (h : s.Shielded a) (hs : s.Sound) {c : Char} {step : Step}
    (hstep : Completion scope c s step) :
    step.1.Shielded (a.addAll (step.2.map Lexeme.token)) := by
  cases hstep with
  | commentOn _ _ => exact h
  | commentEnd hmode _ =>
      have hbare := hs.bare (by simp [hmode, Mode.isBare])
      exact shielded_of_bare ((emitOperator_frames _ _).1.trans hbare)
  | escaped hmode =>
      have hfields := @readEscaped_fields scope s c
      refine h.grow ['\\', c] ?_ fun hbare hframes ↦ ?_
      · rw [core_of_plain hfields.mode, hfields.raw, (hs.escape hmode).1]
        simp
      · exact absurd (hfields.frames.trans hbare) hframes
  | openParameter opened hmode _ =>
      refine h.grow ['$', '\x7b'] ?_ fun _ _ ↦ .of_mem (c := '$') (by simp) (by decide)
      rw [core_of_plain rfl, core_of_ne (by simp [hmode])]
      rfl
  | openSubstitution opened hmode _ =>
      refine h.grow ['$', '('] ?_ fun _ _ ↦ .of_mem (c := '$') (by simp) (by decide)
      rw [core_of_plain rfl, core_of_ne (by simp [hmode])]
      rfl
  | operator pending op hmode _ _ =>
      exact shielded_of_bare ((emitOperator_frames _ _).1.trans (hs.bare_of_pending hmode))

theorem Shielded.settlement (h : s.Shielded a) (hs : s.Sound) {c : Char} {step : Step}
    (hstep : Settlement scope c s step) :
    step.1.Shielded (a.addAll (step.2.map Lexeme.token)) := by
  cases hstep with
  | plain _ => exact h
  | dollar opened hmode _ _ _ | lone opened hmode _ _ _ =>
      refine h.grow ['$'] ?_ fun hbare hframes ↦ absurd hbare hframes
      rw [core_of_plain rfl, core_of_ne (by simp [hmode])]
      rfl
  | operator pending hmode _ =>
      exact shielded_of_bare ((emitOperator_frames _ _).1.trans (hs.bare_of_pending hmode))

theorem Shielded.stepChar (h : s.Shielded a) (hs : s.Sound) (c : Char) (place : Nat) :
    (s.stepChar scope c place).1.Shielded
      (a.addAll ((s.stepChar scope c place).2.map Lexeme.token)) := by
  unfold Scanner.stepChar
  cases hc : s.complete? scope c with
  | some step => exact h.completion hs (complete_completion hc)
  | none =>
      have hstep := settleBefore_settlement hc
      dsimp only
      rw [Step.andThen_fst, Step.andThen_snd, List.map_append, Assembly.addAll_append]
      exact (h.settlement hs hstep).move (hs.settlement hstep).2 readChar_move

section Holes

variable {options : FillOptions} {values values' : List Value} {a' : Assembly}

/-- Two histories of the same scanner, and what settles their words inside constructs. -/
structure Pair (inside : Prop) (p : Piece) (a a' : Assembly) : Prop where
  kin : Kin a a'
  settled : inside → ShellTemplate.Settled (a.wordWith p).raw ∧
    ShellTemplate.Settled (a'.wordWith p).raw

theorem Pair.emitHole {inside : Prop} (h : Pair inside s.piece a a')
    (empty : s.piece.raw = [] → s.piece = {})
    (hvalues : List.Forall₂ Value.Exchange values values') {index : Nat} {quoting : Quoting}
    {enclosing : Enclosing} (hquoted : quoting.isQuoted = true → inside)
    (hbare : quoting = .bare → ¬ inside) {tokens tokens' : List Token}
    (hfill : fill options values (s.emitHole index quoting enclosing).2 = .ok tokens)
    (hfill' : fill options values' (s.emitHole index quoting enclosing).2 = .ok tokens') :
    Pair inside {} (a.addAll tokens) (a'.addAll tokens') := by
  rw [emitHole_eq empty] at hfill hfill'
  obtain ⟨first, second, hfirst, hsecond, rfl⟩ := fill_append_eq_ok_iff.1 hfill
  obtain ⟨first', second', hfirst', hsecond', rfl⟩ := fill_append_eq_ok_iff.1 hfill'
  rw [fill_of_not_hole Filled.flush, Except.ok.injEq] at hfirst hfirst'
  subst hfirst hfirst'
  obtain ⟨value, own, more, hvalue, hown, hmore, rfl⟩ := fill_hole_eq_ok_iff.1 hsecond
  obtain ⟨value', own', more', hvalue', hown', hmore', rfl⟩ := fill_hole_eq_ok_iff.1 hsecond'
  obtain rfl : [] = more := by simpa [fill] using hmore
  obtain rfl : [] = more' := by simpa [fill] using hmore'
  have hexchange : value.Exchange value' := by
    have hrel := getElem?_forall₂ hvalues index
    rw [hvalue, hvalue'] at hrel
    cases hrel with
    | some hrel => exact hrel
  have hkin := h.kin.addAll (s.flush.2.map Lexeme.token)
  have hsettled : inside → (a.addAll (s.flush.2.map Lexeme.token)).Settled ∧
      (a'.addAll (s.flush.2.map Lexeme.token)).Settled := by
    intro hinside
    have hword := h.settled hinside
    rw [← Assembly.getD_current empty, ← Assembly.getD_current empty] at hword
    rw [addAll_flush, addAll_flush]
    exact hword
  simp only [List.append_nil, Assembly.addAll_append]
  refine ⟨hkin.addHole (fun hq ↦ hsettled (hquoted hq)) hexchange hown hown', fun hinside ↦ ?_⟩
  have hne : quoting ≠ .bare := fun hq ↦ hbare hq hinside
  simp only [Assembly.wordWith_empty]
  exact ⟨settled_addHole (hsettled hinside).1 hne hown,
    settled_addHole (hsettled hinside).2 hne hown'⟩

theorem Pair.push {inside : Prop} {p : Piece} (h : Pair inside p a a') {q : Piece}
    {raw : List Char} (hraw : q.raw = p.raw ++ raw) : Pair inside q a a' where
  kin := h.kin
  settled := by
    intro hinside
    have hword : ∀ b : Assembly, (b.wordWith q).raw = (b.wordWith p).raw ++ raw := by
      simp [Assembly.wordWith, Word.push, hraw]
    rw [hword, hword]
    exact ⟨(h.settled hinside).1.append_right _, (h.settled hinside).2.append_right _⟩

theorem isQuoted_quoting {frames : List Frame} (h : (({} : Scope).quoting frames).isQuoted = true) :
    frames ≠ [] := by
  rintro rfl
  cases h

theorem quoting_eq_bare {frames : List Frame} (h : ({} : Scope).quoting frames = .bare) :
    frames = [] := by
  unfold Scope.quoting at h
  split at h <;> first | rfl | cases h

theorem isQuoted_escapedQuoting (h : s.escapedQuoting.isQuoted = true) : s.frames ≠ [] := by
  intro hframes
  simp [escapedQuoting, hframes, Quoting.isQuoted] at h

theorem Pair.holeMove (h : Pair (s.frames ≠ []) s.core a a') (hs : s.Sound)
    (hvalues : List.Forall₂ Value.Exchange values values') {index : Nat} {step : Step}
    (hstep : HoleMove {} index s step) {tokens tokens' : List Token}
    (hfill : fill options values step.2 = .ok tokens)
    (hfill' : fill options values' step.2 = .ok tokens') :
    Pair (step.1.frames ≠ []) step.1.core (a.addAll tokens) (a'.addAll tokens') := by
  have hread : ∀ (t : Scanner) (quoting : Quoting) (b b' : Assembly) (more more' : List Token),
      Pair (t.frames ≠ []) t.piece b b' → t.mode = .plain → (t.piece.raw = [] → t.piece = {}) →
      (quoting.isQuoted = true → t.frames ≠ []) → (quoting = .bare → t.frames = []) →
      fill options values (t.emitHole index quoting (({} : Scope).enclosing t.frames)).2 =
        .ok more →
      fill options values' (t.emitHole index quoting (({} : Scope).enclosing t.frames)).2 =
        .ok more' →
      Pair ((t.emitHole index quoting (({} : Scope).enclosing t.frames)).1.frames ≠ [])
        (t.emitHole index quoting (({} : Scope).enclosing t.frames)).1.core
        (b.addAll more) (b'.addAll more') := by
    intro t quoting b b' more more' hpair hmode hempty hquoted hbare hmore hmore'
    have hhole := hpair.emitHole hempty hvalues hquoted (fun hq hne ↦ hne (hbare hq)) hmore hmore'
    rw [emitHole_eq hempty, core_of_plain (by exact hmode)]
    exact hhole
  cases hstep with
  | comment hmode =>
      obtain rfl : [] = tokens := by simpa [fill] using hfill
      obtain rfl : [] = tokens' := by simpa [fill] using hfill'
      exact h
  | escaped hmode =>
      exact hread { s with mode := .plain, piece := s.core } _ _ _ _ _ h rfl hs.empty
        isQuoted_escapedQuoting (fun hq ↦ absurd hq escapedQuoting_ne_bare) hfill hfill'
  | dollar opened hmode =>
      rw [core_of_ne (by simp [hmode])] at h
      exact hread ((s.inMode .plain).push {} ['\\', '$'] ['$']) _ _ _ _ _ (h.push rfl) rfl
        (by simp [Scanner.push]) isQuoted_quoting quoting_eq_bare hfill hfill'
  | plain hmode =>
      rw [core_of_plain hmode] at h
      exact hread s _ _ _ _ _ h hmode (hs.piece_empty hmode) isQuoted_quoting quoting_eq_bare hfill
        hfill'
  | operator pending hmode =>
      have hbare := hs.bare_of_pending hmode
      obtain ⟨hsound, hplain⟩ :=
        (hs.settled (ne_escape_of_pending hmode)).emitOperator rfl hbare pending
      rw [Step.andThen_snd] at hfill hfill'
      obtain ⟨more, hmore, rfl⟩ := (Filled.emitOperator pending).fill_front_iff.1 hfill
      obtain ⟨more', hmore', rfl⟩ := (Filled.emitOperator pending).fill_front_iff.1 hfill'
      rw [Step.andThen_fst, Assembly.addAll_append, Assembly.addAll_append]
      have hframes := (emitOperator_frames pending (s.inMode .plain)).1.trans hbare
      exact hread _ _ _ _ _ _ ⟨h.kin.addAll _, fun hne ↦ absurd hframes hne⟩ hplain
        (hsound.piece_empty hplain) isQuoted_quoting quoting_eq_bare hmore hmore'

theorem Pair.splice (h : Pair True s.piece a a') (empty : s.piece.raw = [] → s.piece = {})
    (hvalues : List.Forall₂ Value.Exchange values values') {lexemes : List Lexeme}
    (hunbare : Unbare lexemes) {tokens tokens' : List Token}
    (hfill : fill options values (spliceLexemes scope lexemes s).2 = .ok tokens)
    (hfill' : fill options values' (spliceLexemes scope lexemes s).2 = .ok tokens') :
    Pair True (spliceLexemes scope lexemes s).1.piece (a.addAll tokens) (a'.addAll tokens') := by
  induction lexemes generalizing s a a' tokens tokens' with
  | nil =>
      obtain rfl : [] = tokens := by simpa [spliceLexemes, fill] using hfill
      obtain rfl : [] = tokens' := by simpa [spliceLexemes, fill] using hfill'
      exact h
  | cons lexeme rest ih =>
      obtain ⟨token, quoting, enclosing⟩ := lexeme
      have hrest : Unbare rest := fun l hl ↦ hunbare l (by simp [hl])
      have hpushed : ∀ raw : List Char, (s.push scope raw []).piece.raw = [] →
          (s.push scope raw []).piece = {} := by
        intro raw hraw
        obtain ⟨hold, rfl⟩ := List.append_eq_nil_iff.1 hraw
        simp [Scanner.push, empty hold]
      cases token with
      | hole index =>
          have hquoting := hunbare _ List.mem_cons_self rfl
          rw [spliceLexemes, Step.andThen_snd] at hfill hfill'
          obtain ⟨first, second, hfirst, hsecond, rfl⟩ := fill_append_eq_ok_iff.1 hfill
          obtain ⟨first', second', hfirst', hsecond', rfl⟩ := fill_append_eq_ok_iff.1 hfill'
          have hhole := h.emitHole empty hvalues (fun _ ↦ trivial)
            (fun hq _ ↦ hquoting hq) hfirst hfirst'
          rw [spliceLexemes, Step.andThen_fst, Assembly.addAll_append, Assembly.addAll_append]
          refine ih ?_ ?_ hrest hsecond hsecond'
          · rwa [emitHole_eq empty]
          · rw [emitHole_eq empty]
            exact fun _ ↦ rfl
      | piece p => exact ih (h.push rfl) (hpushed _) hrest hfill hfill'
      | operator op => exact ih (h.push rfl) (hpushed _) hrest hfill hfill'
      | blank => exact ih (h.push rfl) (hpushed _) hrest hfill hfill'

theorem Pair.stepBody (h : Pair (s.frames ≠ []) s.core a a') (hs : s.Sound) {c : Char}
    (hopen : s.OpensBodyAt scope c) (hvalues : List.Forall₂ Value.Exchange values values')
    {lexemes : List Lexeme} (hunbare : Unbare lexemes) {tokens tokens' : List Token}
    (hfill : fill options values (s.stepBody scope lexemes).2 = .ok tokens)
    (hfill' : fill options values' (s.stepBody scope lexemes).2 = .ok tokens') :
    Pair ((s.stepBody scope lexemes).1.frames ≠ []) (s.stepBody scope lexemes).1.core
      (a.addAll tokens) (a'.addAll tokens') := by
  obtain ⟨hc, rfl, _⟩ := hopen
  have hstep := settleBefore_settlement hc
  obtain ⟨hsettled, hmode⟩ := hs.settlement hstep
  unfold Scanner.stepBody at hfill hfill' ⊢
  rw [Step.andThen_snd] at hfill hfill'
  obtain ⟨second, hsecond, rfl⟩ := (Filled.settlement hstep).fill_front_iff.1 hfill
  obtain ⟨second', hsecond', rfl⟩ := (Filled.settlement hstep).fill_front_iff.1 hfill'
  rw [Step.andThen_fst, Assembly.addAll_append, Assembly.addAll_append]
  have hkin := h.kin.addAll ((s.settleBefore scope '\x60').2.map Lexeme.token)
  generalize (s.settleBefore scope '\x60').1 = t at *
  unfold Scanner.spliceBody at hsecond hsecond' ⊢
  rw [Step.andThen_snd, List.append_nil] at hsecond hsecond'
  rw [Step.andThen_fst]
  have hquote : ∀ b : Assembly, ShellTemplate.Settled
      (b.wordWith (t.pushSyntax scope '\x60').markExpands.piece).raw :=
    fun b ↦ .of_mem (c := '\x60')
      (by simp [Assembly.wordWith, Word.push, markExpands, pushSyntax, Scanner.push]) (by decide)
  have hopened : Pair True (t.pushSyntax scope '\x60').markExpands.piece
      (a.addAll _) (a'.addAll _) := ⟨hkin, fun _ ↦ ⟨hquote _, hquote _⟩⟩
  have hspliced := hopened.splice (by simp [markExpands, pushSyntax, Scanner.push]) hvalues hunbare
    hsecond hsecond'
  have hclosed := hspliced.push (q := ((spliceLexemes scope lexemes
    (t.pushSyntax scope '\x60').markExpands).1.pushSyntax scope '\x60').piece) rfl
  have hplain : ((spliceLexemes scope lexemes
      (t.pushSyntax scope '\x60').markExpands).1.pushSyntax scope '\x60').mode = .plain :=
    (spliceBody_frames scope lexemes t).2.trans hmode
  refine ⟨hclosed.kin, fun _ ↦ ?_⟩
  rw [core_of_plain hplain]
  exact hclosed.settled trivial

end Holes

end Scanner

open Scanner

/-- Filling the holes with other texts does not change the answers of a run. -/
theorem Scans.kin {cond : HoleCondition} {s : Scanner} {items : List Item} {out : Step}
    (h : Scans cond {} s items out) {options : FillOptions} {values values' : List Value}
    (hvalues : List.Forall₂ Value.Exchange values values') {a a' : Assembly} (hs : s.Sound)
    (hpair : Pair (s.frames ≠ []) s.core a a') {tokens tokens' : List Token}
    (hfill : fill options values out.2 = .ok tokens)
    (hfill' : fill options values' out.2 = .ok tokens') :
    Kin (a.addAll tokens) (a'.addAll tokens') := by
  generalize hscope : ({} : Scope) = scope at h
  induction h generalizing a a' tokens tokens' with
  | nil =>
      obtain rfl : [] = tokens := by simpa [fill] using hfill
      obtain rfl : [] = tokens' := by simpa [fill] using hfill'
      exact hpair.kin
  | hole _ tail ih =>
      subst hscope
      obtain ⟨first, second, hfirst, hsecond, rfl⟩ := fill_append_eq_ok_iff.1 hfill
      obtain ⟨first', second', hfirst', hsecond', rfl⟩ := fill_append_eq_ok_iff.1 hfill'
      rw [Assembly.addAll_append, Assembly.addAll_append]
      exact ih (hs.stepHole _) (hpair.holeMove hs hvalues stepHole_holeMove hfirst hfirst') hsecond
        hsecond' rfl
  | char _ tail ih =>
      obtain ⟨more, hmore, rfl⟩ := (Filled.stepChar _ _).fill_front_iff.1 hfill
      obtain ⟨more', hmore', rfl⟩ := (Filled.stepChar _ _).fill_front_iff.1 hfill'
      rw [Assembly.addAll_append, Assembly.addAll_append]
      have hshielded : Shielded _ a := fun hne ↦ (hpair.settled hne).1
      have hshielded' : Shielded _ a' := fun hne ↦ (hpair.settled hne).2
      refine ih (hs.stepChar _ _) ⟨hpair.kin.addAll _, fun hne ↦ ?_⟩ hmore hmore' hscope
      exact ⟨hshielded.stepChar hs _ _ hne, hshielded'.stepChar hs _ _ hne⟩
  | body opened _ within ended tail _ ih =>
      obtain ⟨first, second, hfirst, hsecond, rfl⟩ := fill_append_eq_ok_iff.1 hfill
      obtain ⟨first', second', hfirst', hsecond', rfl⟩ := fill_append_eq_ok_iff.1 hfill'
      rw [Assembly.addAll_append, Assembly.addAll_append]
      exact ih (hs.stepBody opened _)
        (hpair.stepBody hs opened hvalues (within.unbare_body ended) hfirst hfirst') hsecond
        hsecond' hscope

end ShellTemplate
