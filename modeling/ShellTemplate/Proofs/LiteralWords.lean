import ShellTemplate.Proofs.Lexeme.History
import ShellTemplate.Proofs.Lexeme.Holes
import ShellTemplate.Proofs.QuoteRemoval
import ShellTemplate.Proofs.Stages

/-!
# Values of literal words

The value of a word without expansions is what quote removal makes of its raw
text. While a word is read, quote removal of what stands there so far is inside
of the quotes that the scanner is inside of.
-/

namespace ShellTemplate

/-- Quote removal of the raw text gives the value, unless the word expands. -/
def Word.Literal (w : Word) : Prop := w.expands = false → w.value = removeQuotes .bare w.raw

/-- What quote removal is inside of with these frames open; it knows no expansions. -/
def QuoteMode.ofFrames? : List Frame → Option QuoteMode
  | [] => some .bare
  | [.single _] => some .single
  | [.double _] => some .double
  | _ => none

theorem QuoteMode.ofFrames?_eq_some_iff {frames : List Frame} {mode : QuoteMode} :
    QuoteMode.ofFrames? frames = some mode ↔ (frames = [] ∧ mode = .bare) ∨
      (∃ place, frames = [.single place] ∧ mode = .single) ∨
      (∃ place, frames = [.double place] ∧ mode = .double) := by
  unfold ofFrames?
  split <;> simp_all [eq_comm]

/-- The raw text of a word that does not expand leads quote removal to its value. -/
def Word.Clean (w : Word) : Prop := w.expands = false → Removes .bare w.raw w.value .bare

theorem Word.Clean.literal {w : Word} (h : w.Clean) : w.Literal :=
  fun hexpands ↦ (h hexpands).eq.symm

/-- A history with literal words, whose last word goes on with `piece` inside of `frames`. A
piece of digits may turn out to be a descriptor, so that the word ends before it. -/
structure Faithful (frames : List Frame) (piece : Piece) (a : Assembly) : Prop where
  parts : ∀ w, .word w ∈ a.parts → w.Clean
  word : (a.wordWith piece).expands = false → ∃ mode, QuoteMode.ofFrames? frames = some mode ∧
    Removes .bare (a.wordWith piece).raw (a.wordWith piece).value mode
  digits : frames = [] → (∀ c ∈ piece.raw, isDigit c = true) → (a.word.getD {}).Clean

/-- Quote removal follows the scanner from `frames` to `frames'` over `raw`. -/
structure Tracks (frames frames' : List Frame) (raw text : List Char) : Prop where
  removes : ∀ mode, QuoteMode.ofFrames? frames = some mode →
    ∃ mode', QuoteMode.ofFrames? frames' = some mode' ∧ Removes mode raw text mode'
  digits : frames' = [] → (∀ c ∈ raw, isDigit c = true) → frames = []

namespace Faithful

variable {frames frames' : List Frame} {piece : Piece} {a : Assembly}

theorem push (h : Faithful frames piece a) {raw text : List Char} (expands : Bool)
    (htracks : expands = false → ∀ mode, QuoteMode.ofFrames? frames = some mode →
      ∃ mode', QuoteMode.ofFrames? frames' = some mode' ∧ Removes mode raw text mode')
    (hdigits : frames' = [] → (∀ c ∈ raw, isDigit c = true) → frames = []) :
    Faithful frames' ⟨piece.raw ++ raw, piece.text ++ text, piece.expands || expands⟩ a where
  parts := h.parts
  word := by
    intro hexpands
    have hboth : (a.wordWith piece).expands = false ∧ expands = false := by
      simpa [Assembly.wordWith, Word.push, and_assoc] using hexpands
    obtain ⟨mode, hmode, hremoves⟩ := h.word hboth.1
    obtain ⟨mode', hmode', hstep⟩ := htracks hboth.2 mode hmode
    refine ⟨mode', hmode', ?_⟩
    simpa [Assembly.wordWith, Word.push] using hremoves.append hstep
  digits := by
    intro hframes hraw
    simp only [List.forall_mem_append] at hraw
    exact h.digits (hdigits hframes hraw.2) hraw.1

theorem clean_wordWith (h : Faithful [] piece a) : (a.wordWith piece).Clean := by
  intro hexpands
  obtain ⟨mode, hmode, hremoves⟩ := h.word hexpands
  cases hmode
  exact hremoves

/-- Outside all quotes, a clean word goes on. -/
theorem of_clean (parts : ∀ w, .word w ∈ a.parts → w.Clean) (hword : (a.word.getD {}).Clean) :
    Faithful [] {} a where
  parts := parts
  word := fun hexpands ↦ by
    rw [Assembly.wordWith_empty] at hexpands ⊢
    exact ⟨.bare, rfl, hword hexpands⟩
  digits := fun _ _ ↦ hword

theorem clean_empty : ({} : Word).Clean := fun _ ↦ .refl .bare

theorem endWord (h : Faithful [] piece a) (empty : piece.raw = [] → piece = {}) :
    Faithful [] {} (a.endWord piece) := by
  refine of_clean (fun w hw ↦ ?_) clean_empty
  rcases Assembly.mem_endWord empty hw with hw | rfl
  · exact h.parts w hw
  · exact h.clean_wordWith

theorem endOperator (h : Faithful [] piece a) (empty : piece.raw = [] → piece = {})
    (op : Operator) : Faithful [] {} ⟨(a.endWord piece).parts ++ [.operator op], none⟩ :=
  of_clean (fun w hw ↦ (h.endWord empty).parts w (by simpa using hw)) clean_empty

theorem flush (h : Faithful frames piece a) (empty : piece.raw = [] → piece = {}) :
    Faithful frames {} ⟨a.parts, a.current piece⟩ where
  parts := h.parts
  word := by
    rw [Assembly.wordWith_empty, Assembly.getD_current empty]
    exact h.word
  digits := by
    rintro rfl _
    rw [Assembly.getD_current empty]
    exact h.clean_wordWith

theorem addPiece (h : Faithful frames piece a) : Faithful frames {} (a.add (.piece piece)) where
  parts := h.parts
  word := by
    rw [Assembly.wordWith_empty, Assembly.getD_add_piece]
    exact h.word
  digits := by
    rintro rfl _
    rw [Assembly.getD_add_piece]
    exact h.clean_wordWith

theorem dropDigits (h : Faithful [] piece a) (hdigits : ∀ c ∈ piece.raw, isDigit c = true) :
    Faithful [] {} a :=
  of_clean h.parts (h.digits rfl hdigits)

end Faithful

namespace Scanner

variable {scope : Scope} {s : Scanner} {a : Assembly}

/-- A character that stands for itself does so for quote removal. -/
theorem Ordinary.tracks {c : Char} (h : s.Ordinary c) : Tracks s.frames s.frames [c] [c] where
  removes := by
    intro mode hmode
    refine ⟨mode, hmode, ?_⟩
    rcases QuoteMode.ofFrames?_eq_some_iff.1 hmode with
      ⟨hframes, rfl⟩ | ⟨place, hframes, rfl⟩ | ⟨place, hframes, rfl⟩ <;>
      simp only [Ordinary, hframes] at h
    · simp only [bareSyntax, List.mem_cons, not_or] at h
      exact .keep_bare (by tauto) (by tauto) (by tauto)
    · exact .keep_single h
    · exact .keep_double h.1 h.2.1
  digits := fun hframes _ ↦ hframes

theorem QuoteFrame.not_isDigit {c : Char} {frame : Frame} (h : QuoteFrame c frame) :
    isDigit c = false := by
  rcases h with ⟨rfl, _⟩ | ⟨rfl, _⟩ <;> decide

theorem QuoteFrame.tracks_open {c : Char} {frame : Frame} (h : QuoteFrame c frame) :
    Tracks [] [frame] [c] [] where
  removes := by
    rintro mode ⟨⟩
    rcases h with ⟨rfl, place, rfl⟩ | ⟨rfl, place, rfl⟩
    · exact ⟨.single, rfl, .open_single⟩
    · exact ⟨.double, rfl, .open_double⟩
  digits := by simp

theorem QuoteFrame.tracks_close {c : Char} {frame : Frame} {rest : List Frame}
    (h : QuoteFrame c frame) : Tracks (frame :: rest) rest [c] [] where
  removes := by
    intro mode hmode
    cases rest with
    | nil =>
        rcases h with ⟨rfl, place, rfl⟩ | ⟨rfl, place, rfl⟩ <;> cases hmode
        · exact ⟨.bare, rfl, .close_single⟩
        · exact ⟨.bare, rfl, .close_double⟩
    | cons outer rest => cases frame <;> cases hmode
  digits := by simp [h.not_isDigit]

/-- Quote removal does not follow into expansions. -/
theorem tracks_of_expansion {frame : Frame} {rest frames' : List Frame} {raw text : List Char}
    (h : frame.isSubstitution = true ∨ frame.isParameter = true)
    (hdigits : frames' = [] → ∃ c ∈ raw, isDigit c = false) :
    Tracks (frame :: rest) frames' raw text where
  removes := by
    intro mode hmode
    cases frame <;> first | cases hmode | simp [Frame.isSubstitution, Frame.isParameter] at h
  digits := by
    intro hframes hraw
    obtain ⟨c, hc, hdigit⟩ := hdigits hframes
    simp [hraw c hc] at hdigit

theorem tracks_dollar (hquotable : s.inSingle = false) :
    Tracks s.frames s.frames ['$'] ['$'] where
  removes := by
    intro mode hmode
    refine ⟨mode, hmode, ?_⟩
    rcases QuoteMode.ofFrames?_eq_some_iff.1 hmode with
      ⟨_, rfl⟩ | ⟨place, hframes, rfl⟩ | ⟨place, _, rfl⟩
    · exact .keep_bare (by decide) (by decide) (by decide)
    · simp [inSingle, hframes] at hquotable
    · exact .keep_double (by decide) (by decide)
  digits := fun hframes _ ↦ hframes

/-- A dollar sign before a hole is written with a backslash. -/
theorem tracks_escapedDollar (hquotable : s.inSingle = false) :
    Tracks s.frames s.frames ['\\', '$'] ['$'] where
  removes := by
    intro mode hmode
    refine ⟨mode, hmode, ?_⟩
    rcases QuoteMode.ofFrames?_eq_some_iff.1 hmode with
      ⟨_, rfl⟩ | ⟨place, hframes, rfl⟩ | ⟨place, _, rfl⟩
    · exact .escaped_bare (by decide)
    · simp [inSingle, hframes] at hquotable
    · exact .escaped_double (by decide)
  digits := fun hframes _ ↦ hframes

/-- The text that a backslash and the character behind it stand for. -/
theorem tracks_escaped {c : Char} {text : List Char} (hquotable : s.inSingle = false)
    (htext : ∀ scope, (s.readEscaped scope c).piece.text = s.piece.text ++ text) :
    Tracks s.frames s.frames ['\\', c] text where
  removes := by
    intro mode hmode
    refine ⟨mode, hmode, ?_⟩
    have htext := htext {}
    rcases QuoteMode.ofFrames?_eq_some_iff.1 hmode with
      ⟨hframes, rfl⟩ | ⟨place, hframes, rfl⟩ | ⟨place, hframes, rfl⟩ <;>
      simp only [readEscaped, inMode, hframes] at htext
    · by_cases hc : c = '\n'
      · obtain rfl : [] = text := by simpa [hc, push] using htext
        exact hc ▸ .newline_bare
      · obtain rfl : [c] = text := by simpa [hc, push] using htext
        exact .escaped_bare hc
    · simp [inSingle, hframes] at hquotable
    · by_cases hc : c = '\n'
      · obtain rfl : [] = text := by simpa [hc, push] using htext
        exact hc ▸ .newline_double
      · by_cases hspecial : isSpecialInDouble c = true
        · obtain rfl : [c] = text := by simpa [hc, hspecial, push] using htext
          exact .escaped_double hspecial
        · obtain rfl : ['\\', c] = text := by simpa [hc, hspecial, push] using htext
          exact .unescaped_double (by simpa using hspecial) hc
  digits := fun hframes _ ↦ hframes

/-- The scanner and the history that its lexemes add to agree with quote removal. -/
def Agrees (s : Scanner) (a : Assembly) : Prop := Faithful s.frames s.core a

theorem Agrees.of_plain (hmode : s.mode = .plain) (h : Faithful s.frames s.piece a) :
    s.Agrees a := by
  rwa [Agrees, core_of_plain hmode]

theorem Agrees.faithful (h : s.Agrees a) (hmode : s.mode = .plain) :
    Faithful s.frames s.piece a := by
  rwa [Agrees, core_of_plain hmode] at h

/-- Only an undecided backslash is not a part of the word yet. -/
theorem Agrees.inMode (h : s.Agrees a) (hmode : s.mode ≠ .escape) {mode : Mode}
    (hne : mode ≠ .escape) : (s.inMode mode).Agrees a := by
  rw [Agrees, core_of_ne hmode] at h
  rw [Agrees, core_of_ne (by exact hne)]
  exact h

theorem agrees_of_push {frames : List Frame} {piece : Piece} (h : Faithful frames piece a)
    (raw text : List Char) (htracks : Tracks frames s.frames raw text) (hmode : s.mode = .plain)
    (hpiece : s.piece = ⟨piece.raw ++ raw, piece.text ++ text, piece.expands⟩) : s.Agrees a := by
  refine .of_plain hmode ?_
  rw [hpiece]
  simpa using h.push false (fun _ ↦ htracks.removes) htracks.digits

theorem agrees_of_expansion {frames : List Frame} {piece : Piece} (h : Faithful frames piece a)
    (raw text : List Char) (hdigits : s.frames = [] → (∀ c ∈ raw, isDigit c = true) → frames = [])
    (hmode : s.mode = .plain) (hpiece : s.piece = ⟨piece.raw ++ raw, piece.text ++ text, true⟩) :
    s.Agrees a := by
  refine .of_plain hmode ?_
  rw [hpiece]
  simpa using h.push true (by simp) hdigits

theorem Agrees.emitOperator (h : s.Agrees a) (hs : s.Sound) (hmode : s.mode = .plain)
    (hbare : s.frames = []) (op : Operator) :
    (s.emitOperator op).1.Agrees (a.addAll ((s.emitOperator op).2.map Lexeme.token)) := by
  have hfaithful := h.faithful hmode
  rw [hbare] at hfaithful
  rw [emitOperator_eq (hs.piece_empty hmode), addAll_emitOperator]
  refine .of_plain hmode ?_
  dsimp only
  rw [hbare]
  exact hfaithful.endOperator (hs.piece_empty hmode) op

theorem Agrees.emitBlank (h : s.Agrees a) (hs : s.Sound) (hmode : s.mode = .plain)
    (hbare : s.frames = []) :
    s.emitBlank.1.Agrees (a.addAll (s.emitBlank.2.map Lexeme.token)) := by
  have hempty := hs.piece_empty hmode
  have hfaithful := h.faithful hmode
  rw [hbare] at hfaithful
  rw [emitBlank_eq hempty]
  refine .of_plain hmode ?_
  dsimp only
  rw [hbare]
  rcases addAll_emitBlank (s := s) a with hend | ⟨hnone, hraw, _⟩
  · rw [hend]
    exact hfaithful.endWord hempty
  · rw [hempty hraw] at hfaithful
    simpa [hnone] using hfaithful

theorem Agrees.readAngle (h : s.Agrees a) (hmode : s.mode = .plain) (hbare : s.frames = [])
    (mode : Option Nat → Mode) (hangle : mode = .greater ∨ mode = .less) :
    (s.readAngle mode).Agrees a := by
  have hne : ∀ fd, mode fd ≠ .escape := by rcases hangle with rfl | rfl <;> simp
  have hfaithful := h.faithful hmode
  unfold Scanner.readAngle
  split
  · rename_i fd hfd
    rw [Agrees, core_of_ne (hne _)]
    rw [hbare] at hfaithful ⊢
    exact hfaithful.dropDigits (digits_of_readDescriptor? (writtenDescriptor?_eq_some_iff.1 hfd).2.2).2.1
  · exact h.inMode (by simp [hmode]) (hne none)

/-- Every move keeps the agreement. -/
theorem Agrees.move (h : s.Agrees a) (hs : s.Sound) (hmode : s.mode = .plain) {c : Char}
    {place : Nat} {step : Step} (hmove : Move scope place c s step) :
    step.1.Agrees (a.addAll (step.2.map Lexeme.token)) := by
  have hfaithful := h.faithful hmode
  have hne : s.mode ≠ .escape := by simp [hmode]
  cases hmove with
  | blank bare _ => exact h.emitBlank hs hmode bare
  | operator bare op _ _ => exact h.emitOperator hs hmode bare op
  | comment bare _ _ => exact h.inMode hne (by simp)
  | begin bare mode hc => rcases hc with ⟨_, rfl⟩ | ⟨_, rfl⟩ <;> exact h.inMode hne (by simp)
  | angle bare mode hc => exact h.readAngle hmode bare mode (hc.imp And.right And.right)
  | keep ordinary =>
      exact agrees_of_push hfaithful [c] [c] ordinary.tracks hmode (by simp [pushChar, push])
  | glob bare _ _ =>
      exact agrees_of_expansion hfaithful [c] [c] (fun _ _ ↦ bare) hmode
        (by simp [pushChar, push, markExpands])
  | openQuote bare frame hframe =>
      rw [bare] at hfaithful
      refine agrees_of_push hfaithful [c] [] ?_ hmode
        (by simp [pushSyntax, push, enter])
      simpa [pushSyntax, push, enter, bare] using hframe.tracks_open
  | closeQuote frame rest hframes hframe =>
      rw [hframes] at hfaithful
      refine agrees_of_push hfaithful [c] [] ?_ hmode
        (by simp [pushSyntax, push, leave])
      simpa [pushSyntax, push, leave, hframes] using hframe.tracks_close
  | openInner outer rest hframes houter frame hframe =>
      rw [hframes] at hfaithful
      exact agrees_of_push hfaithful [c] [c]
        (tracks_of_expansion houter (by simp [pushChar, push, enter])) hmode
        (by simp [pushChar, push, enter])
  | closeExpansion frame rest hframes hframe =>
      have hexpansion : frame.isSubstitution = true ∨ frame.isParameter = true := by
        rcases hframe with ⟨_, opened, rfl⟩ | ⟨_, hparameter⟩
        · exact .inl rfl
        · exact .inr hparameter
      have hdigit : isDigit c = false := by
        rcases hframe with ⟨rfl, _⟩ | ⟨rfl, _⟩ <;> decide
      rw [hframes] at hfaithful
      exact agrees_of_push hfaithful [c] [c]
        (tracks_of_expansion hexpansion fun _ ↦ ⟨c, by simp, hdigit⟩) hmode
        (by simp [pushChar, push, leave])
  | nest opened parens parens' rest hframes _ =>
      rw [hframes] at hfaithful
      exact agrees_of_push hfaithful [c] [c]
        (tracks_of_expansion (.inl rfl) (by simp [pushChar, push, enter])) hmode
        (by simp [pushChar, push, leave, enter])
  | backslash _ _ =>
      rw [Agrees, core_readBackslash]
      exact hfaithful
  | dollar _ _ => exact h.inMode hne (by simp)

theorem Agrees.completion (h : s.Agrees a) (hs : s.Sound) {c : Char} {step : Step}
    (hstep : Completion scope c s step) :
    step.1.Agrees (a.addAll (step.2.map Lexeme.token)) := by
  cases hstep with
  | commentOn _ _ => exact h
  | commentEnd hmode _ =>
      have hne : s.mode ≠ .escape := by simp [hmode]
      exact (h.inMode hne (by simp)).emitOperator (hs.settled hne) rfl
        (hs.bare (by simp [hmode, Mode.isBare])) _
  | escaped hmode =>
      obtain ⟨hraw, hquotable⟩ := hs.escape hmode
      have hcore : s.piece.text = s.core.text ∧ s.piece.expands = s.core.expands := by
        simp [core, hmode]
      obtain ⟨text, htext⟩ : ∃ text, ∀ scope,
          (s.readEscaped scope c).piece.text = s.piece.text ++ text := by
        simp only [readEscaped]
        split_ifs <;> exact ⟨_, fun _ ↦ rfl⟩
      have hfields := @readEscaped_fields scope s c
      refine agrees_of_push h ['\\', c] text ?_ hfields.mode ?_
      · rw [hfields.frames]
        exact tracks_escaped hquotable htext
      · have hpiece : (s.readEscaped scope c).piece =
            ⟨(s.readEscaped scope c).piece.raw, (s.readEscaped scope c).piece.text,
              (s.readEscaped scope c).piece.expands⟩ := rfl
        rw [hpiece, htext, hfields.raw, hfields.expands, hraw, hcore.1, hcore.2]
        simp
  | openParameter opened hmode _ =>
      rw [Agrees, core_of_ne (by simp [hmode])] at h
      exact agrees_of_expansion h _ _ (by simp [enter]) rfl rfl
  | openSubstitution opened hmode _ =>
      rw [Agrees, core_of_ne (by simp [hmode])] at h
      exact agrees_of_expansion h _ _ (by simp [enter]) rfl rfl
  | operator pending op hmode _ _ =>
      have hne := ne_escape_of_pending hmode
      exact (h.inMode hne (by simp)).emitOperator (hs.settled hne) rfl (hs.bare_of_pending hmode) op

theorem Agrees.settlement (h : s.Agrees a) (hs : s.Sound) {c : Char} {step : Step}
    (hstep : Settlement scope c s step) :
    step.1.Agrees (a.addAll (step.2.map Lexeme.token)) := by
  cases hstep with
  | plain hmode => exact h
  | dollar opened hmode _ _ _ =>
      rw [Agrees, core_of_ne (by simp [hmode])] at h
      exact agrees_of_expansion h _ _ (fun hbare _ ↦ hbare) rfl rfl
  | lone opened hmode _ _ _ =>
      rw [Agrees, core_of_ne (by simp [hmode])] at h
      exact agrees_of_push h _ _ (tracks_dollar (hs.dollar opened hmode)) rfl rfl
  | operator pending hmode _ =>
      have hne := ne_escape_of_pending hmode
      exact (h.inMode hne (by simp)).emitOperator (hs.settled hne) rfl (hs.bare_of_pending hmode) _

theorem Agrees.stepChar (h : s.Agrees a) (hs : s.Sound) (c : Char) (place : Nat) :
    (s.stepChar scope c place).1.Agrees
      (a.addAll ((s.stepChar scope c place).2.map Lexeme.token)) := by
  unfold Scanner.stepChar
  cases hc : s.complete? scope c with
  | some step => exact h.completion hs (complete_completion hc)
  | none =>
      have hstep := settleBefore_settlement hc
      obtain ⟨hsettled, hmode⟩ := hs.settlement hstep
      dsimp only
      rw [Step.andThen_fst, Step.andThen_snd, List.map_append, Assembly.addAll_append]
      exact (h.settlement hs hstep).move hsettled hmode readChar_move

/-- A text that stands alone adds clean words and ends outside all quotes. -/
def TextAgrees (text : List Char) : Prop :=
  ∀ lexemes a, lexemesOfText text = .ok lexemes → Faithful [] {} a →
    Faithful [] {} (a.addAll (lexemes.map Lexeme.token))

section Holes

variable {options : FillOptions} {values : List Value}

theorem tracks_write {quoting : Quoting}
    (hquoting : quoting = ({} : Scope).quoting s.frames ∨
      (s.inSingle = false ∧ quoting = s.escapedQuoting)) (text : List Char) :
    Tracks s.frames s.frames (quoting.write text) text where
  removes := by
    intro mode hmode
    refine ⟨mode, hmode, ?_⟩
    rcases QuoteMode.ofFrames?_eq_some_iff.1 hmode with
      ⟨hframes, rfl⟩ | ⟨place, hframes, rfl⟩ | ⟨place, hframes, rfl⟩ <;>
      rcases hquoting with rfl | ⟨hquotable, rfl⟩ <;>
      simp only [Scope.quoting, escapedQuoting, hframes, Quoting.write]
    · exact .singleQuote text
    · exact .singleQuote text
    · exact .escapeSingle text
    · simp [inSingle, hframes] at hquotable
    · exact .escapeDouble text
    · exact .escapeDouble text
  digits := fun hframes _ ↦ hframes

theorem Agrees.emitHole (hmode : s.mode = .plain) (h : Faithful s.frames s.piece a)
    (empty : s.piece.raw = [] → s.piece = {}) (hlist : ∀ v ∈ values, v.isList = false)
    (hraw : ∀ text, .raw text ∈ values → TextAgrees text) {index : Nat} {quoting : Quoting}
    (hquoting : quoting = ({} : Scope).quoting s.frames ∨
      (s.inSingle = false ∧ quoting = s.escapedQuoting)) {tokens : List Token}
    (hfill : fill options values
      (s.emitHole index quoting (({} : Scope).enclosing s.frames)).2 = .ok tokens) :
    (s.emitHole index quoting (({} : Scope).enclosing s.frames)).1.Agrees (a.addAll tokens) := by
  rw [emitHole_eq empty] at hfill ⊢
  obtain ⟨first, second, hfirst, hsecond, rfl⟩ := fill_append_eq_ok_iff.1 hfill
  obtain ⟨value, own, more, hvalue, hown, hmore, rfl⟩ := fill_hole_eq_ok_iff.1 hsecond
  obtain rfl : [] = more := by simpa [fill] using hmore
  have hflushed := h.flush empty
  rw [fill_of_not_hole Filled.flush, Except.ok.injEq] at hfirst
  rw [← addAll_flush a, hfirst] at hflushed
  refine .of_plain hmode ?_
  rw [Assembly.addAll_append, List.append_nil]
  have hmem := List.mem_of_getElem? hvalue
  cases htext : value.literalText? with
  | some text =>
      rw [fillHole_of_text htext] at hown
      split at hown
      · cases hown
      · cases hown
        have hpush := hflushed.push false
          (fun _ ↦ (tracks_write hquoting text).removes) (tracks_write hquoting text).digits
        exact hpush.addPiece
  | none =>
      cases value with
      | str | scalar | joined => simp [Value.literalText?] at htext
      | list items =>
          have hfalse : true = false := hlist _ hmem
          cases hfalse
      | raw text =>
          obtain ⟨hbare, lexemes, hlex, rfl⟩ := fillHole_raw hown
          have hframes : s.frames = [] := by
            subst hbare
            rcases hquoting with hquoting | ⟨_, hquoting⟩
            · unfold Scope.quoting at hquoting
              split at hquoting <;> first | assumption | cases hquoting
            · unfold escapedQuoting at hquoting
              split at hquoting <;> cases hquoting
          dsimp only
          rw [hframes] at hflushed ⊢
          exact hraw text hmem lexemes _ hlex hflushed

theorem Agrees.holeMove (h : s.Agrees a) (hs : s.Sound) (hlist : ∀ v ∈ values, v.isList = false)
    (hraw : ∀ text, .raw text ∈ values → TextAgrees text) {index : Nat} {step : Step}
    (hstep : HoleMove {} index s step) {tokens : List Token}
    (hfill : fill options values step.2 = .ok tokens) : step.1.Agrees (a.addAll tokens) := by
  cases hstep with
  | comment hmode =>
      obtain rfl : [] = tokens := by simpa [fill] using hfill
      exact h
  | escaped hmode =>
      exact Agrees.emitHole (s := { s with mode := .plain, piece := s.core }) rfl h hs.empty hlist
        hraw (.inr ⟨(hs.escape hmode).2, rfl⟩) hfill
  | dollar opened hmode =>
      rw [Agrees, core_of_ne (by simp [hmode])] at h
      have hdollar : ((s.inMode .plain).push {} ['\\', '$'] ['$']).Agrees a :=
        agrees_of_push h _ _ (tracks_escapedDollar (hs.dollar opened hmode)) rfl rfl
      exact Agrees.emitHole (s := (s.inMode .plain).push {} ['\\', '$'] ['$']) rfl
        (hdollar.faithful rfl) (by simp [push]) hlist hraw (.inl rfl) hfill
  | plain hmode =>
      exact Agrees.emitHole hmode (h.faithful hmode) (hs.piece_empty hmode) hlist hraw (.inl rfl)
        hfill
  | operator pending hmode =>
      have hne := ne_escape_of_pending hmode
      have hsettled := hs.settled hne
      have hbare := hs.bare_of_pending hmode
      obtain ⟨hsound, hplain⟩ := hsettled.emitOperator rfl hbare pending
      have hagrees := (h.inMode hne (by simp)).emitOperator hsettled rfl hbare pending
      rw [Step.andThen_snd] at hfill
      obtain ⟨more, hmore, rfl⟩ := (Filled.emitOperator pending).fill_front_iff.1 hfill
      rw [Step.andThen_fst, Assembly.addAll_append]
      exact Agrees.emitHole hplain (hagrees.faithful hplain) (hsound.piece_empty hplain) hlist hraw
        (.inl rfl) hmore

/-- A word that expands goes on. -/
structure Expanding (s : Scanner) (a : Assembly) : Prop where
  parts : ∀ w, .word w ∈ a.parts → w.Clean
  expands : (a.wordWith s.piece).expands = true
  empty : s.piece.raw = [] → s.piece = {}

theorem Expanding.push (h : Expanding s a) (raw : List Char) :
    Expanding (s.push scope raw []) a where
  parts := h.parts
  expands := by simpa [Assembly.wordWith, Word.push, Scanner.push] using h.expands
  empty := by
    intro hraw
    obtain ⟨hold, rfl⟩ := List.append_eq_nil_iff.1 hraw
    simp [Scanner.push, h.empty hold]

theorem Expanding.emitHole (h : Expanding s a) (hlist : ∀ v ∈ values, v.isList = false)
    {index : Nat} {quoting : Quoting} {enclosing : Enclosing} (hquoting : quoting ≠ .bare)
    {tokens : List Token}
    (hfill : fill options values (s.emitHole index quoting enclosing).2 = .ok tokens) :
    Expanding (s.emitHole index quoting enclosing).1 (a.addAll tokens) := by
  rw [emitHole_eq h.empty] at hfill ⊢
  obtain ⟨first, second, hfirst, hsecond, rfl⟩ := fill_append_eq_ok_iff.1 hfill
  obtain ⟨value, own, more, hvalue, hown, hmore, rfl⟩ := fill_hole_eq_ok_iff.1 hsecond
  obtain rfl : [] = more := by simpa [fill] using hmore
  rw [fill_of_not_hole Filled.flush, Except.ok.injEq] at hfirst
  rw [Assembly.addAll_append, ← hfirst, addAll_flush, List.append_nil]
  have hmem := List.mem_of_getElem? hvalue
  cases htext : value.literalText? with
  | some text =>
      rw [fillHole_of_text htext] at hown
      split at hown
      · cases hown
      · cases hown
        refine ⟨h.parts, ?_, fun _ ↦ rfl⟩
        have hexpands := h.expands
        rw [← Assembly.getD_current h.empty] at hexpands
        simp [Assembly.add, Word.push, hexpands]
  | none =>
      cases value with
      | str | scalar | joined => simp [Value.literalText?] at htext
      | list items =>
          have hfalse : true = false := hlist _ hmem
          cases hfalse
      | raw text => exact absurd (fillHole_raw hown).1 hquoting

/-- Splicing a body in keeps the word going. -/
theorem Expanding.splice (h : Expanding s a) (hlist : ∀ v ∈ values, v.isList = false)
    {lexemes : List Lexeme} (hunbare : Unbare lexemes) {tokens : List Token}
    (hfill : fill options values (spliceLexemes scope lexemes s).2 = .ok tokens) :
    Expanding (spliceLexemes scope lexemes s).1 (a.addAll tokens) := by
  induction lexemes generalizing s a tokens with
  | nil =>
      obtain rfl : [] = tokens := by simpa [spliceLexemes, fill] using hfill
      exact h
  | cons lexeme rest ih =>
      obtain ⟨token, quoting, enclosing⟩ := lexeme
      have hrest : Unbare rest := fun l hl ↦ hunbare l (by simp [hl])
      cases token with
      | hole index =>
          have hquoting := hunbare _ List.mem_cons_self rfl
          rw [spliceLexemes, Step.andThen_snd] at hfill
          obtain ⟨first, second, hfirst, hsecond, rfl⟩ := fill_append_eq_ok_iff.1 hfill
          rw [spliceLexemes, Step.andThen_fst, Assembly.addAll_append]
          exact ih (h.emitHole hlist hquoting hfirst) hrest hsecond
      | piece p => exact ih (h.push (escapeBackticks p.raw)) hrest hfill
      | operator op => exact ih (h.push (escapeBackticks op.text)) hrest hfill
      | blank => exact ih (h.push [' ']) hrest hfill

theorem Agrees.stepBody (h : s.Agrees a) (hs : s.Sound) {c : Char} (hopen : s.OpensBodyAt scope c)
    (hlist : ∀ v ∈ values, v.isList = false) {lexemes : List Lexeme} (hunbare : Unbare lexemes)
    {tokens : List Token} (hfill : fill options values (s.stepBody scope lexemes).2 = .ok tokens) :
    (s.stepBody scope lexemes).1.Agrees (a.addAll tokens) := by
  obtain ⟨hc, rfl, _⟩ := hopen
  have hstep := settleBefore_settlement hc
  obtain ⟨hsettled, hmode⟩ := hs.settlement hstep
  have hagrees := h.settlement hs hstep
  unfold Scanner.stepBody at hfill ⊢
  rw [Step.andThen_snd] at hfill
  obtain ⟨first, second, hfirst, hsecond, rfl⟩ := fill_append_eq_ok_iff.1 hfill
  rw [fill_of_not_hole (Filled.settlement hstep), Except.ok.injEq] at hfirst
  rw [hfirst] at hagrees
  rw [Step.andThen_fst, Assembly.addAll_append]
  generalize (s.settleBefore scope '\x60').1 = t at *
  have hopened : Expanding (t.pushSyntax scope '\x60').markExpands (a.addAll first) :=
    ⟨hagrees.parts, by simp [Assembly.wordWith, Word.push, markExpands],
      by simp [markExpands, pushSyntax, Scanner.push]⟩
  have hframes := spliceBody_frames scope lexemes t
  unfold Scanner.spliceBody at hsecond ⊢
  rw [Step.andThen_snd, List.append_nil] at hsecond
  rw [Step.andThen_fst]
  have hspliced := hopened.splice hlist hunbare hsecond
  have hclosed := @Expanding.push scope _ _ hspliced ['\x60']
  refine .of_plain (hframes.2.trans hmode) ⟨hclosed.parts, fun hexpands ↦ ?_, fun _ hraw ↦ ?_⟩
  · exact absurd (hexpands.symm.trans hclosed.expands) (by simp)
  · exact absurd (hraw '\x60' (by simp [pushSyntax, Scanner.push])) (by decide)

end Holes

end Scanner

open Scanner

section Run

variable {options : FillOptions} {values : List Value}

/-- The agreement lasts throughout a run outside all backticks. -/
theorem Scans.agrees {cond : HoleCondition} {s : Scanner} {items : List Item} {out : Step}
    (h : Scans cond {} s items out) (hlist : ∀ v ∈ values, v.isList = false)
    (hraw : ∀ text, .raw text ∈ values → TextAgrees text) {a : Assembly} (hs : s.Sound)
    (ha : s.Agrees a) {tokens : List Token} (hfill : fill options values out.2 = .ok tokens) :
    out.1.Agrees (a.addAll tokens) := by
  generalize hscope : ({} : Scope) = scope at h
  induction h generalizing a tokens with
  | nil =>
      obtain rfl : [] = tokens := by simpa [fill] using hfill
      exact ha
  | hole _ tail ih =>
      subst hscope
      obtain ⟨first, second, hfirst, hsecond, rfl⟩ := fill_append_eq_ok_iff.1 hfill
      rw [Assembly.addAll_append]
      exact ih (hs.stepHole _) (ha.holeMove hs hlist hraw stepHole_holeMove hfirst) hsecond rfl
  | char _ tail ih =>
      obtain ⟨more, hmore, rfl⟩ := (Filled.stepChar _ _).fill_front_iff.1 hfill
      rw [Assembly.addAll_append]
      exact ih (hs.stepChar _ _) (ha.stepChar hs _ _) hmore hscope
  | body opened _ within ended tail _ ih =>
      obtain ⟨first, second, hfirst, hsecond, rfl⟩ := fill_append_eq_ok_iff.1 hfill
      have hinner := within.unbare_body ended
      rw [Assembly.addAll_append]
      exact ih (hs.stepBody opened _) (ha.stepBody hs opened hlist hinner hfirst) hsecond hscope

theorem agrees_finish {s : Scanner} {a : Assembly} (hs : s.Sound) (ha : s.Agrees a)
    {lexemes : List Lexeme} {scope : Scope} (h : s.finish scope = .ok lexemes) :
    Faithful [] {} (a.addAll (lexemes.map Lexeme.token)) := by
  have hflush : ∀ (t : Scanner) (b : Assembly), t.Sound → t.Agrees b → t.frames = [] →
      t.mode ≠ .escape → Faithful [] {} (b.addAll (t.flush.2.map Lexeme.token)) := by
    intro t b ht hb hframes hmode
    have hempty := ht.empty
    rw [core_of_ne hmode] at hempty
    rw [Agrees, core_of_ne hmode, hframes] at hb
    rw [addAll_flush]
    exact hb.flush hempty
  unfold Scanner.finish at h
  split at h
  · cases h
  · rename_i hframes
    split_ifs at h with hescape
    cases h
    rw [Step.andThen_snd, List.map_append, Assembly.addAll_append]
    by_cases hcomment : s.mode = .comment
    · simp only [settle, hcomment]
      exact hflush s a hs ha hframes hescape
    · have hstep := @settle_settlement scope s hcomment hescape
      obtain ⟨hsettled, hmode⟩ := hs.settlement hstep
      exact hflush _ _ hsettled (ha.settlement hs hstep) (hstep.frames.trans hframes)
        (by simp [hmode])

theorem textAgrees (text : List Char) : TextAgrees text := by
  intro lexemes a hlex ha
  obtain ⟨out, final, hscan, hfinish, rfl⟩ := scanAll_eq_ok_iff.1 hlex
  have hrun := scans_of_scan hscan
  have hfill := @fill_of_not_hole {} [] _ (hrun.filled (plain_ofText text))
  have hend := hrun.agrees (by simp) (by simp) sound_empty ha hfill
  rw [List.map_append, Assembly.addAll_append]
  exact agrees_finish (hrun.sound sound_empty) hend hfinish

theorem clean_of_scanAll {items : List Item} {lexemes : List Lexeme} {tokens : List Token}
    (hlist : ∀ v ∈ values, v.isList = false) (hscan : scanAll {} items = .ok lexemes)
    (hfill : fill options values lexemes = .ok tokens) {w : Word}
    (hw : .word w ∈ (Assembly.addAll {} tokens).finish) : w.Clean := by
  obtain ⟨out, final, hout, hfinish, rfl⟩ := scanAll_eq_ok_iff.1 hscan
  have hrun := scans_of_scan hout
  obtain ⟨first, hfirst, rfl⟩ := (Filled.finish hfinish).fill_end_iff.1 hfill
  have hstart : ({} : Scanner).Agrees {} := Faithful.of_clean (by simp) Faithful.clean_empty
  have hend := hrun.agrees hlist (fun text _ ↦ textAgrees text) sound_empty hstart hfirst
  have hclosed := agrees_finish (hrun.sound sound_empty) hend hfinish
  rw [← Assembly.addAll_append] at hclosed
  rcases List.mem_append.1 hw with hw | hw
  · exact hclosed.parts w hw
  · obtain ⟨w', hword, rfl⟩ : ∃ w', (Assembly.addAll {} (first ++ final.map Lexeme.token)).word =
        some w' ∧
        w' = w := by
      simpa [partOfWord] using hw
    have hclean := hclosed.clean_wordWith
    rwa [Assembly.wordWith_empty, hword] at hclean

end Run

/-- The value of a word that does not expand is what the shell's quote removal makes of the
word as it stands on the command line. -/
theorem value_eq_removeQuotes {t : Template} {options : FillOptions} {p : Pipeline}
    (hlist : ∀ v ∈ t.holes, v.isList = false) (h : t.compile options = .ok p) {stage : Stage}
    (hstage : stage ∈ p.stages) {w : Word} (hw : w ∈ stage.words) (hexpands : w.expands = false) :
    w.value = removeQuotes .bare w.raw := by
  obtain ⟨lexemes, tokens, hlex, hfill, _, hstages, _⟩ := compile_eq_ok_iff.1 h
  have hpart := mem_parts_of_mem_words hstages hstage hw
  exact (clean_of_scanAll hlist hlex hfill hpart).literal hexpands

/-- A template whose text holds a quote. -/
def quotedEcho : Template := ⟨[.literal "echo ".toList, .hole (.str "it's".toList)]⟩

theorem value_eq_removeQuotes_quotedEcho :
    ∃ p w, quotedEcho.compile {} = .ok p ∧ w ∈ p.stages.flatMap Stage.words ∧
      w.raw = "'it'\\''s'".toList ∧ w.value = removeQuotes .bare w.raw := by
  have hcompile : quotedEcho.compile {} =
      .ok ⟨[⟨[⟨"echo".toList, "echo".toList, false⟩, ⟨"'it'\\''s'".toList, "it's".toList, false⟩],
        []⟩], "echo 'it'\\''s'".toList⟩ := by decide +kernel
  refine ⟨_, ⟨"'it'\\''s'".toList, "it's".toList, false⟩, hcompile, by decide, rfl, ?_⟩
  exact value_eq_removeQuotes (by decide) hcompile (List.mem_singleton_self _) (by decide) rfl

end ShellTemplate
