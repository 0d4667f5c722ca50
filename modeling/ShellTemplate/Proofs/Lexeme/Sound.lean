import Mathlib.Data.List.Chain
import ShellTemplate.Proofs.Lexeme.Move

/-!
# Sound states of the scanner

What holds of the scanner between any two symbols: quotes nest as the shell
nests them, undecided operators stand outside quotes, an undecided backslash
ends the piece, and a word is going on inside every construct.
-/

namespace ShellTemplate

namespace Frame

def isQuote : Frame → Bool
  | .single _ | .double _ => true
  | .substitution _ _ | .parameter _ => false

def isSingle : Frame → Bool
  | .single _ => true
  | _ => false

/-- A construct may open directly inside another: quotes only inside expansions, and nothing
inside single quotes. -/
def OpensIn (inner outer : Frame) : Prop :=
  (inner.isQuote = true → outer.isQuote = false) ∧ outer.isSingle = false

end Frame

/-- A mode that only occurs outside all quotes. -/
def Mode.isBare : Mode → Bool
  | .comment | .pipe | .ampersand | .greater _ | .less _ => true
  | .plain | .escape | .dollar _ => false

namespace Scanner

structure Sound (s : Scanner) : Prop where
  nested : s.frames.IsChain Frame.OpensIn
  bare : s.mode.isBare = true → s.frames = []
  escape : s.mode = .escape → s.piece.raw = s.core.raw ++ ['\\'] ∧ s.inSingle = false
  dollar : ∀ place, s.mode = .dollar place → s.inSingle = false
  empty : s.core.raw = [] → s.core = {}
  going : s.frames ≠ [] → s.core.raw ≠ [] ∨ s.previous = .word

theorem sound_empty : ({} : Scanner).Sound where
  nested := .nil
  bare := by simp [Mode.isBare]
  escape := by simp
  dollar := by simp
  empty := by simp [core]
  going := by simp

variable {scope : Scope} {s : Scanner}

theorem sound_of_plain (hmode : s.mode = .plain) (nested : s.frames.IsChain Frame.OpensIn)
    (empty : s.piece.raw = [] → s.piece = {})
    (going : s.frames ≠ [] → s.piece.raw ≠ [] ∨ s.previous = .word) : s.Sound where
  nested := nested
  bare := by simp [hmode, Mode.isBare]
  escape := by simp [hmode]
  dollar := by simp [hmode]
  empty := by rwa [core_of_plain hmode]
  going := by rwa [core_of_plain hmode]

theorem sound_of_pushed (hmode : s.mode = .plain) (nested : s.frames.IsChain Frame.OpensIn)
    (hraw : s.piece.raw ≠ []) : s.Sound :=
  sound_of_plain hmode nested (fun h ↦ absurd h hraw) fun _ ↦ .inl hraw

theorem flush_eq (empty : s.piece.raw = [] → s.piece = {}) :
    s.flush = ({ s with
        piece := {}
        previous := if s.piece.raw = [] then s.previous else .word },
      if s.piece.raw = [] then [] else [⟨.piece s.piece, s.start, {}⟩]) := by
  unfold flush
  split_ifs with h
  · have hpiece := empty h
    cases s
    simp_all
  · rfl

theorem Sound.piece_empty (h : s.Sound) (hmode : s.mode = .plain) :
    s.piece.raw = [] → s.piece = {} := by
  have hempty := h.empty
  rwa [core_of_plain hmode] at hempty

/-- A backtick opens no body where it completes something. -/
theorem plain_of_complete_eq_none {c : Char} (h : s.complete? scope c = none) :
    s.mode ≠ .comment ∧ s.mode ≠ .escape := by
  constructor <;> intro hmode <;> simp [complete?, hmode] at h
  split at h <;> simp at h

theorem Sound.emitOperator (h : s.Sound) (hmode : s.mode = .plain) (hbare : s.frames = [])
    (op : Operator) : (s.emitOperator op).1.Sound ∧ (s.emitOperator op).1.mode = .plain := by
  unfold Scanner.emitOperator
  rw [flush_eq (h.piece_empty hmode)]
  exact ⟨sound_of_plain hmode (by simpa [Step.andThen] using h.nested)
    (by simp [Step.andThen]) (by simp [Step.andThen, hbare]), hmode⟩

theorem Sound.emitBlank (h : s.Sound) (hmode : s.mode = .plain) (hbare : s.frames = []) :
    s.emitBlank.1.Sound := by
  unfold Scanner.emitBlank
  rw [flush_eq (h.piece_empty hmode)]
  simp only [Step.andThen]
  split_ifs <;>
    exact sound_of_plain hmode h.nested (by simp) (by simp [hbare])

theorem Sound.emitHole (hmode : s.mode = .plain) (nested : s.frames.IsChain Frame.OpensIn)
    (empty : s.piece.raw = [] → s.piece = {}) {index : Nat} {quoting : Quoting}
    {enclosing : Enclosing} : (s.emitHole index quoting enclosing).1.Sound := by
  unfold Scanner.emitHole
  rw [flush_eq empty]
  exact sound_of_plain hmode nested (by simp [Step.andThen]) (by simp [Step.andThen])

theorem Sound.leave (h : s.Sound) : s.leave.frames.IsChain Frame.OpensIn := by
  unfold Scanner.leave
  cases hframes : s.frames with
  | nil => simp
  | cons frame rest =>
      have hnested := h.nested
      rw [hframes] at hnested
      exact hnested.tail

/-- A construct may open wherever the innermost one holds constructs of its kind. -/
theorem Sound.enter (h : s.Sound) (frame : Frame)
    (hopen : ∀ outer ∈ s.frames.head?, frame.OpensIn outer) :
    (frame :: s.frames).IsChain Frame.OpensIn :=
  List.isChain_cons.2 ⟨hopen, h.nested⟩

theorem inSingle_eq_false_iff :
    s.inSingle = false ↔ ∀ outer ∈ s.frames.head?, outer.isSingle = false := by
  unfold inSingle
  split <;> simp_all [Frame.isSingle]
  cases hframes : s.frames with
  | nil => simp
  | cons frame rest => cases frame <;> simp_all

theorem Sound.inMode (h : s.Sound) (hmode : s.mode = .plain) (mode : Mode)
    (hescape : mode ≠ .escape) (hbare : mode.isBare = true → s.frames = [])
    (hdollar : ∀ place, mode = .dollar place → s.inSingle = false) : (s.inMode mode).Sound where
  nested := h.nested
  bare := hbare
  escape := fun heq ↦ absurd heq hescape
  dollar := hdollar
  empty := by
    rw [core_of_ne (by exact hescape)]
    exact h.piece_empty hmode
  going := by
    rw [core_of_ne (by exact hescape)]
    have hgoing := h.going
    rwa [core_of_plain hmode] at hgoing

theorem Sound.readAngle (h : s.Sound) (hmode : s.mode = .plain) (hbare : s.frames = [])
    (mode : Option Nat → Mode) (hangle : mode = .greater ∨ mode = .less) :
    (s.readAngle mode).Sound := by
  have hescape : ∀ fd, mode fd ≠ .escape := by rcases hangle with rfl | rfl <;> simp
  have hdollar : ∀ fd place, mode fd ≠ .dollar place := by rcases hangle with rfl | rfl <;> simp
  unfold Scanner.readAngle
  split
  · rename_i fd _
    exact {
      nested := h.nested
      bare := fun _ ↦ hbare
      escape := fun heq ↦ absurd heq (hescape _)
      dollar := fun place heq ↦ absurd heq (hdollar _ _)
      empty := by simp [core, hescape]
      going := fun hne ↦ absurd hbare hne }
  · exact h.inMode hmode (mode none) (hescape _) (fun _ ↦ hbare)
      fun place heq ↦ absurd heq (hdollar _ _)

@[simp] theorem core_readBackslash : (s.readBackslash scope).core = s.piece := by
  simp [core, Scanner.readBackslash, Scanner.inMode, pushSyntax, push]

theorem Sound.readBackslash (h : s.Sound) (hmode : s.mode = .plain)
    (hquotable : s.inSingle = false) : (s.readBackslash scope).Sound where
  nested := h.nested
  bare := by simp [Scanner.readBackslash, Scanner.inMode, Mode.isBare]
  escape := fun _ ↦ ⟨by rw [core_readBackslash]; rfl, hquotable⟩
  dollar := by simp [Scanner.readBackslash, Scanner.inMode]
  empty := by
    rw [core_readBackslash]
    exact h.piece_empty hmode
  going := by
    rw [core_readBackslash]
    have hgoing := h.going
    rwa [core_of_plain hmode] at hgoing

theorem QuoteFrame.opensIn {c : Char} {frame outer : Frame} (h : QuoteFrame c frame)
    (houter : outer.isSubstitution = true ∨ outer.isParameter = true) : frame.OpensIn outer := by
  rcases h with ⟨_, place, rfl⟩ | ⟨_, place, rfl⟩ <;>
    cases outer <;> simp_all [Frame.OpensIn, Frame.isQuote, Frame.isSingle, Frame.isSubstitution,
      Frame.isParameter]

/-- Every move leads from a sound state to a sound state. -/
theorem Sound.move (h : s.Sound) (hmode : s.mode = .plain) {c : Char} {place : Nat} {step : Step}
    (hmove : Move scope place c s step) : step.1.Sound := by
  cases hmove with
  | blank bare _ => exact h.emitBlank hmode bare
  | operator bare op _ _ => exact (h.emitOperator hmode bare op).1
  | comment bare _ _ => exact h.inMode hmode .comment (by simp) (fun _ ↦ bare) (by simp)
  | begin bare mode hc =>
      rcases hc with ⟨_, rfl⟩ | ⟨_, rfl⟩ <;>
        exact h.inMode hmode _ (by simp) (fun _ ↦ bare) (by simp)
  | angle bare mode hc =>
      exact h.readAngle hmode bare mode (hc.imp And.right And.right)
  | keep _ => exact sound_of_pushed hmode h.nested (by simp [pushChar, push])
  | glob _ _ _ => exact sound_of_pushed hmode h.nested (by simp [pushChar, push, markExpands])
  | openQuote bare frame _ =>
      exact sound_of_pushed hmode (h.enter frame (by simp [bare]))
        (by simp [pushSyntax, push, Scanner.enter])
  | closeQuote frame rest _ _ =>
      exact sound_of_pushed hmode h.leave (by simp [pushSyntax, push])
  | openInner outer rest hframes houter frame hframe =>
      exact sound_of_pushed hmode
        (h.enter frame (by simpa [hframes] using hframe.opensIn houter))
        (by simp [pushChar, push, Scanner.enter])
  | closeExpansion frame rest _ _ => exact sound_of_pushed hmode h.leave (by simp [pushChar, push])
  | nest opened parens parens' rest hframes _ =>
      have hnested := h.nested
      rw [hframes, List.isChain_cons] at hnested
      refine sound_of_pushed hmode ?_ (by simp [pushChar, push])
      simp only [pushChar, push, Scanner.enter, Scanner.leave, hframes, List.tail_cons]
      exact List.isChain_cons.2 ⟨fun outer houter ↦ ⟨by simp [Frame.isQuote],
        (hnested.1 outer houter).2⟩, hnested.2⟩
  | backslash quotable _ => exact h.readBackslash hmode quotable
  | dollar quotable _ =>
      exact h.inMode hmode _ (by simp) (by simp [Mode.isBare]) fun _ _ ↦ quotable

theorem Sound.bare_of_pending {pending : Operator} (h : s.Sound)
    (hmode : s.mode.pending? = some pending) :
    s.frames = [] := by
  refine h.bare ?_
  cases hm : s.mode <;> simp_all [Mode.pending?, Mode.isBare]

theorem ne_escape_of_pending {pending : Operator} (hmode : s.mode.pending? = some pending) :
    s.mode ≠ .escape := by
  intro heq
  simp [heq, Mode.pending?] at hmode

theorem Sound.settled (h : s.Sound) (hne : s.mode ≠ .escape) : (s.inMode .plain).Sound :=
  sound_of_plain rfl h.nested (by have := h.empty; rwa [core_of_ne hne] at this)
    (by have := h.going; rwa [core_of_ne hne] at this)

/-- A character that completes what was undecided leads to a sound state. -/
theorem Sound.completion (h : s.Sound) {c : Char} {step : Step}
    (hstep : Completion scope c s step) : step.1.Sound := by
  cases hstep with
  | commentOn _ _ => exact h
  | commentEnd hmode _ =>
      exact ((h.settled (by simp [hmode])).emitOperator rfl
        (h.bare (by simp [hmode, Mode.isBare])) _).1
  | escaped hmode =>
      refine sound_of_pushed ?_ ?_ ?_
      · simp only [readEscaped]
        split_ifs <;> rfl
      · simp only [readEscaped]
        split_ifs <;> exact h.nested
      · simp only [readEscaped]
        split_ifs <;> simp [push]
  | openParameter opened hmode _ =>
      have hsingle := inSingle_eq_false_iff.1 (h.dollar opened hmode)
      exact sound_of_pushed rfl (h.enter _ fun outer houter ↦
        ⟨by simp [Frame.isQuote], hsingle outer houter⟩) (by simp [push, markExpands, Scanner.enter])
  | openSubstitution opened hmode _ =>
      have hsingle := inSingle_eq_false_iff.1 (h.dollar opened hmode)
      exact sound_of_pushed rfl (h.enter _ fun outer houter ↦
        ⟨by simp [Frame.isQuote], hsingle outer houter⟩) (by simp [push, markExpands, Scanner.enter])
  | operator pending op hmode _ _ =>
      exact ((h.settled (ne_escape_of_pending hmode)).emitOperator rfl
        (h.bare_of_pending hmode) op).1

/-- What is decided before a character leads to a sound state in plain mode. -/
theorem Sound.settlement (h : s.Sound) {c : Char} {step : Step}
    (hstep : Settlement scope c s step) : step.1.Sound ∧ step.1.mode = .plain := by
  cases hstep with
  | plain hmode => exact ⟨h, hmode⟩
  | dollar opened hmode _ _ _ =>
      exact ⟨sound_of_pushed rfl h.nested (by simp [pushChar, push, markExpands]), rfl⟩
  | lone opened hmode _ _ _ =>
      exact ⟨sound_of_pushed rfl h.nested (by simp [pushChar, push]), rfl⟩
  | operator pending hmode _ =>
      exact (h.settled (ne_escape_of_pending hmode)).emitOperator rfl (h.bare_of_pending hmode) _

/-- Deciding what was undecided opens and closes nothing. -/
theorem Settlement.frames {c : Char} {step : Step} (hstep : Settlement scope c s step) :
    step.1.frames = s.frames := by
  cases hstep with
  | operator pending _ _ =>
      unfold Scanner.emitOperator flush
      split_ifs <;> rfl
  | _ => rfl

theorem Sound.stepChar (h : s.Sound) (c : Char) (place : Nat) :
    (s.stepChar scope c place).1.Sound := by
  unfold Scanner.stepChar
  cases hc : s.complete? scope c with
  | some step => exact h.completion (complete_completion hc)
  | none =>
      obtain ⟨hsettled, hmode⟩ := h.settlement (settleBefore_settlement hc)
      dsimp only [Step.andThen_fst]
      exact hsettled.move hmode readChar_move

theorem Sound.holeMove (h : s.Sound) {index : Nat} {step : Step}
    (hstep : HoleMove scope index s step) : step.1.Sound := by
  cases hstep with
  | comment _ => exact h
  | escaped _ =>
      exact Sound.emitHole (s := { s with mode := .plain, piece := s.core }) rfl h.nested h.empty
  | dollar opened _ =>
      exact Sound.emitHole (s := (s.inMode .plain).push scope ['\\', '$'] ['$']) rfl h.nested
        (by simp [push])
  | plain hmode => exact Sound.emitHole hmode h.nested (h.piece_empty hmode)
  | operator pending hmode =>
      have hsettled := h.settled (ne_escape_of_pending hmode)
      obtain ⟨hsound, hplain⟩ := hsettled.emitOperator rfl (h.bare_of_pending hmode) pending
      dsimp only [Step.andThen_fst, readHole]
      exact Sound.emitHole hplain hsound.nested (hsound.piece_empty hplain)

theorem Sound.stepHole (h : s.Sound) (index : Nat) : (s.stepHole scope index).1.Sound :=
  h.holeMove stepHole_holeMove

theorem emitHole_frames (index : Nat) (quoting : Quoting) (enclosing : Enclosing) (s : Scanner) :
    (s.emitHole index quoting enclosing).1.frames = s.frames ∧
      (s.emitHole index quoting enclosing).1.mode = s.mode := by
  unfold Scanner.emitHole flush
  split_ifs <;> exact ⟨rfl, rfl⟩

theorem emitOperator_frames (op : Operator) (s : Scanner) :
    (s.emitOperator op).1.frames = s.frames ∧ (s.emitOperator op).1.mode = s.mode := by
  unfold Scanner.emitOperator flush
  split_ifs <;> exact ⟨rfl, rfl⟩

theorem emitBlank_frames (s : Scanner) :
    s.emitBlank.1.frames = s.frames ∧ s.emitBlank.1.mode = s.mode := by
  unfold Scanner.emitBlank flush
  simp only [Step.andThen_fst]
  split_ifs <;> exact ⟨rfl, rfl⟩

theorem raw_flush (s : Scanner) : s.flush.1.piece.raw = [] := by
  unfold flush
  split_ifs with h
  · exact h
  · rfl

theorem raw_emitOperator (s : Scanner) (op : Operator) : (s.emitOperator op).1.piece.raw = [] :=
  raw_flush s

theorem raw_emitBlank (s : Scanner) : s.emitBlank.1.piece.raw = [] := by
  rw [emitBlank, Step.andThen_fst]
  split_ifs <;> exact raw_flush s

theorem Settlement.mode {c : Char} {step : Step} (h : Settlement scope c s step) :
    step.1.mode = .plain := by
  cases h with
  | plain hmode => exact hmode
  | dollar | lone => rfl
  | operator pending => exact (emitOperator_frames pending _).2

theorem readAngle_frames (mode : Option Nat → Mode) (s : Scanner) :
    (s.readAngle mode).frames = s.frames ∧ ∃ fd, (s.readAngle mode).mode = mode fd := by
  unfold Scanner.readAngle
  split <;> exact ⟨rfl, _, rfl⟩

theorem spliceLexemes_frames (scope : Scope) (lexemes : List Lexeme) (s : Scanner) :
    (spliceLexemes scope lexemes s).1.frames = s.frames ∧
      (spliceLexemes scope lexemes s).1.mode = s.mode := by
  induction lexemes generalizing s with
  | nil => exact ⟨rfl, rfl⟩
  | cons lexeme rest ih =>
      obtain ⟨token, quoting, enclosing⟩ := lexeme
      cases token with
      | piece p => exact ih (s.push scope (escapeBackticks p.raw) [])
      | blank => exact ih (s.push scope [' '] [])
      | operator op => exact ih (s.push scope (escapeBackticks op.text) [])
      | hole index =>
          have hhole := emitHole_frames index quoting enclosing s
          have hrest := ih (s.emitHole index quoting enclosing).1
          exact ⟨hrest.1.trans hhole.1, hrest.2.trans hhole.2⟩

theorem spliceBody_frames (scope : Scope) (lexemes : List Lexeme) (s : Scanner) :
    (s.spliceBody scope lexemes).1.frames = s.frames ∧
      (s.spliceBody scope lexemes).1.mode = s.mode :=
  spliceLexemes_frames scope lexemes (s.pushSyntax scope '\x60').markExpands

theorem Sound.spliceBody (h : s.Sound) (hmode : s.mode = .plain) (lexemes : List Lexeme) :
    (s.spliceBody scope lexemes).1.Sound := by
  have hsplice := spliceBody_frames scope lexemes s
  exact sound_of_pushed (hsplice.2.trans hmode) (hsplice.1.symm ▸ h.nested)
    (by simp [Scanner.spliceBody, pushSyntax, push])

theorem Sound.stepBody (h : s.Sound) {c : Char} (hopen : s.OpensBodyAt scope c)
    (lexemes : List Lexeme) : (s.stepBody scope lexemes).1.Sound := by
  obtain ⟨hc, rfl, _⟩ := hopen
  obtain ⟨hsettled, hmode⟩ := h.settlement (settleBefore_settlement hc)
  exact hsettled.spliceBody hmode lexemes

/-- Behind a hole nothing is undecided. -/
theorem stepHole_mode {index : Nat} :
    (s.stepHole scope index).1.mode = .plain ∨ (s.stepHole scope index).1.mode = .comment := by
  have hmove : HoleMove scope index s (s.stepHole scope index) := stepHole_holeMove
  generalize s.stepHole scope index = step at hmove
  cases hmove with
  | comment hmode => exact .inr hmode
  | escaped | dollar => exact .inl (emitHole_frames _ _ _ _).2
  | plain hmode => exact .inl ((emitHole_frames _ _ _ _).2.trans hmode)
  | operator pending =>
      rw [Step.andThen_fst, readHole, (emitHole_frames _ _ _ _).2]
      exact .inl (emitOperator_frames pending _).2

theorem stepBody_mode {c : Char} (hs : s.Sound) (hopen : s.OpensBodyAt scope c)
    (lexemes : List Lexeme) : (s.stepBody scope lexemes).1.mode = .plain := by
  obtain ⟨hnone, rfl, _⟩ := hopen
  have hplain := (hs.settlement (settleBefore_settlement hnone)).2
  exact (spliceBody_frames scope lexemes _).2.trans hplain

end Scanner

/-- The scanner is sound throughout a run. -/
theorem Scans.sound {cond : HoleCondition} {scope : Scope} {s : Scanner} {items : List Item}
    {out : Step} (h : Scans cond scope s items out) (hs : s.Sound) : out.1.Sound := by
  induction h with
  | nil => exact hs
  | hole _ _ ih => exact ih (hs.stepHole _)
  | char _ _ ih => exact ih (hs.stepChar _ _)
  | body opened _ _ _ _ _ ih => exact ih (hs.stepBody opened _)

end ShellTemplate
