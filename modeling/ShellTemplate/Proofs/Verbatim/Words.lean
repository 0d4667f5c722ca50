import ShellTemplate.Proofs.Reread.Bodies
import ShellTemplate.Proofs.Verbatim.Tokens

/-!
# Words that are read from their own text

While a word is read its characters are kept, so a second scanner that starts between words and
reads what is kept of the word gets to the same place. What stood before the word may differ, as
long as it was not a part of the same word.
-/

namespace ShellTemplate

namespace Scanner

/-- The second scanner, behind `before`, is in the same place of a word as the first one. -/
structure Like (before : Previous) (s t : Scanner) : Prop where
  frames : t.frames = s.frames
  mode : t.mode = s.mode
  piece : t.piece = s.piece
  own : s.previous ≠ .word
  previous : t.previous = before
  fresh : before ≠ .word

namespace Like

variable {scope : Scope} {before : Previous} {s t : Scanner} {c : Char}

theorem push (h : s.Like before t) (raw text : List Char) :
    (s.push scope raw text).Like before (t.push scope raw text) :=
  ⟨h.frames, h.mode, by simp only [Scanner.push, h.piece], h.own, h.previous, h.fresh⟩

theorem markExpands (h : s.Like before t) : s.markExpands.Like before t.markExpands :=
  ⟨h.frames, h.mode, by simp only [Scanner.markExpands, h.piece], h.own, h.previous, h.fresh⟩

theorem enter (h : s.Like before t) (frame : Frame) :
    (s.enter frame).Like before (t.enter frame) :=
  ⟨by simp only [Scanner.enter, h.frames], h.mode, h.piece, h.own, h.previous, h.fresh⟩

theorem inMode (h : s.Like before t) (mode : Mode) :
    (s.inMode mode).Like before (t.inMode mode) :=
  ⟨h.frames, rfl, h.piece, h.own, h.previous, h.fresh⟩

theorem atWordStart (h : s.Like before t) : t.atWordStart = s.atWordStart := by
  have hsame : (t.previous != .word) = (s.previous != .word) := by
    rw [h.previous, bne_iff_ne.2 h.fresh, bne_iff_ne.2 h.own]
  unfold Scanner.atWordStart
  rw [h.piece, hsame]

theorem readEscaped (h : s.Like before t) (c : Char) :
    (s.readEscaped scope c).Like before (t.readEscaped scope c) := by
  have hplain := h.inMode .plain
  unfold Scanner.readEscaped
  simp only [hplain.frames]
  split_ifs <;> exact hplain.push _ _

end Like

/-- A character that goes on with a word, with nothing undecided before it. -/
def GoesOn (c : Char) (s : Scanner) : Prop :=
  s.frames = [] → c ∉ delimiters ∧ (c = '#' → s.atWordStart = false)

/-- What is read of a word so far, with what is undecided. -/
def spelled (s : Scanner) : List Char :=
  s.piece.raw ++ match s.mode with
    | .dollar _ => ['$']
    | _ => []

theorem spelled_of_plain {s : Scanner} (h : s.mode = .plain) : s.spelled = s.piece.raw := by
  simp [spelled, h]

end Scanner

/-- Nothing is undecided, or a part of a word is. -/
def Mode.inWord (mode : Mode) : Prop :=
  mode = .plain ∨ mode = .escape ∨ ∃ place, mode = .dollar place

namespace Scanner

variable {scope : Scope} {s t : Scanner} {c : Char}

/-- The character goes on with the word. -/
structure Spells (c : Char) (s s' : Scanner) : Prop where
  spelled : s'.spelled = s.spelled ++ [c]
  mode : s'.mode.inWord
  previous : s'.previous = s.previous

/-- With nothing undecided before it, a character goes on with the word in both places. -/
theorem Like.readChar {before : Previous} (h : s.Like before t) (hmode : s.mode = .plain)
    (hc : s.GoesOn c) :
    ∃ s' t', s.readChar scope c 0 = (s', []) ∧ t.readChar scope c 0 = (t', []) ∧
      s'.Like before t' ∧ Spells c s s' := by
  have hspelled := spelled_of_plain hmode
  have hwithin : Within s t [] := ⟨by rw [h.frames, List.append_nil], .inl rfl, by simp⟩
  have hparallel := @parallel_readChar scope scope c s t [] hwithin hmode (h.mode.trans hmode)
    fun _ _ ↦ h.atWordStart
  generalize s.readChar scope c 0 = step at hparallel
  generalize t.readChar scope c 0 = step' at hparallel
  have hdelimiter : s.frames = [] → c ∉ delimiters := fun hbare ↦ (hc hbare).1
  cases hparallel with
  | blank hbare hblank =>
      exact absurd (by rcases hblank with rfl | rfl | rfl <;> decide) (hdelimiter hbare)
  | operator hbare op hop hsingle =>
      exact absurd (mem_delimiters_of_text hop hsingle) (hdelimiter hbare)
  | begin hbare mode hbegin =>
      exact absurd (by rcases hbegin with ⟨rfl, -⟩ | ⟨rfl, -⟩ <;> decide) (hdelimiter hbare)
  | angle hbare mode hangle =>
      exact absurd (by rcases hangle with ⟨rfl, -⟩ | ⟨rfl, -⟩ <;> decide) (hdelimiter hbare)
  | comment hbare hhash hstart =>
      have hfalse := (hc hbare).2 hhash
      simp [hstart] at hfalse
  | @push s' t' e e' frames hs ht same _ _ _ text =>
      obtain rfl := same h.atWordStart
      obtain ⟨added, htext, htext', -⟩ := text
      have hraw : t'.piece.raw = s'.piece.raw := by rw [hs.raw, ht.raw, h.piece]
      have hsame : t'.piece.text = s'.piece.text := by rw [htext, htext', h.piece]
      have hexpands : t'.piece.expands = s'.piece.expands := by rw [hs.expands, ht.expands, h.piece]
      have hpiece : t'.piece = s'.piece := by
        change Piece.mk _ _ _ = Piece.mk _ _ _
        rw [hraw, hsame, hexpands]
      rw [List.append_nil] at ht
      refine ⟨s', t', rfl, rfl, ⟨ht.frames.trans hs.frames.symm, ht.mode.trans hs.mode.symm, hpiece,
        ?_, ht.previous.trans h.previous, h.fresh⟩, ?_, .inl hs.mode, hs.previous⟩
      · rw [hs.previous]
        exact h.own
      · rw [spelled_of_plain hs.mode, hs.raw, hspelled]
  | backslash _ hbackslash =>
      refine ⟨_, _, rfl, rfl, (h.push ['\\'] []).inMode .escape, ?_, .inr (.inl rfl), rfl⟩
      rw [hspelled, hbackslash]
      simp [Scanner.spelled, readBackslash, pushSyntax, Scanner.push, Scanner.inMode]
  | dollar _ hdollar =>
      refine ⟨_, _, rfl, rfl, h.inMode (.dollar 0), ?_, .inr (.inr ⟨0, rfl⟩), rfl⟩
      rw [hspelled, hdollar]
      simp [Scanner.spelled, Scanner.inMode]

theorem opensBodyAt_iff_of_inWord (h : s.mode.inWord) :
    s.OpensBodyAt scope c ↔ s.mode ≠ .escape ∧ c = '\x60' ∧ s.opensBody = true := by
  unfold OpensBodyAt
  rcases h with hplain | hescape | ⟨place, hdollar⟩
  · simp [complete?_of_plain hplain, settleBefore_of_plain hplain, hplain]
  · simp [complete?, hescape]
  · have hbefore : (s.settleBefore scope '\x60').1.opensBody = s.opensBody := by
      unfold settleBefore
      rw [hdollar]
      rfl
    constructor
    · rintro ⟨-, rfl, hopen⟩
      exact ⟨by simp [hdollar], rfl, hbefore ▸ hopen⟩
    · rintro ⟨-, rfl, hopen⟩
      exact ⟨by simp [complete?, hdollar], rfl, hbefore.trans hopen⟩

theorem Like.opensBodyAt_iff {before : Previous} (h : s.Like before t) (hmode : s.mode.inWord) :
    t.OpensBodyAt scope c ↔ s.OpensBodyAt scope c := by
  have hmode' : t.mode.inWord := by rwa [h.mode]
  rw [opensBodyAt_iff_of_inWord hmode, opensBodyAt_iff_of_inWord hmode', h.mode, opensBody,
    opensBody, h.frames]

/-- A dollar sign before which nothing opens stays in the piece, whether it is expanded or not. -/
theorem exists_settled_of_dollar {place : Nat} (hmode : s.mode = .dollar place)
    (hc : c ≠ '\x7b' ∧ c ≠ '(') :
    s.complete? scope c = none ∧ ∃ u : Scanner, s.settleBefore scope c = (u, []) ∧
      u.mode = .plain ∧ u.frames = s.frames ∧ u.previous = s.previous ∧
        u.piece = ⟨s.piece.raw ++ ['$'], s.piece.text ++ ['$'],
          s.piece.expands || startsExpansion c⟩ := by
  refine ⟨by simp [complete?, hmode, hc.1, hc.2], (s.settleBefore scope c).1, ?_⟩
  unfold settleBefore
  rw [hmode]
  dsimp only
  split_ifs with hexpands <;>
    simp [Scanner.markExpands, pushChar, Scanner.push, Scanner.inMode, hexpands]

theorem Like.settleDollar {before : Previous} {place : Nat} (h : s.Like before t)
    (hmode : s.mode = .dollar place) (hc : c ≠ '\x7b' ∧ c ≠ '(') :
    ∃ u v, s.complete? scope c = none ∧ s.settleBefore scope c = (u, []) ∧
      t.complete? scope c = none ∧ t.settleBefore scope c = (v, []) ∧ u.Like before v ∧
        u.mode = .plain ∧ u.frames = s.frames ∧ u.previous = s.previous ∧
          u.piece.raw = s.piece.raw ++ ['$'] := by
  obtain ⟨hnone, u, hu, hplain, hframes, hprevious, hpiece⟩ :=
    @exists_settled_of_dollar scope s c place hmode hc
  obtain ⟨hnone', v, hv, hplain', hframes', hprevious', hpiece'⟩ :=
    @exists_settled_of_dollar scope t c place (h.mode.trans hmode) hc
  refine ⟨u, v, hnone, hu, hnone', hv, ⟨?_, hplain'.trans hplain.symm, ?_, ?_, ?_, h.fresh⟩, hplain,
    hframes, hprevious, congrArg Piece.raw hpiece⟩
  · rw [hframes', hframes, h.frames]
  · rw [hpiece', hpiece, h.piece]
  · rw [hprevious]
    exact h.own
  · rw [hprevious', h.previous]

/-- A character that goes on with a word, whatever is undecided before it. -/
def StaysInWord (c : Char) (s : Scanner) : Prop :=
  match s.mode with
  | .plain => s.GoesOn c
  | .escape => True
  | .dollar _ => c = '(' ∨ (s.frames = [] → c ∉ delimiters)
  | _ => False

/-- All scanners in the same place of a word go on with it in the same way. -/
theorem Like.stepChar {before : Previous} (h : s.Like before t) (hc : s.StaysInWord c) :
    ∃ s' t', s.stepChar scope c 0 = (s', []) ∧ t.stepChar scope c 0 = (t', []) ∧
      s'.Like before t' ∧ Spells c s s' := by
  have hmode' := h.mode
  unfold StaysInWord at hc
  cases hmode : s.mode with
  | comment | pipe | ampersand | greater | less => simp [hmode] at hc
  | plain =>
      rw [hmode] at hc
      rw [stepChar_of_plain hmode, stepChar_of_plain (h.mode.trans hmode)]
      exact h.readChar hmode hc
  | escape =>
      have hstep : ∀ w : Scanner, w.mode = .escape →
          w.stepChar scope c 0 = (w.readEscaped scope c, []) := fun w hw ↦ by
        simp [Scanner.stepChar, complete?, hw]
      have hfields := @readEscaped_fields scope s c
      refine ⟨_, _, hstep s hmode, hstep t (h.mode.trans hmode), h.readEscaped c, ?_, ?_,
        hfields.previous⟩
      · rw [spelled_of_plain hfields.mode, hfields.raw]
        simp [spelled, hmode]
      · exact .inl hfields.mode
  | dollar place =>
      rw [hmode] at hc
      by_cases hopen : c = '\x7b' ∨ c = '('
      · have hopened : ∀ (d : Char) (frame : Frame), c = d →
          (∀ w : Scanner, w.mode = .dollar place →
            w.complete? scope d = some
              ((((w.inMode .plain).push scope ['$', d] ['$', d]).markExpands).enter frame, [])) →
            ∃ s' t', s.stepChar scope c 0 = (s', []) ∧ t.stepChar scope c 0 = (t', []) ∧
              s'.Like before t' ∧ Spells c s s' := by
          rintro d frame rfl hcomplete
          have hpushed := @Like.push scope _ _ _ (h.inMode .plain) ['$', c] ['$', c]
          refine ⟨_, _, ?_, ?_, hpushed.markExpands.enter frame, ?_, .inl rfl, rfl⟩
          · unfold Scanner.stepChar
            rw [hcomplete s hmode]
          · unfold Scanner.stepChar
            rw [hcomplete t (h.mode.trans hmode)]
          · simp [spelled, hmode, Scanner.enter, Scanner.markExpands, Scanner.push, Scanner.inMode]
        rcases hopen with hc | hc
        · exact hopened '\x7b' (.parameter place) hc fun w hw ↦ by simp [complete?, hw]
        · exact hopened '(' (.substitution place 0) hc fun w hw ↦ by simp [complete?, hw]
      · obtain ⟨u, v, hnone, hsettle, hnone', hsettle', hlike, hplain, hframes, hprevious, hraw⟩ :=
          @Like.settleDollar scope _ _ _ _ _ h hmode (not_or.1 hopen)
        have hgoes : u.GoesOn c := fun hbare ↦ by
          refine ⟨(hc.resolve_left (not_or.1 hopen).2) (hframes ▸ hbare), fun _ ↦ ?_⟩
          simp [Scanner.atWordStart, hraw]
        obtain ⟨s', t', hs, ht, hlike', hspells⟩ := @Like.readChar scope _ _ _ _ hlike hplain hgoes
        refine ⟨s', t', ?_, ?_, hlike', ?_, hspells.mode, hspells.previous.trans hprevious⟩
        · unfold Scanner.stepChar
          rw [hnone]
          simp only [hsettle, Step.andThen, hs, List.nil_append]
        · unfold Scanner.stepChar
          rw [hnone']
          simp only [hsettle', Step.andThen, ht, List.nil_append]
        · rw [hspells.spelled, spelled_of_plain hplain, hraw]
          simp [spelled, hmode]

/-- Read again from between words, what is read of the word leads to the same place. -/
def Synced (scope : Scope) (s : Scanner) : Prop :=
  ∀ u : Scanner, u.Resting → ∃ t, Reads scope u s.spelled (.ok (t, [])) ∧ s.Like u.previous t

theorem Resting.synced (h : s.Resting) : s.Synced scope := by
  intro u hu
  refine ⟨u, ?_, hu.frames.trans h.frames.symm, hu.mode.trans h.mode.symm,
    hu.piece.trans h.piece.symm, h.previous, rfl, hu.previous⟩
  rw [spelled_of_plain h.mode, h.piece]
  exact .nil

theorem Synced.stepChar (h : s.Synced scope) (hmode : s.mode.inWord) (hc : s.StaysInWord c)
    (hbody : ¬ s.OpensBodyAt scope c) (hown : s.previous ≠ .word) :
    ∃ s', s.stepChar scope c 0 = (s', []) ∧ Spells c s s' ∧ s'.Synced scope := by
  have hself : s.Like s.previous s := ⟨rfl, rfl, rfl, hown, rfl, hown⟩
  obtain ⟨s', -, hs, -, -, hspells⟩ := @Like.stepChar scope _ _ _ _ hself hc
  refine ⟨s', hs, hspells, fun u hu ↦ ?_⟩
  obtain ⟨t, hreads, hlike⟩ := h u hu
  obtain ⟨s'', t', hs'', ht, hlike', -⟩ := @Like.stepChar scope _ _ _ _ hlike hc
  obtain rfl : s' = s'' := congrArg Prod.fst (hs.symm.trans hs'')
  have hlast : Reads scope t [c] _ :=
    Reads.char fun hopen ↦ hbody ((hlike.opensBodyAt_iff hmode).1 hopen)
  rw [ht] at hlast
  refine ⟨t', ?_, hlike'⟩
  rw [hspells.spelled]
  exact hreads.append hlast

theorem Like.settle {before : Previous} (h : s.Like before t) (hmode : s.mode.endsWord) :
    (t.settle scope).1.piece = (s.settle scope).1.piece := by
  rcases hmode with hplain | ⟨place, hdollar⟩
  · rw [settle_of_plain hplain, settle_of_plain (h.mode.trans hplain)]
    exact h.piece
  · have hmode' := h.mode.trans hdollar
    unfold Scanner.settle
    rw [hdollar, hmode']
    exact ((h.inMode .plain).push ['$'] ['$']).piece

theorem raw_settle (hmode : s.mode.endsWord) : (s.settle scope).1.piece.raw = s.spelled := by
  unfold Scanner.settle spelled
  rcases hmode with hplain | ⟨place, hdollar⟩
  · simp [hplain]
  · simp [hdollar, pushChar, push, inMode]

theorem Synced.readsAs (h : s.Synced scope) (hframes : s.frames = []) (hmode : s.mode.endsWord)
    {ends : Mode → Prop} (hends : ends s.mode) :
    (s.settle scope).1.piece.ReadsAs scope ends := by
  intro u hu
  obtain ⟨t, hreads, hlike⟩ := h u hu
  refine ⟨t, ?_, hlike.frames.trans hframes, hlike.previous, ?_, hlike.settle hmode⟩
  · rw [raw_settle hmode]
    exact hreads
  · rw [hlike.mode]
    exact hends

end Scanner

end ShellTemplate
