import ShellTemplate.Proofs.Lexeme.Continuation
import ShellTemplate.Proofs.Verbatim.Run

/-!
# Reading a piece behind another piece

The pieces around a hole are read before anyone knows what the hole holds. On a line the text of
such a piece stands behind the text of another one, and a second scanner that holds the other piece
reads it to the same place. What differs is what the first character of a word is asked for: a tilde
that begins a word is expanded, and a mark that begins a word starts a comment.
-/

namespace ShellTemplate

theorem Piece.append_assoc (p q r : Piece) : (p.append q).append r = p.append (q.append r) := by
  simp [Piece.append, List.append_assoc, Bool.or_assoc]

theorem Piece.SameText.trans {p q r : Piece} (h : p.SameText q) (h' : q.SameText r) :
    p.SameText r where
  text := h'.text.trans h.text
  expands := by
    rcases h.expands with hexpands | hdigits
    · refine h'.expands.imp (fun hexpands' ↦ hexpands'.trans hexpands) fun hdigits ↦ ?_
      rwa [← h.text]
    · exact .inr hdigits

theorem Piece.SameText.append₂ {p p' q q' : Piece} (h : p.SameText p') (hq : q.SameText q') :
    (p.append q).SameText (p'.append q') where
  text := by
    change p'.text ++ q'.text = p.text ++ q.text
    rw [h.text, hq.text]
  expands := by
    rcases h.expands with hexpands | hdigits
    · refine hq.expands.imp (fun hexpands' ↦ ?_) fun hdigits ↦ hdigits.append_right _
      change (p'.expands || q'.expands) = (p.expands || q.expands)
      rw [hexpands, hexpands']
    · exact .inr (hdigits.append_left _)

/-- The whole is the first piece with the second one behind it; whether it is expanded may differ
where it is no number. -/
structure Piece.Glued (first second whole : Piece) : Prop where
  raw : whole.raw = first.raw ++ second.raw
  same : (first.append second).SameText whole

namespace Piece.Glued

variable {p q r : Piece}

theorem refl (p q : Piece) : Glued p q (p.append q) := ⟨rfl, rfl, .inl rfl⟩

theorem empty (p : Piece) : Glued p {} p :=
  ⟨(List.append_nil _).symm, (List.append_nil _).symm, .inl (Bool.or_false _).symm⟩

/-- Both grow by the same text. -/
theorem append (h : Glued p q r) {d d' : Piece} (hd : d.SameText d') (hraw : d'.raw = d.raw) :
    Glued p (q.append d) (r.append d') where
  raw := by
    change r.raw ++ d'.raw = p.raw ++ (q.raw ++ d.raw)
    rw [h.raw, hraw, List.append_assoc]
  same := by
    rw [← Piece.append_assoc]
    exact h.same.append₂ hd

end Piece.Glued

namespace Scanner

variable {scope : Scope} {before : Piece} {s t u v : Scanner} {c : Char} {text more : List Char}

/-- The second scanner holds, behind `before`, what the first one holds of a piece. -/
structure Behind (before : Piece) (s t : Scanner) : Prop where
  frames : t.frames = s.frames
  mode : t.mode = s.mode
  own : t.previous ≠ .word
  piece : before.Glued s.piece t.piece

namespace Behind

theorem pushed (h : Behind before s t) {s' t' : Scanner} (d d' : Piece) (hd : d.SameText d')
    (hraw : d'.raw = d.raw) (hs : s'.piece = s.piece.append d) (ht : t'.piece = t.piece.append d')
    (hframes : t'.frames = s'.frames) (hmode : t'.mode = s'.mode)
    (hprevious : t'.previous = t.previous) : Behind before s' t' where
  frames := hframes
  mode := hmode
  own := by rw [hprevious]; exact h.own
  piece := by
    rw [hs, ht]
    exact h.piece.append hd hraw

theorem push (h : Behind before s t) (raw text : List Char) :
    Behind before (s.push scope raw text) (t.push scope raw text) :=
  h.pushed ⟨raw, text, false⟩ ⟨raw, text, false⟩ ⟨rfl, .inl rfl⟩ rfl
    (by simp [Scanner.push, Piece.append])
    (by simp [Scanner.push, Piece.append]) h.frames h.mode rfl

theorem markExpands (h : Behind before s t) : Behind before s.markExpands t.markExpands :=
  h.pushed ⟨[], [], true⟩ ⟨[], [], true⟩ ⟨rfl, .inl rfl⟩ rfl
    (by simp [Scanner.markExpands, Piece.append])
    (by simp [Scanner.markExpands, Piece.append]) h.frames h.mode rfl

theorem enter (h : Behind before s t) (frame : Frame) :
    Behind before (s.enter frame) (t.enter frame) :=
  ⟨congrArg (frame :: ·) h.frames, h.mode, h.own, h.piece⟩

theorem inMode (h : Behind before s t) (mode : Mode) :
    Behind before (s.inMode mode) (t.inMode mode) :=
  ⟨h.frames, rfl, h.own, h.piece⟩

/-- Where a dollar sign is decided, the two need not agree on whether it is an expansion. -/
theorem settleDollar (h : Behind before s t) (hmode : s.mode = .dollar 0) {c d : Char}
    (hc : c ≠ '\x7b' ∧ c ≠ '(') (hd : d ≠ '\x7b' ∧ d ≠ '(') :
    ∃ w w', s.complete? scope c = none ∧ s.settleBefore scope c = (w, []) ∧
      t.complete? scope d = none ∧ t.settleBefore scope d = (w', []) ∧ Behind before w w' ∧
        w.mode = .plain ∧ w.frames = s.frames ∧ w.previous = s.previous ∧
          w.piece.raw = s.piece.raw ++ ['$'] := by
  obtain ⟨hnone, w, hw, hplain, hframes, hprevious, hpiece⟩ :=
    @exists_settled_of_dollar scope s c 0 hmode hc
  obtain ⟨hnone', w', hw', hplain', hframes', hprevious', hpiece'⟩ :=
    @exists_settled_of_dollar scope t d 0 (h.mode.trans hmode) hd
  refine ⟨w, w', hnone, hw, hnone', hw', ?_, hplain, hframes, hprevious, ?_⟩
  · refine h.pushed ⟨['$'], ['$'], startsExpansion c⟩ ⟨['$'], ['$'], startsExpansion d⟩
      ⟨rfl, .inr ⟨'$', by simp, rfl⟩⟩ rfl hpiece hpiece' ?_ ?_ hprevious'
    · rw [hframes', hframes, h.frames]
    · rw [hplain', hplain]
  · rw [hpiece]

/-- The two read a character that goes on with the word alike, but for a mark that begins one. -/
theorem readChar (h : Behind before s t) (hmode : s.mode = .plain) (hc : s.GoesOn c)
    (hslash : c ≠ '\\') (hhash : s.frames = [] → c = '#' → t.atWordStart = false) :
    ∃ s' t', s.readChar scope c 0 = (s', []) ∧ t.readChar scope c 0 = (t', []) ∧
      Behind before s' t' ∧ Spells c s s' ∧
        ((s'.mode = .plain ∧ (s'.frames = [] → c ≠ ' ' ∧ c ≠ '\n')) ∨
          c = '$' ∧ s.inSingle = false ∧ s' = s.inMode (.dollar 0)) := by
  have hspelled := spelled_of_plain hmode
  have hwithin : Within s t [] := ⟨by rw [h.frames, List.append_nil], .inl rfl, by simp⟩
  have hparallel := @parallel_readChar scope scope c s t [] hwithin hmode (h.mode.trans hmode)
    fun hbare heq ↦ by rw [hhash hbare heq, (hc hbare).2 heq]
  generalize s.readChar scope c 0 = step at hparallel
  generalize t.readChar scope c 0 = step' at hparallel
  have hdelimiter : s.frames = [] → c ∉ delimiters := fun hbare ↦ (hc hbare).1
  cases hparallel with
  | blank hbare hblank =>
      exact absurd (by rcases hblank with rfl | rfl | rfl <;> decide) (hdelimiter hbare)
  | operator hbare op hop hsingle =>
      exact absurd (mem_delimiters_of_text hop hsingle) (hdelimiter hbare)
  | begin hbare mode hbegin =>
      exact absurd (by rcases hbegin with ⟨rfl, -⟩ | ⟨rfl, -⟩ <;> decide) (hdelimiter hbare)
  | angle hbare mode hangle =>
      exact absurd (by rcases hangle with ⟨rfl, -⟩ | ⟨rfl, -⟩ <;> decide) (hdelimiter hbare)
  | comment hbare heq hstart =>
      have hfalse := (hc hbare).2 heq
      simp [hstart] at hfalse
  | backslash _ hbackslash => exact absurd hbackslash hslash
  | dollar hsingle hdollar =>
      refine ⟨_, _, rfl, rfl, h.inMode (.dollar 0), ⟨?_, .inr (.inr ⟨0, rfl⟩), rfl⟩,
        .inr ⟨hdollar, hsingle, rfl⟩⟩
      rw [hspelled, hdollar]
      simp [Scanner.spelled, Scanner.inMode]
  | @push s' t' e e' frames hs ht same marked ordinary quote addedText =>
      obtain ⟨added, htext, htext', hadded⟩ := addedText
      rw [List.append_nil] at ht
      refine ⟨s', t', rfl, rfl, ?_, ⟨?_, .inl hs.mode, hs.previous⟩, .inl ⟨hs.mode, fun hbare ↦ ?_⟩⟩
      · -- only a tilde is expanded in one place and not in the other
        refine h.pushed ⟨[c], added, e⟩ ⟨[c], added, e'⟩ ⟨rfl, ?_⟩ rfl
          (piece_eq hs.raw htext hs.expands) (piece_eq ht.raw htext' ht.expands)
          (ht.frames.trans hs.frames.symm) (ht.mode.trans hs.mode.symm) ht.previous
        by_cases heq : e' = e
        · exact .inl heq
        · have hmarked : e = true ∨ e' = true := by
            cases e <;> cases e' <;> simp_all
          rw [hadded hmarked]
          exact .inr ⟨c, by simp, marked hmarked⟩
      · rw [spelled_of_plain hs.mode, hs.raw, hspelled]
      · rw [hs.frames] at hbare
        subst hbare
        by_cases hframes : s.frames = []
        · have hplain := (ordinary hframes rfl).1
          simp only [bareSyntax, List.mem_cons, List.not_mem_nil, or_false, not_or] at hplain
          exact ⟨hplain.1, hplain.2.2.2.1⟩
        · have hquote := quote hframes
          simp only [List.mem_cons, List.not_mem_nil, or_false] at hquote
          rcases hquote with rfl | rfl | rfl | rfl | rfl <;> decide

end Behind

/-- From every scanner like the first one the text leads to one like the second. -/
def LeadsTo (scope : Scope) (u : Scanner) (text : List Char) (t : Scanner) : Prop :=
  ∀ previous v, u.Like previous v → ∃ w, Reads scope v text (.ok (w, [])) ∧ t.Like previous w

namespace LeadsTo

theorem nil : u.LeadsTo scope [] u := fun _ v h ↦ ⟨v, .nil, h⟩

theorem append (h : u.LeadsTo scope text t) (h' : t.LeadsTo scope more v) :
    u.LeadsTo scope (text ++ more) v := by
  intro previous w hlike
  obtain ⟨x, hreads, hlike⟩ := h previous w hlike
  obtain ⟨y, hreads', hlike⟩ := h' previous x hlike
  exact ⟨y, hreads.append hreads', hlike⟩

theorem char (hbody : c ≠ '\x60') (hc : u.StaysInWord c)
    (hstep : u.stepChar scope c 0 = (t, [])) : u.LeadsTo scope [c] t := by
  intro previous v hlike
  obtain ⟨t', w, ht, hw, hlike', -⟩ := @Like.stepChar scope _ _ _ _ hlike hc
  obtain rfl : t = t' := congrArg Prod.fst (hstep.symm.trans ht)
  have hreads : Reads scope v [c] _ := Reads.char (not_opensBodyAt_of_ne hbody)
  rw [hw] at hreads
  exact ⟨w, hreads, hlike'⟩

theorem own (h : u.LeadsTo scope text t) (hu : u.previous ≠ .word) : t.previous ≠ .word := by
  obtain ⟨w, -, hlike⟩ := h u.previous u ⟨rfl, rfl, rfl, hu, rfl, hu⟩
  exact hlike.own

end LeadsTo

/-- A piece with this text can be read here: a word is going on, or the piece can begin one. -/
structure Receives (u : Scanner) (text : List Char) : Prop where
  frames : u.frames = []
  mode : u.mode = .plain
  own : u.previous ≠ .word
  empty : u.piece.raw = [] → u.piece = {}
  start : u.piece.raw = [] → text.head? ≠ some '#'

theorem Receives.of_append (h : u.Receives (text ++ more)) : u.Receives text where
  frames := h.frames
  mode := h.mode
  own := h.own
  empty := h.empty
  start := fun hraw ↦ by
    cases text with
    | nil => simp
    | cons c rest => exact h.start hraw

/-- What is read of a piece so far is read again behind other pieces. -/
def Tracked (scope : Scope) (s : Scanner) : Prop :=
  ∀ u : Scanner, u.Receives s.piece.raw → ∃ t, u.LeadsTo scope s.piece.raw t ∧ Behind u.piece s t

/-- What is read before a dollar sign is read again behind other pieces, once it is decided that
nothing opens there. -/
def Recalled (scope : Scope) (s : Scanner) : Prop :=
  ∀ u : Scanner, u.Receives s.piece.raw → ∃ t, u.LeadsTo scope s.piece.raw t ∧ t.mode.endsWord ∧
    ∀ c, c ≠ '\x7b' ∧ c ≠ '(' → t.complete? scope c = none ∧
      ∃ w, t.settleBefore scope c = (w, []) ∧ Behind u.piece (s.inMode .plain) w

theorem tracked_of_empty (hframes : s.frames = []) (hmode : s.mode = .plain)
    (hpiece : s.piece = {}) : s.Tracked scope := by
  intro u hu
  rw [hpiece]
  refine ⟨u, .nil, ?_, ?_, hu.own, ?_⟩
  · rw [hu.frames, hframes]
  · rw [hu.mode, hmode]
  · rw [hpiece]
    exact .empty u.piece

theorem Tracked.recalled (h : s.Tracked scope) (hmode : s.mode = .plain) (place : Nat) :
    (s.inMode (.dollar place)).Recalled scope := by
  intro u hu
  obtain ⟨t, hleads, hbehind⟩ := h u hu
  have hplain := hbehind.mode.trans hmode
  exact ⟨t, hleads, .inl hplain, fun c _ ↦
    ⟨complete?_of_plain hplain c, t, settleBefore_of_plain hplain c,
      ⟨hbehind.frames, hplain, hbehind.own, hbehind.piece⟩⟩⟩

end Scanner

end ShellTemplate
