import ShellTemplate.Proofs.Reread.Keeps

/-!
# Deciding what was undecided

When the template decides a dollar sign or an operator it is written, and the
reader of the line leaves it undecided in its turn.
-/

namespace ShellTemplate

namespace Scanner

variable {strict : Prop} {b : Nat} {scope : Scope} {s s' t : Scanner} {tokens more : List Token}
  {c : Char}

theorem Aligned.dollar (h : Aligned strict b s tokens t more) {e : Bool}
    (hs : Pushed s s' '$' e s.frames) {next : Char → Prop}
    (hnext : ∀ d, next d → d ≠ '\x7b' ∧ d ≠ '(' ∧ SameMark strict e (startsExpansion d)) :
    AlignedFor strict b scope next s' tokens (t.inMode (.dollar 0)) more := by
  intro d hd
  obtain ⟨hparameter, hsubstitution, hmark⟩ := hnext d hd
  have hnone : (t.inMode (.dollar 0)).complete? scope d = none := by
    simp [complete?, inMode, hparameter, hsubstitution]
  refine ⟨hnone, ?_⟩
  have hpushed : Pushed t ((t.inMode (.dollar 0)).settleBefore scope d).1 '$' (startsExpansion d)
      s.frames := by
    unfold settleBefore
    simp only [inMode]
    split_ifs with hexpands
    · exact ⟨h.frames, rfl, rfl, rfl, by rw [hexpands]; exact (Bool.or_true _).symm⟩
    · rw [Bool.eq_false_iff.2 hexpands]
      exact ⟨h.frames, rfl, rfl, rfl, (Bool.or_false _).symm⟩
  have hlexemes : ((t.inMode (.dollar 0)).settleBefore scope d).2 = [] := rfl
  rw [hlexemes, List.map_nil, List.append_nil]
  refine h.push hs hpushed hmark (sound_of_pushed hpushed.mode ?_ ?_) (fun _ _ ↦ rfl) fun _ ↦ rfl
  · rw [hpushed.frames, ← h.frames]
    exact h.sound.nested
  · simp [hpushed.raw]

theorem reads_dollar (h : t.mode = .plain) (hsingle : t.inSingle = false) :
    Reads scope t ['$'] (.ok (t.inMode (.dollar 0), [])) :=
  reads_of_readChar h (by decide) (readChar_dollar hsingle 0)

/-- A dollar sign and the character behind it open an expansion. -/
theorem reads_openExpansion (h : t.mode = .plain) (hsingle : t.inSingle = false) {frame : Frame}
    (hframe : (c = '\x7b' ∧ frame = .parameter 0) ∨ (c = '(' ∧ frame = .substitution 0 0)) :
    Reads scope t ['$', c]
      (.ok ((((t.inMode .plain).push scope ['$', c] ['$', c]).markExpands).enter frame, [])) := by
  have hopened : (t.inMode (.dollar 0)).stepChar scope c 0 =
      ((((t.inMode .plain).push scope ['$', c] ['$', c]).markExpands).enter frame, []) := by
    rcases hframe with ⟨rfl, rfl⟩ | ⟨rfl, rfl⟩ <;> rfl
  have hclosed : ¬ (t.inMode (.dollar 0)).OpensBodyAt scope c := not_opensBodyAt_of_ne <| by
    rcases hframe with ⟨rfl, _⟩ | ⟨rfl, _⟩ <;> decide
  have hopen := Reads.char hclosed
  rw [hopened] at hopen
  exact (reads_dollar h hsingle).append hopen

theorem inSingle_of_frames (h : t.frames = s.frames) : t.inSingle = s.inSingle := by
  unfold inSingle
  rw [h]

theorem nextChar_pending {pending : Operator} (hpending : s.mode.pending? = some pending)
    (text : List Char) : ∃ d rest, operatorGap b text pending ++ pending.text = d :: rest ∧
      nextChar strict s d := by
  have hangle : ∀ (fd : Option Nat) (kind : RedirectKind) (c : Char), kind.text = [c] →
      (fd = none → nextChar strict s c) →
      (∀ n, fd = some n → ∀ d, d = ' ' ∨ isDigit d = true → nextChar strict s d) →
      ∃ d rest, operatorGap b text (.redirect ⟨fd, kind⟩) ++ Operator.text (.redirect ⟨fd, kind⟩) =
        d :: rest ∧ nextChar strict s d := by
    intro fd kind c hkind hnone hsome
    cases fd with
    | none => exact ⟨c, [], by simp [operatorGap, Operator.text, Redirect.text, hkind], hnone rfl⟩
    | some n =>
        rcases operatorGap_eq b text (.redirect ⟨some n, kind⟩) with hgap | ⟨hgap, _⟩
        · obtain ⟨d, digits, hdigits⟩ := List.exists_cons_of_ne_nil (toString_ne_nil n)
          have hd : isDigit d = true := isDigit_of_mem_toString (n := n)
            (by rw [hdigits]; exact List.mem_cons_self)
          refine ⟨d, digits ++ kind.text, ?_, hsome n rfl d (.inr hd)⟩
          rw [hgap]
          simp only [Operator.text, Redirect.text, hdigits]
          rfl
        · exact ⟨' ', _, by rw [hgap]; rfl, hsome n rfl ' ' (.inl rfl)⟩
  unfold nextChar at hangle ⊢
  cases hmode : s.mode with
  | plain | comment | escape | dollar p => simp [hmode, Mode.pending?] at hpending
  | pipe =>
      rw [hmode] at hpending
      cases hpending
      exact ⟨'|', [], rfl, rfl⟩
  | ampersand =>
      rw [hmode] at hpending
      cases hpending
      exact ⟨'&', [], rfl, rfl⟩
  | greater fd =>
      rw [hmode] at hpending hangle
      cases hpending
      exact hangle fd .out '>' rfl (by rintro rfl; rfl) (by rintro n rfl d hd; exact hd)
  | less fd =>
      rw [hmode] at hpending hangle
      cases hpending
      exact hangle fd .input '<' rfl (by rintro rfl; rfl) (by rintro n rfl d hd; exact hd)

theorem ne_newline_of_pending {mode : Mode} {pending : Operator}
    (h : mode.pending? = some pending) : pending ≠ .newline := by
  rintro rfl
  cases mode <;> cases h

/-- A settled operator is followed by its reader. -/
theorem Keeps.settle_pending (h : Keeps strict b scope s tokens) (hs : s.Sound) {pending : Operator}
    (hpending : s.mode.pending? = some pending) :
    Follows strict b scope (fun d ↦ s.mode.completed? d = none)
      ((s.inMode .plain).emitOperator pending).1
      (tokens ++ ((s.inMode .plain).emitOperator pending).2.map Lexeme.token) := by
  have hbare := hs.bare_of_pending hpending
  have hempty := (hs.settled (ne_escape_of_pending hpending)).piece_empty rfl
  obtain ⟨d, rest, htext, hnext⟩ := @nextChar_pending strict b s pending hpending (s.line b tokens)
  refine h.follows.extend d rest hnext ?_ fun t more ht ↦ ?_
  · rw [line_emitOperator b tokens hempty, ← htext, List.append_assoc]
    rfl
  · obtain ⟨t', lexemes, hreads, hmode, haligned⟩ :=
      ht.reads_pending scope hbare hpending h.undescribed h.descriptor
    refine ⟨t', lexemes, htext ▸ hreads, fun e he ↦ ?_⟩
    have hpending' : t'.mode.pending? = some pending := by rw [hmode, hpending]
    rw [complete?_of_pending hpending', settleBefore_of_pending hpending', hmode, he]
    exact ⟨rfl, haligned.emitOperator hbare pending⟩

theorem Keeps.settle_dollar (h : Keeps strict b scope s tokens) (hs : s.Sound) {opened : Nat}
    (hmode : s.mode = .dollar opened) (hparameter : c ≠ '\x7b') (hsubstitution : c ≠ '(')
    {s' : Scanner}
    (hpush : Pushed s s' '$' (startsExpansion c) s.frames) : Ready strict b scope c s' tokens := by
  have hline := line_push b tokens hpush
  have hlast : s'.piece.raw.getLast? = some '$' := by rw [hpush.raw, List.getLast?_concat]
  have hnext : nextChar strict s '$' := by
    unfold nextChar
    rw [hmode]
    exact .inl rfl
  have hfollows : ∀ next : Char → Prop,
      (∀ d, next d → d ≠ '\x7b' ∧ d ≠ '(' ∧
        SameMark strict (startsExpansion c) (startsExpansion d)) →
      Follows strict b scope next s' tokens := by
    intro next hmarks
    refine h.follows.extend '$' [] hnext hline fun t more ht ↦ ?_
    have hsingle : t.inSingle = false := by
      rw [inSingle_of_frames ht.frames]
      exact hs.dollar opened hmode
    exact ⟨_, [], reads_dollar ht.mode hsingle, by simpa using ht.dollar hpush hmarks⟩
  exact {
    mode := hpush.mode
    follows := hfollows _ fun d hd ↦ by
      subst hd
      exact ⟨hparameter, hsubstitution, .refl _⟩
    start := fun hraw ↦ by simp [Assembly.wordWith, Word.push, hpush.raw] at hraw
    dollar := fun hc ↦ hfollows _ fun d hd ↦ by
      subst hc
      rcases hd with rfl | ⟨rfl, hstrict⟩
      · exact ⟨by decide, by decide, .refl _⟩
      · exact ⟨by decide, by decide, fun _ ↦ rfl, fun hs ↦ absurd hlast (hstrict hs)⟩
    blank := fun hc ↦ hfollows _ fun d hd ↦ by
      have hlone : startsExpansion c = false := by
        simp only [List.mem_cons, List.not_mem_nil, or_false] at hc
        rcases hc with rfl | rfl | rfl | rfl <;> decide
      subst hd
      rw [hlone]
      exact ⟨by decide, by decide, .refl _⟩
    silent := fun hgap ↦ by
      have hchar := (getLast?_of_blankAfter hgap).2 '$' (by rw [hline, List.getLast?_concat]; rfl)
      simp at hchar
    resting := fun hraw ↦ by simp [hpush.raw] at hraw
    digits := fun _ _ _ hdigits ↦ by
      have hdigit := hdigits '$' (by rw [hpush.raw]; simp)
      cases hdigit
    closes := h.closes }

theorem Keeps.settle (h : Keeps strict b scope s tokens) (hs : s.Sound)
    (hscope : b = 0 → scope = {}) (hnone : s.complete? scope c = none) :
    Ready strict b scope c (s.settleBefore scope c).1
      (tokens ++ (s.settleBefore scope c).2.map Lexeme.token) := by
  have hstep := settleBefore_settlement hnone
  generalize s.settleBefore scope c = step at hstep
  cases hstep with
  | plain hmode => simpa using h.ready hmode
  | dollar opened hmode hparameter hsubstitution hexpands =>
      have hpush : Pushed s ((s.inMode .plain).pushChar scope '$').markExpands '$'
          (startsExpansion c) s.frames :=
        ⟨rfl, rfl, rfl, rfl, by rw [hexpands]; exact (Bool.or_true _).symm⟩
      simpa using h.settle_dollar hs hmode hparameter hsubstitution hpush
  | lone opened hmode hparameter hsubstitution hexpands =>
      have hpush : Pushed s ((s.inMode .plain).pushChar scope '$') '$' (startsExpansion c)
          s.frames := ⟨rfl, rfl, rfl, rfl, by rw [hexpands]; exact (Bool.or_false _).symm⟩
      simpa using h.settle_dollar hs hmode hparameter hsubstitution hpush
  | operator pending hpending hc =>
      have hfollows := h.settle_pending hs hpending
      have hnone' : s.mode.completed? c = none := by
        rw [complete?_of_pending hpending] at hnone
        simpa using hnone
      have hsafe : ∀ d, d ∉ ['|', '&', '>'] → s.mode.completed? d = none := by
        intro d hd
        simp only [List.mem_cons, List.not_mem_nil, or_false, not_or] at hd
        unfold Mode.completed?
        split <;> simp [hd]
      have hempty := (hs.settled (ne_escape_of_pending hpending)).piece_empty rfl
      have hpiece : ((s.inMode .plain).emitOperator pending).1.piece = {} := by
        rw [emitOperator_eq hempty]
      have hbare : ((s.inMode .plain).emitOperator pending).1.frames = [] := by
        rw [emitOperator_eq hempty]
        exact hs.bare_of_pending hpending
      have hblank : Follows strict b scope (fun d ↦ d = ' ') _ _ :=
        hfollows.weaken fun d hd ↦ hsafe d (by rw [hd]; decide)
      obtain ⟨last, hlast, hchar⟩ := getLast?_text (ne_newline_of_pending hpending)
      exact {
        mode := by rw [emitOperator_eq hempty]; rfl
        follows := hfollows.weaken fun d hd ↦ hd ▸ hnone'
        start := fun _ ↦ hfollows.weaken hsafe
        dollar := fun _ ↦ hfollows.weaken fun d hd ↦ hsafe d (by
          rcases hd with rfl | ⟨rfl, _⟩ <;> decide)
        blank := fun _ ↦ hblank
        silent := fun hgap ↦ by
          have hblank := (getLast?_of_blankAfter hgap).2 last (getLast?_emitOperator hempty hlast)
          rcases hblank with rfl | rfl <;> cases hchar
        resting := fun _ hprevious ↦ by
          rw [emitOperator_eq hempty] at hprevious
          cases hprevious
        digits := fun _ _ hraw ↦ absurd (congrArg Piece.raw hpiece) hraw
        closes := fun hb _ ↦ by
          subst hb
          exact closes_emitOperator hempty (ne_newline_of_pending hpending) (hscope rfl)
            (hs.bare_of_pending hpending) hblank }

end Scanner

end ShellTemplate
