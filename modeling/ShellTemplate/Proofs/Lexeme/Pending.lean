import ShellTemplate.Proofs.Lexeme.Quoted
import ShellTemplate.Proofs.Line

/-!
# Reading operators

The text of an operator, read where nothing is undecided, leaves the operator
undecided; a character completes it or decides it.
-/

namespace ShellTemplate

/-- The operator that a character completes. -/
def Mode.completed? (mode : Mode) (c : Char) : Option Operator :=
  match mode with
  | .pipe => if c = '|' then some .or else none
  | .ampersand => if c = '&' then some .and else none
  | .greater fd =>
    if c = '>' then some (.redirect ⟨fd, .append⟩)
    else if c = '&' then some (.redirect ⟨fd, .dupOut⟩)
    else if c = '|' then some (.redirect ⟨fd, .out⟩)
    else none
  | .less fd => if c = '&' then some (.redirect ⟨fd, .dupIn⟩) else none
  | .plain | .comment | .escape | .dollar _ => none

/-- The descriptor of an undecided redirection. -/
def Mode.descriptor? : Mode → Option Nat
  | .greater fd | .less fd => fd
  | .plain | .comment | .escape | .dollar _ | .pipe | .ampersand => none

/-- An operator that is completed is the one that was written so far and the character, except
that a redirection is forced by a bar that is not written. -/
theorem Mode.text_completed? {mode : Mode} {pending op : Operator} {c : Char}
    (hpending : mode.pending? = some pending) (h : mode.completed? c = some op) :
    (op = pending ∧ c = '|' ∧ ∃ fd, mode = .greater fd) ∨
      (op.text = pending.text ++ [c] ∧
        ∀ b text, operatorGap b text op = operatorGap b text pending) := by
  cases mode with
  | plain | comment | escape | dollar p => cases hpending
  | pipe | ampersand =>
      cases hpending
      simp only [completed?] at h
      split_ifs at h with hc
      cases h
      exact .inr ⟨by rw [hc]; rfl, fun _ _ ↦ rfl⟩
  | less fd =>
      cases hpending
      simp only [completed?] at h
      split_ifs at h with hc
      cases h
      refine .inr ⟨?_, fun _ _ ↦ by cases fd <;> rfl⟩
      simp [hc, Operator.text, Redirect.text, RedirectKind.text]
  | greater fd =>
      cases hpending
      simp only [completed?] at h
      split_ifs at h with h1 h2 h3 <;> cases h
      · refine .inr ⟨?_, fun _ _ ↦ by cases fd <;> rfl⟩
        simp [h1, Operator.text, Redirect.text, RedirectKind.text]
      · refine .inr ⟨?_, fun _ _ ↦ by cases fd <;> rfl⟩
        simp [h2, Operator.text, Redirect.text, RedirectKind.text]
      · exact .inl ⟨rfl, h3, fd, rfl⟩

namespace Scanner

variable {scope : Scope} {s : Scanner} {pending : Operator}

theorem complete?_of_pending (h : s.mode.pending? = some pending) (c : Char) :
    s.complete? scope c =
      (s.mode.completed? c).map fun op ↦ (s.inMode .plain).emitOperator op := by
  unfold complete? Mode.completed?
  cases hmode : s.mode with
  | plain | comment | escape | dollar p => simp [hmode, Mode.pending?] at h
  | pipe | ampersand | greater fd | less fd =>
      dsimp only
      split_ifs <;> rfl

theorem settleBefore_of_pending (h : s.mode.pending? = some pending) (c : Char) :
    s.settleBefore scope c = (s.inMode .plain).emitOperator pending := by
  unfold settleBefore settle
  cases hmode : s.mode with
  | plain | comment | escape | dollar p => simp [hmode, Mode.pending?] at h
  | pipe | ampersand | greater fd | less fd =>
      rw [hmode] at h
      cases h
      rfl

theorem readChar_dollar (h : s.inSingle = false) (place : Nat) :
    s.readChar scope '$' place = (s.inMode (.dollar place), []) := by
  unfold readChar
  split
  · simp [readBare]
  · rename_i hframes
    simp [inSingle, hframes] at h
  · simp
  · simp [readSubstitution]
  · simp [readParameter]

theorem readChar_blank (h : s.frames = []) (place : Nat) :
    s.readChar scope ' ' place = s.emitBlank := by
  simp [readChar, h, readBare]

theorem readChar_operator (h : s.frames = []) {c : Char} {op : Operator} (hop : op.text = [c])
    (hsingle : op ∈ [.newline, .semicolon, .openParen, .closeParen]) (place : Nat) :
    s.readChar scope c place = s.emitOperator op := by
  simp only [List.mem_cons, List.not_mem_nil, or_false] at hsingle
  rcases hsingle with rfl | rfl | rfl | rfl <;>
    · obtain rfl : _ = c := by simpa [Operator.text] using hop
      simp [readChar, h, readBare]

theorem reads_of_readChar {c : Char} {t : Scanner} {lexemes : List Lexeme} (hmode : s.mode = .plain)
    (hc : c ≠ '\x60') (h : s.readChar scope c 0 = (t, lexemes)) :
    Reads scope s [c] (.ok (t, lexemes)) := by
  have hreads : Reads scope s [c] _ := Reads.char (not_opensBodyAt_of_ne hc)
  rwa [stepChar_of_plain hmode, h] at hreads

/-- Digits outside quotes are added to the piece. -/
theorem grows_digits {text : List Char} (hdigits : ∀ c ∈ text, isDigit c = true)
    (hmode : s.mode = .plain) (hframes : s.frames = []) : Grows scope s text text [] := by
  induction text generalizing s with
  | nil => exact hframes ▸ .refl hmode
  | cons c rest ih =>
      have hc : isDigit c = true := hdigits c (by simp)
      have hne : ∀ d : Char, isDigit d = false → c ≠ d := by
        rintro d hd rfl
        simp [hc] at hd
      have hread : s.readChar scope c 0 = (s.pushChar scope c, []) := by
        simp [readChar, hframes, readBare, hne ' ' rfl, hne '\t' rfl, hne '\r' rfl, hne '\n' rfl,
          hne '#' rfl, hne '\'' rfl, hne '"' rfl, hne '\\' rfl, hne '$' rfl, hne '|' rfl,
          hne '&' rfl, hne ';' rfl, hne '(' rfl, hne ')' rfl, hne '>' rfl, hne '<' rfl,
          hne '*' rfl, hne '?' rfl, hne '[' rfl, hne '\x7b' rfl, hne '~' rfl]
      have hgrows : Grows scope s [c] [c] [] := .of_readChar hmode
        (not_opensBodyAt_of_ne (hne '\x60' rfl)) hread
        ⟨hframes, hmode, rfl, rfl, rfl, rfl⟩
      exact hgrows.append fun t ht hplain ↦ ih (fun d hd ↦ hdigits d (by simp [hd])) hplain ht

/-- The text of an operator is read up to the state in which the operator is undecided. -/
theorem reads_pending {mode : Mode} (hpending : mode.pending? = some pending)
    (hmode : s.mode = .plain) (hframes : s.frames = [])
    (hnone : mode = .greater none ∨ mode = .less none → s.writtenDescriptor? = none)
    (hsome : ∀ fd, mode.descriptor? = some fd →
      s.piece = {} ∧ s.previous ≠ .word ∧ fd < UInt32.size) :
    ∃ t, Reads scope s pending.text (.ok (t, [])) ∧ t.mode = mode ∧ t.frames = [] ∧
      t.piece = s.piece ∧ t.previous = s.previous := by
  have hangle : ∀ (c : Char) (begun : Option Nat → Mode), c ≠ '\x60' →
      (∀ u : Scanner, u.frames = [] → u.readChar scope c 0 = (u.readAngle begun, [])) →
      (begun = .greater ∨ begun = .less) → ∀ fd, mode = begun fd → mode.descriptor? = fd →
        pending.text = (fd.elim [] fun fd ↦ (toString fd).toList) ++ [c] →
        ∃ t, Reads scope s pending.text (.ok (t, [])) ∧ t.mode = mode ∧ t.frames = [] ∧
          t.piece = s.piece ∧ t.previous = s.previous := by
    intro c begun hc hread hangle fd hbegun hfd htext
    cases fd with
    | none =>
        have hreads := reads_of_readChar hmode hc (hread s hframes)
        have hdescriptor := hnone (by rw [hbegun]; rcases hangle with rfl | rfl <;> simp)
        rw [readAngle, hdescriptor] at hreads
        refine ⟨s.inMode (begun none), ?_, hbegun.symm, hframes, rfl, rfl⟩
        rw [htext]
        exact hreads
    | some fd =>
        obtain ⟨hpiece, hprevious, hsize⟩ := hsome fd hfd
        obtain ⟨u, hreads, hgrown⟩ := @grows_digits scope s (toString fd).toList
          (fun d hd ↦ isDigit_of_mem_toString hd) hmode hframes
        have hwritten : u.writtenDescriptor? = some fd := by
          rw [writtenDescriptor?_eq_some_iff, hgrown.expands, hgrown.previous, hgrown.raw, hpiece]
          exact ⟨rfl, hprevious, readDescriptor?_toString hsize⟩
        have hlast := reads_of_readChar hgrown.mode hc (hread u hgrown.frames)
        rw [readAngle, hwritten] at hlast
        refine ⟨{ u with piece := {}, mode := begun (some fd) }, ?_, hbegun.symm, hgrown.frames,
          hpiece.symm, hgrown.previous⟩
        rw [htext]
        exact hreads.append hlast
  cases mode with
  | plain | comment | escape | dollar p => cases hpending
  | pipe =>
      cases hpending
      have hread : s.readChar scope '|' 0 = (s.inMode .pipe, []) := by
        simp [readChar, hframes, readBare]
      exact ⟨_, reads_of_readChar hmode (by decide) hread, rfl, hframes, rfl, rfl⟩
  | ampersand =>
      cases hpending
      have hread : s.readChar scope '&' 0 = (s.inMode .ampersand, []) := by
        simp [readChar, hframes, readBare]
      exact ⟨_, reads_of_readChar hmode (by decide) hread, rfl, hframes, rfl, rfl⟩
  | greater fd =>
      cases hpending
      exact hangle '>' .greater (by decide) (fun u hu ↦ by simp [readChar, hu, readBare]) (.inl rfl)
        fd rfl rfl (by cases fd <;> rfl)
  | less fd =>
      cases hpending
      exact hangle '<' .less (by decide) (fun u hu ↦ by simp [readChar, hu, readBare]) (.inr rfl)
        fd rfl rfl (by cases fd <;> rfl)

end Scanner

end ShellTemplate
