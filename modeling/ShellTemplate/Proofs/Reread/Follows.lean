import ShellTemplate.Proofs.Lexeme.Pending
import ShellTemplate.Proofs.Reread.Aligned

/-!
# Reading the line behind the template

The scanner that reads the line is a little behind: what is undecided in the
template is not written yet, and what the line leaves undecided is decided by
the character that is written next.
-/

namespace ShellTemplate

namespace Scanner

variable {strict : Prop} {b : Nat} {scope : Scope} {s s' t : Scanner}
  {tokens tokens' more : List Token}

/-- Any of these characters next brings the second scanner in line. -/
def AlignedFor (strict : Prop) (b : Nat) (scope : Scope) (next : Char → Prop) (s : Scanner)
    (tokens : List Token) (t : Scanner) (more : List Token) : Prop :=
  ∀ c, next c → t.complete? scope c = none ∧
    Aligned strict b s tokens (t.settleBefore scope c).1
      (more ++ (t.settleBefore scope c).2.map Lexeme.token)

/-- The line so far can be read, and any of these characters next brings its reader in line. -/
def Follows (strict : Prop) (b : Nat) (scope : Scope) (next : Char → Prop) (s : Scanner)
    (tokens : List Token) : Prop :=
  ∃ t lexemes, Reads scope {} (s.line b tokens) (.ok (t, lexemes)) ∧
    AlignedFor strict b scope next s tokens t (lexemes.map Lexeme.token)

theorem Aligned.alignedFor (h : Aligned strict b s tokens t more) (next : Char → Prop) :
    AlignedFor strict b scope next s tokens t more := by
  intro c _
  rw [settleBefore_of_plain h.mode]
  exact ⟨complete?_of_plain h.mode c, by simpa using h⟩

/-- The mode of the first scanner plays no part. -/
theorem Aligned.of_same (h : Aligned strict b s tokens t more) (hframes : s'.frames = s.frames)
    (hpiece : s'.piece = s.piece) (hprevious : s'.previous = s.previous) :
    Aligned strict b s' tokens t more where
  frames := h.frames.trans hframes.symm
  mode := h.mode
  sound := h.sound
  previous := h.previous
  fresh := h.fresh
  parts := h.parts
  word := by rw [hpiece]; exact h.word
  empty := by rw [hpiece]; exact h.empty
  started := h.started
  going := by rw [hprevious]; exact h.going
  inside := by rw [hframes, hpiece]; exact h.inside
  ends := by
    rw [line, hframes, hpiece]
    exact h.ends
  spelled := by
    have hspelled := h.spelled
    rwa [line, line, hpiece]
  blank := by rw [hpiece, hprevious]; exact h.blank

theorem Aligned.of_same_right (h : Aligned strict b s tokens t more) {t' : Scanner}
    (hmode : t'.mode = .plain) (hframes : t'.frames = t.frames) (hpiece : t'.piece = t.piece)
    (hprevious : t'.previous = t.previous) : Aligned strict b s tokens t' more where
  frames := hframes.trans h.frames
  mode := hmode
  sound := by
    refine sound_of_plain hmode (hframes ▸ h.sound.nested) ?_ ?_
    · rw [hpiece]
      exact h.sound.piece_empty h.mode
    · have hgoing := h.sound.going
      rwa [core_of_plain h.mode, ← hframes, ← hpiece, ← hprevious] at hgoing
  previous := by rw [hprevious]; exact h.previous
  fresh := h.fresh
  parts := h.parts
  word := by rw [hpiece]; exact h.word
  empty := h.empty
  started := h.started
  going := h.going
  inside := h.inside
  ends := h.ends
  spelled := by
    have hspelled := h.spelled
    rwa [line, ← hpiece] at hspelled
  blank := by rw [hprevious]; exact h.blank

namespace Follows

variable {next next' : Char → Prop}

theorem weaken (h : Follows strict b scope next s tokens) (hnext : ∀ c, next' c → next c) :
    Follows strict b scope next' s tokens := by
  obtain ⟨t, lexemes, hreads, hfor⟩ := h
  exact ⟨t, lexemes, hreads, fun c hc ↦ hfor c (hnext c hc)⟩

theorem keep (h : Follows strict b scope next s tokens)
    (hline : s'.line b tokens' = s.line b tokens)
    (hstep : ∀ t more, Aligned strict b s tokens t more → Aligned strict b s' tokens' t more) :
    Follows strict b scope next s' tokens' := by
  obtain ⟨t, lexemes, hreads, hfor⟩ := h
  exact ⟨t, lexemes, by rwa [hline], fun c hc ↦ ⟨(hfor c hc).1, hstep _ _ (hfor c hc).2⟩⟩

/-- The reader in line, and what follows from reading on with it. -/
theorem exists_aligned (h : Follows strict b scope next s tokens) {c : Char} (hc : next c) :
    ∃ t more, Aligned strict b s tokens t more ∧
      ∀ {next' : Char → Prop} {s' t' : Scanner} {tokens' : List Token} {rest : List Char}
        {lexemes : List Lexeme}, s'.line b tokens' = s.line b tokens ++ c :: rest →
        Reads scope t (c :: rest) (.ok (t', lexemes)) →
        AlignedFor strict b scope next' s' tokens' t' (more ++ lexemes.map Lexeme.token) →
        Follows strict b scope next' s' tokens' := by
  obtain ⟨t, lexemes, hreads, hfor⟩ := h
  obtain ⟨hnone, haligned⟩ := hfor c hc
  refine ⟨_, _, haligned, fun {next' s' t' tokens' rest lexemes'} hline hreads' hfor' ↦ ?_⟩
  have hsettled := Reads.of_settled hnone haligned.mode hreads'
  refine ⟨t', lexemes ++ ((t.settleBefore scope c).2 ++ lexemes'), ?_, ?_⟩
  · rw [hline]
    exact hreads.append hsettled
  · simpa using hfor'

theorem extend (h : Follows strict b scope next s tokens) (c : Char) (rest : List Char)
    (hc : next c) (hline : s'.line b tokens' = s.line b tokens ++ c :: rest)
    (hstep : ∀ t more, Aligned strict b s tokens t more →
      ∃ t' lexemes, Reads scope t (c :: rest) (.ok (t', lexemes)) ∧
        AlignedFor strict b scope next' s' tokens' t' (more ++ lexemes.map Lexeme.token)) :
    Follows strict b scope next' s' tokens' := by
  obtain ⟨t, more, haligned, hread⟩ := h.exists_aligned hc
  obtain ⟨t', lexemes, hreads, hfor⟩ := hstep t more haligned
  exact hread hline hreads hfor

end Follows

end Scanner

end ShellTemplate
