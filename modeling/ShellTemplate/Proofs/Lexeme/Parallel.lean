import ShellTemplate.Proofs.Lexeme.Move
import ShellTemplate.Text.Blank

/-!
# Reading in parallel

Two scanners do the same on the same character where their innermost constructs
agree; only a comment and a tilde ask for the start of a word.
-/

namespace ShellTemplate

namespace Scanner

/-- One character was added to the piece. -/
structure Pushed (s s' : Scanner) (c : Char) (expands : Bool) (frames : List Frame) : Prop where
  frames : s'.frames = frames
  mode : s'.mode = .plain
  previous : s'.previous = s.previous
  raw : s'.piece.raw = s.piece.raw ++ [c]
  expands : s'.piece.expands = (s.piece.expands || expands)

/-- The second scanner is inside the constructs of the first and some more around them. -/
structure Within (s t : Scanner) (extra : List Frame) : Prop where
  frames : t.frames = s.frames ++ extra
  around : extra = [] ∨ s.frames ≠ []
  double : ∀ frame ∈ extra, frame.isDouble = false

/-- Two scanners do the same on `c`. -/
inductive Parallel (scope scope' : Scope) (c : Char) (s t : Scanner) (extra : List Frame) :
    Step → Step → Prop
  | blank (bare : s.frames = []) (hc : c = ' ' ∨ c = '\t' ∨ c = '\r') :
      Parallel scope scope' c s t extra s.emitBlank t.emitBlank
  | operator (bare : s.frames = []) (op : Operator) (hop : op.text = [c])
      (hsingle : op ∈ [.newline, .semicolon, .openParen, .closeParen]) :
      Parallel scope scope' c s t extra (s.emitOperator op) (t.emitOperator op)
  | comment (bare : s.frames = []) (hc : c = '#') (start : s.atWordStart = true) :
      Parallel scope scope' c s t extra (s.inMode .comment, []) (t.inMode .comment, [])
  | begin (bare : s.frames = []) (mode : Mode)
      (hmode : (c = '|' ∧ mode = .pipe) ∨ (c = '&' ∧ mode = .ampersand)) :
      Parallel scope scope' c s t extra (s.inMode mode, []) (t.inMode mode, [])
  | angle (bare : s.frames = []) (mode : Option Nat → Mode)
      (hmode : (c = '>' ∧ mode = .greater) ∨ (c = '<' ∧ mode = .less)) :
      Parallel scope scope' c s t extra (s.readAngle mode, []) (t.readAngle mode, [])
  | push {s' t' : Scanner} (e e' : Bool) (frames : List Frame)
      (hs : Pushed s s' c e frames) (ht : Pushed t t' c e' (frames ++ extra))
      (same : t.atWordStart = s.atWordStart → e' = e)
      (marked : e = true ∨ e' = true → isDigit c = false)
      (ordinary : s.frames = [] → frames = [] →
        c ∉ bareSyntax ∧ (c = '#' → s.atWordStart = false))
      (quote : s.frames ≠ frames → c ∈ ['\'', '"', '(', ')', '\x7d'])
      (text : ∃ added, s'.piece.text = s.piece.text ++ added ∧
        t'.piece.text = t.piece.text ++ added ∧ (e = true ∨ e' = true → added = [c])) :
      Parallel scope scope' c s t extra (s', []) (t', [])
  | backslash (quotable : s.inSingle = false) (hc : c = '\\') :
      Parallel scope scope' c s t extra (s.readBackslash scope, []) (t.readBackslash scope', [])
  | dollar (quotable : s.inSingle = false) (hc : c = '$') :
      Parallel scope scope' c s t extra (s.inMode (.dollar 0), []) (t.inMode (.dollar 0), [])

variable {scope scope' : Scope} {c : Char} {s t : Scanner} {extra : List Frame}

theorem Pushed.of_pushChar (hmode : s.mode = .plain) :
    Pushed s (s.pushChar scope c) c false s.frames :=
  ⟨rfl, hmode, rfl, rfl, (Bool.or_false _).symm⟩

theorem Pushed.of_markExpands (hmode : s.mode = .plain) :
    Pushed s (s.pushChar scope c).markExpands c true s.frames :=
  ⟨rfl, hmode, rfl, rfl, (Bool.or_true _).symm⟩

/-- A character that both add to their words stands for itself. -/
theorem parallel_ordinary {s' t' : Scanner} {e e' : Bool} (hframes : s.frames = [])
    (hframes' : t.frames = []) (hc : c ∉ bareSyntax) (hhash : c = '#' → s.atWordStart = false)
    (hs : Pushed s s' c e s.frames) (ht : Pushed t t' c e' t.frames)
    (same : t.atWordStart = s.atWordStart → e' = e)
    (marked : e = true ∨ e' = true → isDigit c = false)
    (text : s'.piece.text = s.piece.text ++ [c] ∧ t'.piece.text = t.piece.text ++ [c]) :
    Parallel scope scope' c s t [] (s', []) (t', []) := by
  rw [hframes] at hs
  rw [hframes'] at ht
  exact .push e e' [] hs ht same marked (fun _ _ ↦ ⟨hc, hhash⟩) (fun hne ↦ absurd hframes hne)
    ⟨_, text.1, text.2, fun _ ↦ rfl⟩

theorem parallel_readBare (hmode : s.mode = .plain) (hmode' : t.mode = .plain)
    (hframes : s.frames = []) (hframes' : t.frames = [])
    (hhash : c = '#' → t.atWordStart = s.atWordStart) :
    Parallel scope scope' c s t [] (s.readBare scope c 0) (t.readBare scope' c 0) := by
  have hsingle : s.inSingle = false := by simp [inSingle, hframes]
  have hplain := @Pushed.of_pushChar scope c s hmode
  have hplain' := @Pushed.of_pushChar scope' c t hmode'
  have hmarked := @Pushed.of_markExpands scope c s hmode
  have hmarked' := @Pushed.of_markExpands scope' c t hmode'
  cases bareReading c 0 with
  | blank hc reads =>
      rw [reads, reads]
      exact .blank hframes hc
  | operator op hop hop' reads =>
      rw [reads, reads]
      exact .operator hframes op hop hop'
  | hash hc reads =>
      rw [reads, reads, hhash hc]
      split_ifs with hstart
      · exact .comment hframes hc hstart
      · exact parallel_ordinary hframes hframes' (by subst hc; decide)
          (fun _ ↦ Bool.eq_false_iff.2 hstart) hplain hplain' (fun _ ↦ rfl) (by simp) ⟨rfl, rfl⟩
  | quote frame hframe _ reads =>
      rw [reads, reads]
      have hquote : c ∈ ['\'', '"', '(', ')', '\x7d'] := by
        rcases hframe with ⟨rfl, -⟩ | ⟨rfl, -⟩ <;> simp
      refine .push false false [frame] ⟨?_, hmode, rfl, rfl, (Bool.or_false _).symm⟩
        ⟨?_, hmode', rfl, rfl, (Bool.or_false _).symm⟩ (fun _ ↦ rfl) (by simp) (by simp)
        (fun _ ↦ hquote) ⟨[], rfl, rfl, by simp⟩
      · simp [enter, pushSyntax, push, hframes]
      · simp [enter, pushSyntax, push, hframes']
  | backslash hc reads =>
      rw [reads, reads]
      exact .backslash hsingle hc
  | dollar hc reads =>
      rw [reads, reads]
      exact .dollar hsingle hc
  | begin mode hbegin reads =>
      rw [reads, reads]
      exact .begin hframes mode hbegin
  | angle mode hangle reads =>
      rw [reads, reads]
      exact .angle hframes mode hangle
  | glob hc reads =>
      rw [reads, reads]
      obtain ⟨hbare, hne, hdigit⟩ := ordinary_of_glob hc
      exact parallel_ordinary hframes hframes' hbare (fun heq ↦ absurd heq hne) hmarked hmarked'
        (fun _ ↦ rfl) (fun _ ↦ hdigit) ⟨rfl, rfl⟩
  | tilde hc reads =>
      -- the two may differ in whether a word goes on, and then in whether the tilde expands
      rw [reads, reads]
      subst hc
      have hordinary := fun {s' t' : Scanner} {e e' : Bool} ↦
        @parallel_ordinary scope scope' '~' s t s' t' e e' hframes hframes' (by decide) (by simp)
      split_ifs with hs ht ht
      · exact hordinary hmarked hmarked' (fun _ ↦ rfl) (fun _ ↦ rfl) ⟨rfl, rfl⟩
      · exact hordinary hmarked hplain' (fun heq ↦ absurd (heq.trans hs) ht) (fun _ ↦ rfl)
          ⟨rfl, rfl⟩
      · exact hordinary hplain hmarked' (fun heq ↦ absurd (heq.symm.trans ht) hs) (fun _ ↦ rfl)
          ⟨rfl, rfl⟩
      · exact hordinary hplain hplain' (fun _ ↦ rfl) (by simp) ⟨rfl, rfl⟩
  | ordinary hc hne reads =>
      rw [reads, reads]
      exact parallel_ordinary hframes hframes' hc (fun heq ↦ absurd heq hne) hplain hplain'
        (fun _ ↦ rfl) (by simp) ⟨rfl, rfl⟩

section Inside

variable {frame : Frame} {rest : List Frame}

theorem any_isDouble_append (frames : List Frame) (h : ∀ frame ∈ extra, frame.isDouble = false) :
    (commandFrames (frames ++ extra)).any Frame.isDouble =
      (commandFrames frames).any Frame.isDouble := by
  induction frames with
  | nil =>
      have hnone : ∀ frame ∈ commandFrames extra, frame.isDouble = false := fun frame hframe ↦
        h frame (List.takeWhile_subset _ hframe)
      simpa [commandFrames] using hnone
  | cons frame rest ih =>
      unfold commandFrames at ih ⊢
      rw [List.cons_append, List.takeWhile_cons, List.takeWhile_cons]
      split_ifs with hframe
      · rw [List.any_cons, List.any_cons, ih]
      · rfl

/-- Inside a construct a character that is added is added in the same way. -/
theorem parallel_push {s' t' : Scanner} (frames : List Frame) (hs : s.frames = frame :: rest)
    (hpush : Pushed s s' c false frames) (hpush' : Pushed t t' c false (frames ++ extra))
    (quote : s.frames ≠ frames → c ∈ ['\'', '"', '(', ')', '\x7d'])
    (text : ∃ added, s'.piece.text = s.piece.text ++ added ∧
      t'.piece.text = t.piece.text ++ added) :
    Parallel scope scope' c s t extra (s', []) (t', []) :=
  .push false false frames hpush hpush' (fun _ ↦ rfl) (by simp) (fun hnil ↦ by simp [hs] at hnil)
    quote (text.imp fun _ h ↦ ⟨h.1, h.2, by simp⟩)

theorem Pushed.of_same {s' : Scanner} {frames : List Frame} (hmode : s.mode = .plain)
    (hframes : s'.frames = frames) (hmode' : s'.mode = s.mode) (hprevious : s'.previous = s.previous)
    (hraw : s'.piece.raw = s.piece.raw ++ [c]) (hexpands : s'.piece.expands = s.piece.expands) :
    Pushed s s' c false frames :=
  ⟨hframes, hmode'.trans hmode, hprevious, hraw, hexpands.trans (Bool.or_false _).symm⟩

theorem parallel_readSubstitution {opened parens : Nat} (hmode : s.mode = .plain)
    (hmode' : t.mode = .plain) (hs : s.frames = .substitution opened parens :: rest)
    (ht : t.frames = .substitution opened parens :: (rest ++ extra)) :
    Parallel scope scope' c s t extra (s.readSubstitution scope c 0 opened parens, [])
      (t.readSubstitution scope' c 0 opened parens, []) := by
  have hsingle : s.inSingle = false := by simp [inSingle, hs]
  unfold readSubstitution
  split_ifs with h1 h2 h3 h4 h5 h6
  · cases parens with
    | zero =>
        refine parallel_push rest hs (.of_same hmode ?_ rfl rfl rfl rfl)
          (.of_same hmode' ?_ rfl rfl rfl rfl) (fun _ ↦ by simp [h1]) ⟨_, rfl, rfl⟩
        · simp [leave, pushChar, push, hs]
        · simp [leave, pushChar, push, ht]
    | succ n =>
        refine parallel_push (.substitution opened n :: rest) hs (.of_same hmode ?_ rfl rfl rfl rfl)
          (.of_same hmode' ?_ rfl rfl rfl rfl) (fun _ ↦ by simp [h1]) ⟨_, rfl, rfl⟩
        · simp [leave, pushChar, push, enter, hs]
        · simp [leave, pushChar, push, enter, ht]
  · refine parallel_push (.substitution opened (parens + 1) :: rest) hs
      (.of_same hmode ?_ rfl rfl rfl rfl) (.of_same hmode' ?_ rfl rfl rfl rfl)
      (fun _ ↦ by simp [h2]) ⟨_, rfl, rfl⟩
    · simp [leave, pushChar, push, enter, hs]
    · simp [leave, pushChar, push, enter, ht]
  · refine parallel_push (.single 0 :: s.frames) hs (.of_same hmode rfl rfl rfl rfl rfl)
      (.of_same hmode' ?_ rfl rfl rfl rfl) (fun _ ↦ by simp [h3]) ⟨_, rfl, rfl⟩
    simp [pushChar, push, enter, hs, ht]
  · refine parallel_push (.double 0 :: s.frames) hs (.of_same hmode rfl rfl rfl rfl rfl)
      (.of_same hmode' ?_ rfl rfl rfl rfl) (fun _ ↦ by simp [h4]) ⟨_, rfl, rfl⟩
    simp [pushChar, push, enter, hs, ht]
  · exact .backslash hsingle h5
  · exact .dollar hsingle h6
  · refine parallel_push s.frames hs (.of_same hmode rfl rfl rfl rfl rfl)
      (.of_same hmode' ?_ rfl rfl rfl rfl) (fun hne ↦ absurd rfl hne) ⟨_, rfl, rfl⟩
    simp [pushChar, push, hs, ht]

theorem parallel_readParameter {place : Nat} (hmode : s.mode = .plain) (hmode' : t.mode = .plain)
    (hs : s.frames = .parameter place :: rest)
    (ht : t.frames = .parameter place :: (rest ++ extra))
    (hdouble : (commandFrames t.frames).any Frame.isDouble =
      (commandFrames s.frames).any Frame.isDouble) :
    Parallel scope scope' c s t extra (s.readParameter scope c 0, [])
      (t.readParameter scope' c 0, []) := by
  have hsingle : s.inSingle = false := by simp [inSingle, hs]
  unfold readParameter
  rw [hdouble]
  split_ifs with h1 h2 h3 h4 h5
  · refine parallel_push rest hs (.of_same hmode ?_ rfl rfl rfl rfl)
      (.of_same hmode' ?_ rfl rfl rfl rfl) (fun _ ↦ by simp [h1]) ⟨_, rfl, rfl⟩
    · simp [leave, pushChar, push, hs]
    · simp [leave, pushChar, push, ht]
  · refine parallel_push (.double 0 :: s.frames) hs (.of_same hmode rfl rfl rfl rfl rfl)
      (.of_same hmode' ?_ rfl rfl rfl rfl) (fun _ ↦ by simp [h2]) ⟨_, rfl, rfl⟩
    simp [pushChar, push, enter, hs, ht]
  · refine parallel_push (.single 0 :: s.frames) hs (.of_same hmode rfl rfl rfl rfl rfl)
      (.of_same hmode' ?_ rfl rfl rfl rfl) (fun _ ↦ by simp [h3.1]) ⟨_, rfl, rfl⟩
    simp [pushChar, push, enter, hs, ht]
  · exact .backslash hsingle h4
  · exact .dollar hsingle h5
  · refine parallel_push s.frames hs (.of_same hmode rfl rfl rfl rfl rfl)
      (.of_same hmode' ?_ rfl rfl rfl rfl) (fun hne ↦ absurd rfl hne) ⟨_, rfl, rfl⟩
    simp [pushChar, push, hs, ht]

end Inside

theorem parallel_readChar (h : Within s t extra) (hmode : s.mode = .plain)
    (hmode' : t.mode = .plain)
    (hhash : s.frames = [] → c = '#' → t.atWordStart = s.atWordStart) :
    Parallel scope scope' c s t extra (s.readChar scope c 0) (t.readChar scope' c 0) := by
  have hframes := h.frames
  cases hs : s.frames with
  | nil =>
      obtain rfl : extra = [] := h.around.resolve_right fun hne ↦ hne hs
      have ht : t.frames = [] := by rw [hframes, hs, List.append_nil]
      unfold readChar
      rw [hs, ht]
      exact parallel_readBare hmode hmode' hs ht (hhash hs)
  | cons frame rest =>
      have ht : t.frames = frame :: (rest ++ extra) := by rw [hframes, hs, List.cons_append]
      have hkeep : Parallel scope scope' c s t extra (s.pushChar scope c, [])
          (t.pushChar scope' c, []) := by
        refine parallel_push s.frames hs (.of_same hmode rfl rfl rfl rfl rfl)
          (.of_same hmode' ?_ rfl rfl rfl rfl) (fun hne ↦ absurd rfl hne) ⟨_, rfl, rfl⟩
        simp [pushChar, push, hs, ht]
      have hclose : c ∈ ['\'', '"', '(', ')', '\x7d'] → Parallel scope scope' c s t extra
          (s.leave.pushSyntax scope c, []) (t.leave.pushSyntax scope' c, []) := by
        intro hc
        refine parallel_push rest hs (.of_same hmode ?_ rfl rfl rfl rfl)
          (.of_same hmode' ?_ rfl rfl rfl rfl) (fun _ ↦ hc) ⟨_, rfl, rfl⟩
        · simp [leave, pushSyntax, push, hs]
        · simp [leave, pushSyntax, push, ht]
      unfold readChar
      rw [hs, ht]
      cases frame with
      | single place =>
          dsimp only
          split_ifs with h1
          · exact hclose (by simp [h1])
          · exact hkeep
      | double place =>
          have hsingle : s.inSingle = false := by simp [inSingle, hs]
          dsimp only
          split_ifs with h1 h2 h3
          · exact hclose (by simp [h1])
          · exact .backslash hsingle h2
          · exact .dollar hsingle h3
          · exact hkeep
      | substitution opened parens => exact parallel_readSubstitution hmode hmode' hs ht
      | parameter place =>
          refine parallel_readParameter hmode hmode' hs ht ?_
          rw [hframes]
          exact any_isDouble_append _ h.double

end Scanner

end ShellTemplate
