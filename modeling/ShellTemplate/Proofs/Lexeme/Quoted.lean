import ShellTemplate.Proofs.Lexeme.Reads

/-!
# Written texts are inert

A text that is written for its context, whatever characters it holds, is read
as a part of the word that is going on: nothing else opens, closes or completes.
-/

namespace ShellTemplate

/-- The piece grew by `raw`, which stands for `text`, and these frames are open now. -/
structure Grown (s t : Scanner) (raw text : List Char) (frames : List Frame) : Prop where
  frames : t.frames = frames
  mode : t.mode = .plain
  previous : t.previous = s.previous
  raw : t.piece.raw = s.piece.raw ++ raw
  text : t.piece.text = s.piece.text ++ text
  expands : t.piece.expands = s.piece.expands

/-- Reading `raw` completes nothing and makes the piece grow. -/
def Grows (scope : Scope) (s : Scanner) (raw text : List Char) (frames : List Frame) : Prop :=
  ∃ t, Reads scope s raw (.ok (t, [])) ∧ Grown s t raw text frames

/-- A text may stand here as a word of its own: outside quotes, or directly in a command
substitution. -/
def holdsWords : List Frame → Bool
  | [] => true
  | frame :: _ => frame.isSubstitution

namespace Grows

variable {scope : Scope} {s : Scanner}

theorem refl (hmode : s.mode = .plain) : Grows scope s [] [] s.frames :=
  ⟨s, .nil, rfl, hmode, rfl, by simp, by simp, rfl⟩

theorem append {raw raw' text text' : List Char} {frames frames' : List Frame}
    (h : Grows scope s raw text frames)
    (h' : ∀ t, t.frames = frames → t.mode = .plain → Grows scope t raw' text' frames') :
    Grows scope s (raw ++ raw') (text ++ text') frames' := by
  obtain ⟨t, hreads, hgrown⟩ := h
  obtain ⟨u, hreads', hgrown'⟩ := h' t hgrown.frames hgrown.mode
  exact ⟨u, hreads.append hreads',
    { frames := hgrown'.frames
      mode := hgrown'.mode
      previous := hgrown'.previous.trans hgrown.previous
      raw := by rw [hgrown'.raw, hgrown.raw, List.append_assoc]
      text := by rw [hgrown'.text, hgrown.text, List.append_assoc]
      expands := hgrown'.expands.trans hgrown.expands }⟩

theorem of_readChar {c : Char} {t : Scanner} {text : List Char} {frames : List Frame}
    (hmode : s.mode = .plain) (hbody : ¬ s.OpensBodyAt scope c)
    (hread : s.readChar scope c 0 = (t, [])) (hgrown : Grown s t [c] text frames) :
    Grows scope s [c] text frames := by
  have hreads := Reads.char hbody
  rw [Scanner.stepChar_of_plain hmode, hread] at hreads
  exact ⟨t, hreads, hgrown⟩

end Grows

/-- What an opening single quote stands for: nothing outside all frames, itself in an
expansion. -/
def quoteText (frames : List Frame) : List Char := if frames = [] then [] else ['\'']

namespace Scanner

variable {scope : Scope} {s : Scanner} {outer : List Frame}

theorem grows_openQuote (hmode : s.mode = .plain) (hwords : holdsWords s.frames = true) :
    Grows scope s ['\''] (quoteText s.frames) (.single 0 :: s.frames) := by
  have hbody : ¬ s.OpensBodyAt scope '\'' := not_opensBodyAt_of_ne (by decide)
  cases hframes : s.frames with
  | nil =>
      have hread : s.readChar scope '\'' 0 = ((s.pushSyntax scope '\'').enter (.single 0), []) := by
        simp [readChar, hframes, readBare]
      exact .of_readChar hmode hbody hread ⟨by simp [enter, pushSyntax, push, hframes], hmode, rfl,
        rfl, by simp [enter, pushSyntax, push, quoteText], rfl⟩
  | cons frame rest =>
      cases frame with
      | substitution opened parens =>
          have hread : s.readChar scope '\'' 0 = ((s.pushChar scope '\'').enter (.single 0), []) := by
            simp [readChar, hframes, readSubstitution]
          exact .of_readChar hmode hbody hread ⟨by simp [enter, pushChar, push, hframes], hmode, rfl,
            rfl, by simp [enter, pushChar, push, quoteText], rfl⟩
      | single | double | parameter => simp [hframes, holdsWords, Frame.isSubstitution] at hwords

theorem grows_closeQuote (hmode : s.mode = .plain) (hframes : s.frames = .single 0 :: outer) :
    Grows scope s ['\''] [] outer := by
  have hread : s.readChar scope '\'' 0 = (s.leave.pushSyntax scope '\'', []) := by
    simp [readChar, hframes]
  exact .of_readChar hmode (not_opensBodyAt_of_ne (by decide)) hread
    ⟨by simp [leave, pushSyntax, push, hframes], hmode, rfl, rfl, rfl, rfl⟩

theorem grows_single {c : Char} (hmode : s.mode = .plain) (hframes : s.frames = .single 0 :: outer)
    (hc : c ≠ '\'') : Grows scope s [c] [c] (.single 0 :: outer) := by
  have hread : s.readChar scope c 0 = (s.pushChar scope c, []) := by
    simp [readChar, hframes, hc]
  exact .of_readChar hmode (not_opensBodyAt_of_single hmode hframes) hread
    ⟨hframes, hmode, rfl, rfl, rfl, rfl⟩

theorem grows_double {c : Char} (hmode : s.mode = .plain) (hframes : s.frames = .double 0 :: outer)
    (hc : isSpecialInDouble c = false) : Grows scope s [c] [c] (.double 0 :: outer) := by
  simp only [isSpecialInDouble, Bool.or_eq_false_iff, decide_eq_false_iff_not] at hc
  have hread : s.readChar scope c 0 = (s.pushChar scope c, []) := by
    simp [readChar, hframes, hc]
  exact .of_readChar hmode (not_opensBodyAt_of_ne hc.2) hread ⟨hframes, hmode, rfl, rfl, rfl, rfl⟩

theorem readChar_backslash (hsingle : s.inSingle = false) (place : Nat) :
    s.readChar scope '\\' place = (s.readBackslash scope, []) := by
  unfold readChar
  split
  · simp [readBare]
  · rename_i hframes
    simp [inSingle, hframes] at hsingle
  · simp
  · simp [readSubstitution]
  · simp [readParameter]

theorem reads_escaped (c : Char) (hmode : s.mode = .plain) (hsingle : s.inSingle = false) :
    Reads scope s ['\\', c] (.ok ((s.readBackslash scope).readEscaped scope c, [])) := by
  have hbackslash : Reads scope s ['\\'] (.ok (s.readBackslash scope, [])) := by
    have hreads : Reads scope s ['\\'] _ := Reads.char (not_opensBodyAt_of_ne (by decide))
    rwa [stepChar_of_plain hmode, readChar_backslash hsingle] at hreads
  have hescaped : Reads scope (s.readBackslash scope) [c]
      (.ok ((s.readBackslash scope).readEscaped scope c, [])) := by
    have hmode' : (s.readBackslash scope).mode = .escape := rfl
    have hreads : Reads scope (s.readBackslash scope) [c] _ :=
      Reads.char (not_opensBodyAt_of_escape hmode')
    have hstep : (s.readBackslash scope).stepChar scope c 0 =
        ((s.readBackslash scope).readEscaped scope c, []) := by
      simp [stepChar, complete?, hmode']
    rwa [hstep] at hreads
  exact hbackslash.append hescaped

theorem grows_escaped {c : Char} (hmode : s.mode = .plain) (hsingle : s.inSingle = false)
    (hne : c ≠ '\n')
    (hc : isSpecialInDouble c = true ∨ ∀ frame ∈ s.frames.head?, frame.isDouble = false) :
    Grows scope s ['\\', c] [c] s.frames := by
  have hfields := @readEscaped_fields scope (s.readBackslash scope) c
  have htext := @readEscaped_text scope (s.readBackslash scope) c hne hc
  refine ⟨_, reads_escaped c hmode hsingle, hfields.frames, hfields.mode, hfields.previous, ?_, ?_,
    hfields.expands⟩
  · rw [hfields.raw]
    simp [readBackslash, pushSyntax, push, inMode]
  · rw [htext]
    simp [readBackslash, pushSyntax, push, inMode]

/-- A text in single quotes, up to the closing one. -/
def singleText (outer : List Frame) (text : List Char) : List Char :=
  text.flatMap fun c ↦ if c = '\'' then '\'' :: quoteText outer else [c]

theorem singleText_nil (text : List Char) : singleText [] text = text := by
  have hchar : (fun c : Char ↦ if c = '\'' then '\'' :: quoteText [] else [c]) = fun c ↦ [c] := by
    funext c
    split_ifs with h <;> simp [quoteText, h]
  rw [singleText, hchar, List.flatMap_singleton']

theorem inSingle_of_holdsWords (h : holdsWords s.frames = true) : s.inSingle = false := by
  unfold inSingle
  split
  · rename_i hframes
    simp [hframes, holdsWords, Frame.isSubstitution] at h
  · rfl

/-- Closing, escaping and reopening gives a single quote. -/
theorem grows_quote (hmode : s.mode = .plain) (hframes : s.frames = .single 0 :: outer)
    (houter : holdsWords outer = true) : Grows scope s ['\'', '\\', '\'', '\'']
      ('\'' :: quoteText outer) (.single 0 :: outer) := by
  have hclose : Grows scope s ['\''] [] outer := grows_closeQuote hmode hframes
  refine hclose.append fun t ht hplain ↦ ?_
  have hsingle : t.inSingle = false := inSingle_of_holdsWords (by rwa [ht])
  have hescaped : Grows scope t ['\\', '\''] ['\''] t.frames := by
    refine grows_escaped hplain hsingle (by decide) (.inr fun frame hframe ↦ ?_)
    rw [ht] at hframe
    cases outer with
    | nil => simp at hframe
    | cons first rest =>
        obtain rfl : first = frame := by simpa using hframe
        cases first <;> first | rfl | simp [holdsWords, Frame.isSubstitution] at houter
  refine (hescaped.append fun u hu hplain' ↦ ?_)
  have hopen := @grows_openQuote scope u hplain' (by rwa [hu, ht])
  rwa [hu, ht] at hopen

theorem grows_escapeSingle (text : List Char) (hmode : s.mode = .plain)
    (hframes : s.frames = .single 0 :: outer) (houter : holdsWords outer = true) :
    Grows scope s (escapeSingle text) (singleText outer text) (.single 0 :: outer) := by
  induction text generalizing s with
  | nil => exact hframes ▸ .refl hmode
  | cons c rest ih =>
      have hraw : escapeSingle (c :: rest) =
          (if c = '\'' then ['\'', '\\', '\'', '\''] else [c]) ++ escapeSingle rest := by
        simp [escapeSingle]
      have htext : singleText outer (c :: rest) =
          (if c = '\'' then '\'' :: quoteText outer else [c]) ++ singleText outer rest := by
        simp [singleText]
      rw [hraw, htext]
      split_ifs with hc
      · exact (grows_quote hmode hframes houter).append fun t ht hplain ↦ ih hplain ht
      · exact (grows_single hmode hframes hc).append fun t ht hplain ↦ ih hplain ht

theorem grows_singleQuote (text : List Char) (hmode : s.mode = .plain)
    (hwords : holdsWords s.frames = true) : Grows scope s (singleQuote text)
      (quoteText s.frames ++ singleText s.frames text) s.frames := by
  have hopen := @grows_openQuote scope s hmode hwords
  have hclosed := (hopen.append fun t ht hplain ↦
    grows_escapeSingle text hplain ht hwords).append fun t ht hplain ↦ grows_closeQuote hplain ht
  simpa [singleQuote] using hclosed

theorem grows_escapeDouble (text : List Char) (hmode : s.mode = .plain)
    (hframes : s.frames = .double 0 :: outer) :
    Grows scope s (escapeDouble text) text (.double 0 :: outer) := by
  induction text generalizing s with
  | nil => exact hframes ▸ .refl hmode
  | cons c rest ih =>
      have hraw : escapeDouble (c :: rest) =
          (if isSpecialInDouble c then ['\\', c] else [c]) ++ escapeDouble rest := by
        simp [escapeDouble, escapeBefore]
      rw [hraw, ← List.singleton_append]
      split_ifs with hc
      · have hsingle : s.inSingle = false := by simp [inSingle, hframes]
        have hne : c ≠ '\n' := by
          rintro rfl
          simp [isSpecialInDouble] at hc
        have hescaped := @grows_escaped scope s c hmode hsingle hne (.inl hc)
        exact hescaped.append fun t ht hplain ↦ ih hplain (ht.trans hframes)
      · exact (grows_double hmode hframes (by simpa using hc)).append fun t ht hplain ↦ ih hplain ht

end Scanner

end ShellTemplate
