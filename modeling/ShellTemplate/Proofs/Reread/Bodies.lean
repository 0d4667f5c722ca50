import ShellTemplate.Proofs.Lexeme.Ends
import ShellTemplate.Proofs.Reread.Values

/-!
# Reading a backtick body

The body of a backtick substitution is written without its holes' outermost
backslashes and read by a scanner of its own, which finds the same text. So the
substitution as a whole is read as it is written.
-/

namespace ShellTemplate

namespace Scanner

variable {strict : Prop} {b : Nat} {scope : Scope} {s s' t : Scanner} {tokens more : List Token}

/-- Splicing lexemes without holes adds their text to the piece. -/
structure Spliced (s t : Scanner) (text : List Char) : Prop where
  frames : t.frames = s.frames
  mode : t.mode = s.mode
  previous : t.previous = s.previous
  raw : t.piece.raw = s.piece.raw ++ text
  text : t.piece.text = s.piece.text
  expands : t.piece.expands = s.piece.expands

theorem spliced_push (raw : List Char) : Spliced s (s.push scope raw []) raw :=
  ⟨rfl, rfl, rfl, rfl, List.append_nil _, rfl⟩

theorem Spliced.trans {u : Scanner} {text text' : List Char} (h : Spliced s t text)
    (h' : Spliced t u text') : Spliced s u (text ++ text') where
  frames := h'.frames.trans h.frames
  mode := h'.mode.trans h.mode
  previous := h'.previous.trans h.previous
  raw := by rw [h'.raw, h.raw, List.append_assoc]
  text := h'.text.trans h.text
  expands := h'.expands.trans h.expands

theorem spliced_of_filled {lexemes : List Lexeme} (h : Filled lexemes) (s : Scanner) :
    ∃ t, spliceLexemes scope lexemes s = (t, []) ∧
      Spliced s t (escapeBackticks (plainText (lexemes.map Lexeme.token))) := by
  induction lexemes generalizing s with
  | nil => exact ⟨s, rfl, rfl, rfl, rfl, (List.append_nil _).symm, rfl, rfl⟩
  | cons lexeme rest ih =>
      obtain ⟨token, quoting, enclosing⟩ := lexeme
      obtain ⟨htoken, hrest⟩ := Filled.cons_iff.1 h
      have hpush : ∃ t, spliceLexemes scope rest
          (s.push scope (escapeBackticks token.text) []) = (t, []) ∧ Spliced s t
            (escapeBackticks (plainText (token :: rest.map Lexeme.token))) := by
        obtain ⟨t, hsplice, hspliced⟩ := ih hrest (s.push scope (escapeBackticks token.text) [])
        refine ⟨t, hsplice, ?_⟩
        rw [plainText_cons, escapeBackticks_append]
        exact (spliced_push _).trans hspliced
      cases token with
      | hole index => cases htoken
      | piece p => exact hpush
      | operator op => exact hpush
      | blank => exact hpush

section Filling

variable {options : FillOptions} {values : List Value} {own : List Token} {index : Nat}

theorem continues_push (raw : List Char) :
    Continues b s tokens (s.push scope raw []) tokens raw false := by
  refine continues_of_raw b tokens rfl rfl (Bool.or_false _).symm fun hempty hnil ↦ ?_
  obtain ⟨hraw, hnone⟩ := List.append_eq_nil_iff.1 hnil
  simp [push, hempty hraw, hnone]

/-- A text in a hole continues the word by what is written for it. -/
theorem continues_emitHole (hempty : s.piece.raw = [] → s.piece = {})
    (hnumber : NotDigits ((assembly tokens).wordWith s.piece).raw) {quoting : Quoting}
    {enclosing : Enclosing} (hholds : HoldsText values index)
    (hfill : fill options values
      ((s.emitHole index quoting enclosing).2.map (Lexeme.lower b)) = .ok own) :
    ∃ value hole, values[index]? = some value ∧
      fillHole options quoting (enclosing.lower b) value = .ok hole ∧
      Continues b s tokens (s.emitHole index quoting enclosing).1 (tokens ++ own) (plainText hole)
        false := by
  rw [emitHole_eq hempty] at hfill ⊢
  obtain ⟨own, hown, rfl⟩ := Filled.flush.fill_front_lower_iff.1 hfill
  obtain ⟨value, hole, none, hvalue, hhole, hnone, rfl⟩ := fill_hole_eq_ok_iff.1 hown
  cases hnone
  obtain ⟨text, htext⟩ := Option.isSome_iff_exists.1 (hholds value hvalue)
  refine ⟨value, hole, hvalue, hhole, ?_⟩
  rw [fillHole_of_text htext] at hhole
  split at hhole
  · cases hhole
  · cases hhole
    have hpiece := continues_piece (b := b) hempty
      (p := literalPiece quoting (enclosing.lower b) text) rfl (hnumber.append_left _)
    simpa [plainText, Token.text] using hpiece

theorem continues_splice {lexemes : List Lexeme} (hdeep : Deep (b + 1) lexemes)
    (hunbare : Unbare lexemes) (hholds : HoldTexts values lexemes)
    (hempty : s.piece.raw = [] → s.piece = {})
    (hnumber : NotDigits ((assembly tokens).wordWith s.piece).raw)
    (hfill : fill options values
      ((spliceLexemes scope lexemes s).2.map (Lexeme.lower b)) = .ok own) :
    ∃ inner, fill options values (lexemes.map (Lexeme.lower (b + 1))) = .ok inner ∧
      Continues b s tokens (spliceLexemes scope lexemes s).1 (tokens ++ own)
        (escapeBackticks (plainText inner)) false := by
  induction lexemes generalizing s tokens own with
  | nil =>
      cases hfill
      exact ⟨[], rfl, by simpa [spliceLexemes] using .refl b s tokens⟩
  | cons lexeme rest ih =>
      obtain ⟨token, quoting, enclosing⟩ := lexeme
      have hdeep' : Deep (b + 1) rest := fun l hl ↦ hdeep l (by simp [hl])
      have hunbare' : Unbare rest := fun l hl ↦ hunbare l (by simp [hl])
      have hholds' : HoldTexts values rest := fun l hl ↦ hholds l (by simp [hl])
      have hgo : ∀ {u : Scanner} {tokens' own' : List Token} {text : List Char},
          Continues b s tokens u tokens' (escapeBackticks text) false →
          fill options values ((spliceLexemes scope rest u).2.map (Lexeme.lower b)) = .ok own' →
          ∃ inner, fill options values (rest.map (Lexeme.lower (b + 1))) = .ok inner ∧
            Continues b s tokens (spliceLexemes scope rest u).1 (tokens' ++ own')
              (escapeBackticks (text ++ plainText inner)) false := by
        intro u tokens' own' text hcontinues hrest
        obtain ⟨inner, hinner, hmore⟩ := ih hdeep' hunbare' hholds' (hcontinues.empty hempty)
          (hcontinues.raw ▸ hnumber.append_left _) hrest
        refine ⟨inner, hinner, ?_⟩
        rw [escapeBackticks_append]
        exact hcontinues.trans hmore
      have hpush : token.isHole = false →
          fill options values ((spliceLexemes scope rest
            (s.push scope (escapeBackticks token.text) [])).2.map (Lexeme.lower b)) = .ok own →
          ∃ inner, fill options values
              ((⟨token, quoting, enclosing⟩ :: rest).map (Lexeme.lower (b + 1))) = .ok inner ∧
            Continues b s tokens (spliceLexemes scope rest
              (s.push scope (escapeBackticks token.text) [])).1 (tokens ++ own)
                (escapeBackticks (plainText inner)) false := by
        intro htoken hrest
        obtain ⟨inner, hinner, hcontinues⟩ := hgo (continues_push _) hrest
        refine ⟨token :: inner, ?_, hcontinues⟩
        rw [List.map_cons, fill_cons_of_not_hole htoken, hinner]
        rfl
      cases token with
      | piece p => exact hpush rfl hfill
      | operator op => exact hpush rfl hfill
      | blank => exact hpush rfl hfill
      | hole index =>
          rw [spliceLexemes, Step.andThen_snd, List.map_append] at hfill
          obtain ⟨first, second, hfirst, hsecond, rfl⟩ := fill_append_eq_ok_iff.1 hfill
          obtain ⟨value, hole, hvalue, hhole, hcontinues⟩ :=
            continues_emitHole hempty hnumber (hholds _ List.mem_cons_self index rfl) hfirst
          obtain ⟨own, hown, htext⟩ := fillHole_lower (hunbare _ List.mem_cons_self rfl)
            (hdeep _ List.mem_cons_self rfl) hhole
          rw [htext] at hcontinues
          obtain ⟨inner, hinner, hmore⟩ := hgo hcontinues hsecond
          refine ⟨own ++ inner, fill_hole_eq_ok_iff.2 ⟨value, own, inner, hvalue, hown, hinner,
            rfl⟩, ?_⟩
          rw [plainText_append, ← List.append_assoc]
          exact hmore

end Filling

theorem Keeps.settled (h : Keeps strict b scope s tokens) (hs : s.Sound)
    (hscope : b = 0 → scope = {}) :
    Follows strict b scope (fun d ↦ d = ' ') (s.settle scope).1
        (tokens ++ (s.settle scope).2.map Lexeme.token) ∧
      (b = 0 → (assembly (tokens ++ (s.settle scope).2.map Lexeme.token)).word = none →
        Closes strict (written 0 (tokens ++ (s.settle scope).2.map Lexeme.token))
          (assembly (tokens ++ (s.settle scope).2.map Lexeme.token)).parts) := by
  by_cases hcomment : s.mode = .comment
  · have hsettle : s.settle scope = (s, []) := by simp [Scanner.settle, hcomment]
    have hfollows := h.follows
    rw [nextChar, hcomment] at hfollows
    rw [hsettle, List.map_nil, List.append_nil]
    exact ⟨hfollows.weaken fun _ hd ↦ .inr hd, h.closes⟩
  · have hnone : s.complete? scope ' ' = none := by
      have hescape := h.unescaped
      unfold complete?
      split <;> simp_all
    have hready := h.settle hs hscope hnone
    rw [settleBefore_blank] at hready
    exact ⟨hready.follows, hready.closes⟩

/-- The line of a scanner that ends without an error is read to its end. -/
theorem Keeps.finish (h : Keeps strict b scope s tokens) (hs : s.Sound)
    (hscope : b = 0 → scope = {}) {final : List Lexeme} (hfinish : s.finish scope = .ok final) :
    (∃ lexemes, scanAll scope (charItems (written b (tokens ++ final.map Lexeme.token))) =
        .ok lexemes ∧
      (b ≠ 0 → plainText (lexemes.map Lexeme.token) =
        written b (tokens ++ final.map Lexeme.token))) ∧
      (b = 0 → Closes strict (written 0 (tokens ++ final.map Lexeme.token))
        (assembly (tokens ++ final.map Lexeme.token)).finish) := by
  unfold Scanner.finish at hfinish
  split at hfinish
  · cases hfinish
  rename_i hbare
  rw [if_neg h.unescaped] at hfinish
  cases hfinish
  obtain ⟨hfollows, hcloses⟩ := h.settled hs hscope
  have hframes : (s.settle scope).1.frames = [] := by
    by_cases hcomment : s.mode = .comment
    · simp [Scanner.settle, hcomment, hbare]
    · exact (settle_settlement hcomment h.unescaped).frames.trans hbare
  rw [Step.andThen_snd, List.map_append, ← List.append_assoc, written_flush]
  refine ⟨?_, fun hb ↦ ?_⟩
  · obtain ⟨lexemes, hscan, _, htext⟩ := hfollows.finish hframes
    exact ⟨lexemes, hscan, htext⟩
  · subst hb
    rw [written_flush, assembly_append, addAll_flush]
    exact hfollows.closes_endWord (hscope rfl) hframes (hcloses rfl)

section Body

variable {options : FillOptions} {values : List Value} {own : List Token} {lexemes : List Lexeme}

/-- Between plain states the piece has grown by a text that expands. -/
structure GrownBody (s t : Scanner) (raw : List Char) : Prop where
  frames : t.frames = s.frames
  mode : t.mode = .plain
  previous : t.previous = s.previous
  raw : t.piece.raw = s.piece.raw ++ raw
  text : t.piece.text = s.piece.text
  expands : t.piece.expands = (s.piece.expands || true)

theorem spliceBody_filled {read : List Lexeme} (hfilled : Filled read) (hmode : t.mode = .plain) :
    ∃ u, t.spliceBody scope read = (u, []) ∧
      GrownBody t u ('\x60' :: escapeBackticks (plainText (read.map Lexeme.token)) ++ ['\x60']) := by
  obtain ⟨v, hsplice, hspliced⟩ :=
    @spliced_of_filled scope read hfilled (t.pushSyntax scope '\x60').markExpands
  refine ⟨v.pushSyntax scope '\x60', ?_, hspliced.frames, hspliced.mode.trans hmode,
    hspliced.previous, ?_, ?_, ?_⟩
  · rw [Scanner.spliceBody, hsplice]
    rfl
  · simp [pushSyntax, push, hspliced.raw, markExpands]
  · simp [pushSyntax, push, hspliced.text, markExpands]
  · simp [pushSyntax, push, hspliced.expands, markExpands]

/-- A substitution whose body reads as its own text completes nothing. -/
theorem reads_body (hmode : t.mode = .plain) (hopen : t.opensBody = true) {text : List Char}
    {read : List Lexeme} (hscan : scanAll (scope.body t.frames) (charItems text) = .ok read)
    (htext : plainText (read.map Lexeme.token) = text) :
    ∃ u, Reads scope t ('\x60' :: escapeBackticks text ++ ['\x60']) (.ok (u, [])) ∧
      GrownBody t u ('\x60' :: escapeBackticks text ++ ['\x60']) := by
  have hopened : t.OpensBodyAt scope '\x60' := by
    refine ⟨complete?_of_plain hmode _, rfl, ?_⟩
    rwa [settleBefore_of_plain hmode]
  have hreads := Reads.body hopened text
  obtain ⟨u, hsplice, hgrown⟩ :=
    @spliceBody_filled scope t _ (filled_of_scanAll hscan) hmode
  have hstep : t.stepBody scope read = (u, []) := by
    rw [stepBody, settleBefore_of_plain hmode, Step.andThen, hsplice]
    rfl
  rw [bodyScope, settleBefore_of_plain hmode, hscan, Except.map, hstep] at hreads
  rw [htext] at hgrown
  exact ⟨u, hreads, hgrown⟩

/-- A body continues the word by what is written for it between two backticks. -/
theorem continues_spliceBody (hs : s.Sound) (hmode : s.mode = .plain) (hdeep : Deep (b + 1) lexemes)
    (hunbare : Unbare lexemes) (hholds : HoldTexts values lexemes)
    (hfill : fill options values ((s.spliceBody scope lexemes).2.map (Lexeme.lower b)) = .ok own) :
    ∃ inner, fill options values (lexemes.map (Lexeme.lower (b + 1))) = .ok inner ∧
      Continues b s tokens (s.spliceBody scope lexemes).1 (tokens ++ own)
        ('\x60' :: escapeBackticks (plainText inner) ++ ['\x60']) true := by
  have hopened : Pushed s (s.pushSyntax scope '\x60').markExpands '\x60' true s.frames :=
    ⟨rfl, hmode, rfl, rfl, (Bool.or_true _).symm⟩
  have hfirst := hopened.continues b tokens
  rw [Scanner.spliceBody, Step.andThen_snd, List.append_nil] at hfill
  have hnumber : NotDigits
      ((assembly tokens).wordWith (s.pushSyntax scope '\x60').markExpands.piece).raw :=
    hfirst.raw ▸ ⟨'\x60', by simp, rfl⟩
  obtain ⟨inner, hinner, hsecond⟩ := continues_splice hdeep hunbare hholds
    (hfirst.empty (hs.piece_empty hmode)) hnumber hfill
  exact ⟨inner, hinner, hfirst.trans (hsecond.trans (continues_push ['\x60']))⟩

theorem Ready.spliceBody (h : Ready strict b scope '\x60' s tokens) (hs : s.Sound)
    (hopen : s.opensBody = true) (hdeep : Deep (b + 1) lexemes) (hunbare : Unbare lexemes)
    (hvalues : ∀ value ∈ values, value.literalText?.isSome = true)
    (hfill : fill options values ((s.spliceBody scope lexemes).2.map (Lexeme.lower b)) = .ok own)
    (hread : ∀ inner, fill options values (lexemes.map (Lexeme.lower (b + 1))) = .ok inner →
      ∃ read, scanAll (scope.body s.frames) (charItems (plainText inner)) = .ok read ∧
        plainText (read.map Lexeme.token) = plainText inner) :
    Keeps strict b scope (s.spliceBody scope lexemes).1 (tokens ++ own) := by
  have hmode := h.mode
  obtain ⟨inner, hinner, hcontinues⟩ := continues_spliceBody hs hmode hdeep hunbare
    (fun _ _ index _ ↦ holdsText_of_texts hvalues index) hfill
  obtain ⟨hframes, hplain⟩ := spliceBody_frames scope lexemes s
  obtain ⟨read, hscan, htext⟩ := hread inner hinner
  have hfollows : Follows strict b scope (fun _ ↦ True) (s.spliceBody scope lexemes).1
      (tokens ++ own) := by
    refine h.follows.extend '\x60' _ rfl hcontinues.line fun t more ht ↦ ?_
    rw [← ht.frames] at hscan
    obtain ⟨u, hreads, hbody⟩ :=
      reads_body ht.mode ((opensBody_of_frames ht.frames).trans hopen) hscan htext
    have hcontinues' := continues_of_raw b more hbody.previous hbody.raw hbody.expands
      fun _ hnil ↦ by simp [hbody.raw] at hnil
    have haligned := ht.grow hcontinues hcontinues' (.refl true)
      (hbody.frames.trans (ht.frames.trans hframes.symm)) hbody.mode
      (hbody.frames ▸ ht.sound.nested) hbody.previous
      (by rw [hcontinues.raw]; simp)
      (fun _ _ ↦ ⟨'\x60', by simp, rfl⟩) fun _ ↦ ⟨'\x60', by simp [List.getLast?_cons], rfl⟩
    rw [← List.append_nil more] at haligned
    exact ⟨u, [], hreads, haligned.alignedFor _⟩
  refine keeps_of_plain (hplain.trans hmode) hfollows (fun _ _ _ hdigits ↦ ?_) fun hb hword ↦ ?_
  · have hdigit := hdigits '\x60' (by simp [Scanner.spliceBody, pushSyntax, Scanner.push])
    cases hdigit
  · have hstill := hcontinues.still hword
    rw [hstill] at hword ⊢
    exact h.closes hb hword

theorem Keeps.stepBody (h : Keeps strict b scope s tokens) (hs : s.Sound)
    (hscope : b = 0 → scope = {}) {c : Char} (hopen : s.OpensBodyAt scope c)
    (hdeep : Deep (b + 1) lexemes) (hunbare : Unbare lexemes)
    (hvalues : ∀ value ∈ values, value.literalText?.isSome = true)
    (hfill : fill options values ((s.stepBody scope lexemes).2.map (Lexeme.lower b)) = .ok own)
    (hread : ∀ inner, fill options values (lexemes.map (Lexeme.lower (b + 1))) = .ok inner →
      ∃ read, scanAll (s.bodyScope scope) (charItems (plainText inner)) = .ok read ∧
        plainText (read.map Lexeme.token) = plainText inner) :
    Keeps strict b scope (s.stepBody scope lexemes).1 (tokens ++ own) := by
  obtain ⟨hnone, rfl, hbody⟩ := hopen
  have hready := h.settle hs hscope hnone
  have hsettlement := settleBefore_settlement hnone
  have hsound := (hs.settlement hsettlement).1
  obtain ⟨more, hmore, rfl⟩ := (Filled.settlement hsettlement).fill_front_lower_iff.1 hfill
  have hkeeps := hready.spliceBody hsound hbody hdeep hunbare hvalues hmore hread
  rwa [List.append_assoc] at hkeeps

end Body

end Scanner

end ShellTemplate
