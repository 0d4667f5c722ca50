import ShellTemplate.Proofs.Reread.Follows

/-!
# What holds between two symbols

Between two symbols of the template the reader of the line follows, and it is
known which characters can be written next. Before a descriptor number is taken
off the line, the reader is known to follow without it; the line may also be
closed without the blanks at its end.
-/

namespace ShellTemplate

namespace Scanner

/-- The characters that can come next on the line. -/
def nextChar (strict : Prop) (s : Scanner) : Char → Prop :=
  match s.mode with
  | .plain => fun _ ↦ True
  | .comment => fun c ↦ c = '\n' ∨ c = ' '
  | .escape => fun _ ↦ False
  | .dollar _ => fun c ↦ c = '$' ∨ c = '\\' ∧ (strict → s.piece.raw.getLast? ≠ some '$')
  | .pipe => fun c ↦ c = '|'
  | .ampersand => fun c ↦ c = '&'
  | .greater none => fun c ↦ c = '>'
  | .less none => fun c ↦ c = '<'
  | .greater (some _) | .less (some _) => fun c ↦ c = ' ' ∨ isDigit c = true

/-- Without the blanks at its end the line reads as these parts, but for newlines. -/
def Closes (strict : Prop) (line : List Char) (parts : List Part) : Prop :=
  ∃ lexemes n, scanAll {} (charItems (line.rdropWhile isBlank)) = .ok lexemes ∧
    List.Forall₂ (Part.Alike (Word.Reread strict)) parts
      ((assembly (lexemes.map Lexeme.token)).finish ++ List.replicate n (.operator .newline))

/-- The reader follows without the digits that are being read. -/
def FollowsDigits (strict : Prop) (b : Nat) (scope : Scope) (s : Scanner) (tokens : List Token) :
    Prop :=
  s.frames = [] → s.previous ≠ .word → s.piece.raw ≠ [] → (∀ c ∈ s.piece.raw, isDigit c = true) →
    Follows strict b scope (fun c ↦ c = ' ' ∨ isDigit c = true) { s with piece := {} } tokens

structure Keeps (strict : Prop) (b : Nat) (scope : Scope) (s : Scanner) (tokens : List Token) :
    Prop where
  follows : Follows strict b scope (nextChar strict s) s tokens
  unescaped : s.mode ≠ .escape
  digits : s.mode = .plain → FollowsDigits strict b scope s tokens
  undescribed : s.mode = .greater none ∨ s.mode = .less none → s.writtenDescriptor? = none
  descriptor : ∀ fd, s.mode.descriptor? = some fd →
    s.piece = {} ∧ s.previous ≠ .word ∧ fd < UInt32.size
  closes : b = 0 → (assembly tokens).word = none →
    Closes strict (written 0 tokens) (assembly tokens).parts

/-- Everything before the character `c` is decided. -/
structure Ready (strict : Prop) (b : Nat) (scope : Scope) (c : Char) (s : Scanner)
    (tokens : List Token) : Prop where
  mode : s.mode = .plain
  follows : Follows strict b scope (fun d ↦ d = c) s tokens
  start : ((assembly tokens).wordWith s.piece).raw = [] →
    Follows strict b scope (fun d ↦ d ∉ ['|', '&', '>']) s tokens
  dollar : c = '$' → Follows strict b scope
    (fun d ↦ d = '$' ∨ d = '\\' ∧ (strict → s.piece.raw.getLast? ≠ some '$')) s tokens
  blank : c ∈ [' ', '\t', '\r', '\n'] → Follows strict b scope (fun d ↦ d = ' ') s tokens
  silent : blankAfter b (s.line b tokens) = [] → Follows strict b scope (fun _ ↦ True) s tokens
  resting : s.piece.raw = [] → s.previous = .blank → Follows strict b scope (fun _ ↦ True) s tokens
  digits : FollowsDigits strict b scope s tokens
  closes : b = 0 → (assembly tokens).word = none →
    Closes strict (written 0 tokens) (assembly tokens).parts

variable {strict : Prop} {b : Nat} {scope : Scope} {s s' t : Scanner} {tokens more : List Token}
  {c : Char}

/-- With nothing undecided in the line, its reader is ready for every character. -/
theorem ready_of_plain (hmode : s.mode = .plain)
    (h : Follows strict b scope (fun _ ↦ True) s tokens)
    (hdigits : FollowsDigits strict b scope s tokens)
    (hcloses : b = 0 → (assembly tokens).word = none →
      Closes strict (written 0 tokens) (assembly tokens).parts) :
    Ready strict b scope c s tokens where
  mode := hmode
  follows := h.weaken fun _ _ ↦ trivial
  start := fun _ ↦ h.weaken fun _ _ ↦ trivial
  dollar := fun _ ↦ h.weaken fun _ _ ↦ trivial
  blank := fun _ ↦ h.weaken fun _ _ ↦ trivial
  silent := fun _ ↦ h
  resting := fun _ _ ↦ h
  digits := hdigits
  closes := hcloses

theorem Keeps.ready (h : Keeps strict b scope s tokens) (hmode : s.mode = .plain) :
    Ready strict b scope c s tokens := by
  have hfollows := h.follows
  simp only [nextChar, hmode] at hfollows
  exact ready_of_plain hmode hfollows (h.digits hmode) h.closes

theorem keeps_of_plain (hmode : s.mode = .plain)
    (h : Follows strict b scope (fun _ ↦ True) s tokens)
    (hdigits : FollowsDigits strict b scope s tokens)
    (hcloses : b = 0 → (assembly tokens).word = none →
      Closes strict (written 0 tokens) (assembly tokens).parts) :
    Keeps strict b scope s tokens where
  follows := by
    simp only [nextChar, hmode]
    exact h
  unescaped := by simp [hmode]
  digits := fun _ ↦ hdigits
  undescribed := by simp [hmode]
  descriptor := by simp [hmode, Mode.descriptor?]
  closes := hcloses

theorem getLast?_of_blankAfter {text : List Char} (h : blankAfter b text = []) :
    b = 0 ∧ ∀ c ∈ text.getLast?, c = ' ' ∨ c = '\n' := by
  unfold blankAfter at h
  split_ifs at h with hb
  exact ⟨hb, gapAfter_eq_nil_iff.1 h⟩

theorem Follows.finish (h : Follows strict b scope (fun d ↦ d = ' ') s tokens)
    (hframes : s.frames = []) :
    ∃ lexemes, scanAll scope (charItems (s.line b tokens)) = .ok lexemes ∧
      List.Forall₂ (Part.Alike (Word.Reread strict)) ((assembly tokens).endWord s.piece).parts
        (assembly (lexemes.map Lexeme.token)).finish ∧
      (b ≠ 0 → plainText (lexemes.map Lexeme.token) = s.line b tokens) := by
  obtain ⟨t, lexemes, hreads, hfor⟩ := h
  obtain ⟨hnone, haligned⟩ := hfor ' ' rfl
  have hbare : t.frames = [] := by
    rw [← (settleBefore_settlement hnone).frames, haligned.frames, hframes]
  have hescape := (plain_of_complete_eq_none hnone).2
  have hfinish : t.finish scope = .ok ((t.settle scope).andThen flush).2 := by
    unfold Scanner.finish
    rw [hbare]
    exact if_neg hescape
  rw [settleBefore_blank] at haligned
  refine ⟨lexemes ++ ((t.settle scope).andThen flush).2,
    scanAll_eq_ok_iff.2 ⟨_, _, hreads.scan_eq, hfinish, rfl⟩, ?_, fun hb ↦ ?_⟩
  · rw [Step.andThen_snd, List.map_append, List.map_append, ← List.append_assoc, assembly_append,
      addAll_flush]
    exact haligned.endWord
  · have hflush := written_flush b (lexemes.map Lexeme.token ++ (t.settle scope).2.map Lexeme.token)
      (t.settle scope).1
    rw [haligned.spelled hb, written, if_neg hb] at hflush
    simpa using hflush

theorem Follows.closes (h : Follows strict b scope (fun d ↦ d = ' ') s tokens)
    (hscope : scope = {}) (hframes : s.frames = [])
    (hlast : ∀ c ∈ (s.line b tokens).getLast?, isBlank c = false) :
    Closes strict (s.line b tokens) ((assembly tokens).endWord s.piece).parts := by
  obtain ⟨lexemes, hscan, hparts, _⟩ := h.finish hframes
  have htrim : (s.line b tokens).rdropWhile isBlank = s.line b tokens := by
    rw [List.rdropWhile_eq_self_iff]
    intro hne
    have hblank := hlast _ (Option.mem_def.2 (List.getLast?_eq_getLast_of_ne_nil hne))
    simp [hblank]
  refine ⟨lexemes, 0, by rwa [htrim, ← hscope], by simpa using hparts⟩

namespace Closes

variable {text : List Char} {parts : List Part}

theorem blank (h : Closes strict text parts) (hc : isBlank c = true) :
    Closes strict (text ++ [c]) parts := by
  unfold Closes
  rwa [List.rdropWhile_concat_pos _ _ _ hc]

theorem newline (h : Closes strict text parts) :
    Closes strict text (parts ++ [.operator .newline]) := by
  obtain ⟨lexemes, n, hscan, hparts⟩ := h
  refine ⟨lexemes, n + 1, hscan, ?_⟩
  rw [List.replicate_succ', ← List.append_assoc]
  exact List.rel_append hparts (.cons (.operator _) .nil)

end Closes

theorem Aligned.word_eq_none (h : Aligned strict b s tokens t more)
    (hraw : ((assembly tokens).wordWith s.piece).raw = []) :
    (assembly tokens).word = none ∧ s.piece.raw = [] := by
  obtain ⟨hword, hpiece⟩ := List.append_eq_nil_iff.1 hraw
  refine ⟨?_, hpiece⟩
  cases hw : (assembly tokens).word with
  | none => rfl
  | some w =>
      rw [hw] at hword
      exact absurd hword (h.started w hw).ne_nil

/-- Whether or not a word is going on, the line can be closed after it. -/
theorem Follows.closes_endWord (h : Follows strict 0 scope (fun d ↦ d = ' ') s tokens)
    (hscope : scope = {}) (hframes : s.frames = [])
    (hcloses : (assembly tokens).word = none →
      Closes strict (written 0 tokens) (assembly tokens).parts) :
    Closes strict (s.line 0 tokens) ((assembly tokens).endWord s.piece).parts := by
  obtain ⟨t, more, haligned, _⟩ := h.exists_aligned rfl
  by_cases hraw : ((assembly tokens).wordWith s.piece).raw = []
  · obtain ⟨hword, hpiece⟩ := haligned.word_eq_none hraw
    rw [line_of_flushed 0 _ hpiece, (haligned.endWord_of_empty hraw).1]
    exact hcloses hword
  · obtain ⟨d, hlast, hblank⟩ := haligned.ends hframes hraw
    refine h.closes hscope hframes fun e he ↦ ?_
    rw [hlast] at he
    cases he
    exact hblank

/-- Only a newline ends in a blank. -/
theorem getLast?_text {op : Operator} (hop : op ≠ .newline) :
    ∃ c, op.text.getLast? = some c ∧ isBlank c = false := by
  cases op with
  | newline => exact absurd rfl hop
  | redirect r =>
      obtain ⟨fd, kind⟩ := r
      cases kind with
      | out | append => exact ⟨'>', by simp [Operator.text, Redirect.text, RedirectKind.text], rfl⟩
      | input => exact ⟨'<', by simp [Operator.text, Redirect.text, RedirectKind.text], rfl⟩
      | dupOut | dupIn => exact ⟨'&', by simp [Operator.text, Redirect.text, RedirectKind.text], rfl⟩
  | _ => exact ⟨_, rfl, rfl⟩

section EmitOperator

variable {op : Operator} (empty : s.piece.raw = [] → s.piece = {})

include empty

theorem getLast?_emitOperator (hlast : op.text.getLast? = some c) :
    ((s.emitOperator op).1.line b
      (tokens ++ (s.emitOperator op).2.map Lexeme.token)).getLast? = some c := by
  rw [line_emitOperator b tokens empty, List.getLast?_append, hlast, Option.some_or]

theorem closes_emitOperator (hop : op ≠ .newline) (hscope : scope = {}) (hbare : s.frames = [])
    (h : Follows strict 0 scope (fun d ↦ d = ' ') (s.emitOperator op).1
      (tokens ++ (s.emitOperator op).2.map Lexeme.token)) :
    Closes strict (written 0 (tokens ++ (s.emitOperator op).2.map Lexeme.token))
      (assembly (tokens ++ (s.emitOperator op).2.map Lexeme.token)).parts := by
  have hpiece : (s.emitOperator op).1.piece = {} := by rw [emitOperator_eq empty]
  have hframes : (s.emitOperator op).1.frames = [] := by rw [emitOperator_eq empty]; exact hbare
  have hword : (assembly (tokens ++ (s.emitOperator op).2.map Lexeme.token)).word = none := by
    rw [assembly_append, addAll_emitOperator]
  obtain ⟨last, hlast, hblank⟩ := getLast?_text hop
  have hcloses := h.closes hscope hframes fun d hd ↦ by
    rw [getLast?_emitOperator empty hlast] at hd
    cases hd
    exact hblank
  rwa [line_of_flushed 0 _ (congrArg Piece.raw hpiece), hpiece,
    Assembly.endWord_of_none hword] at hcloses

theorem closes_newline
    (h : Closes strict (s.line 0 tokens) ((assembly tokens).endWord s.piece).parts) :
    Closes strict (written 0 (tokens ++ (s.emitOperator .newline).2.map Lexeme.token))
      (assembly (tokens ++ (s.emitOperator .newline).2.map Lexeme.token)).parts := by
  have hpiece : (s.emitOperator .newline).1.piece = {} := by rw [emitOperator_eq empty]
  have hgap : operatorGap 0 (s.line 0 tokens) .newline = [] := rfl
  have hline := line_emitOperator 0 tokens empty .newline
  rw [line_of_flushed 0 _ (congrArg Piece.raw hpiece), hgap, List.append_nil] at hline
  rw [hline, assembly_append, addAll_emitOperator]
  exact h.newline.blank rfl

/-- Behind an operator nothing is undecided. -/
theorem keeps_emitOperator (hmode : s.mode = .plain) (hbare : s.frames = [])
    (hscope : b = 0 → scope = {})
    (h : Follows strict b scope (fun _ ↦ True) (s.emitOperator op).1
      (tokens ++ (s.emitOperator op).2.map Lexeme.token))
    (hnewline : op = .newline → b = 0 →
      Closes strict (s.line 0 tokens) ((assembly tokens).endWord s.piece).parts) :
    Keeps strict b scope (s.emitOperator op).1
      (tokens ++ (s.emitOperator op).2.map Lexeme.token) := by
  have hempty : (s.emitOperator op).1.piece = {} := by rw [emitOperator_eq empty]
  refine keeps_of_plain ?_ h (fun _ _ hraw ↦ absurd (congrArg Piece.raw hempty) hraw)
    fun hb _ ↦ ?_
  · rw [emitOperator_eq empty]
    exact hmode
  · subst hb
    by_cases hop : op = .newline
    · subst hop
      exact closes_newline empty (hnewline rfl rfl)
    · exact closes_emitOperator empty hop (hscope rfl) hbare (h.weaken fun _ _ ↦ trivial)

end EmitOperator

/-- The second scanner finds no descriptor number where the first one finds none. -/
theorem Aligned.undescribed (h : Aligned strict b s tokens t more)
    (hnone : s.writtenDescriptor? = none) : t.writtenDescriptor? = none := by
  rw [Option.eq_none_iff_forall_ne_some] at hnone ⊢
  intro fd hfd
  obtain ⟨hexpands, hprevious, hread⟩ := writtenDescriptor?_eq_some_iff.1 hfd
  have hdigits := (digits_of_readDescriptor? hread).2.1
  have hnumber : ¬ NotDigits ((assembly tokens).wordWith s.piece).raw := by
    rintro ⟨c, hc, hdigit⟩
    rw [← h.raw_eq] at hc
    rw [hdigits c hc] at hdigit
    cases hdigit
  have hword : (assembly tokens).word = none := by
    cases hw : (assembly tokens).word with
    | none => rfl
    | some w =>
        refine absurd ?_ hnumber
        have hstarted := h.started w hw
        simpa [Assembly.wordWith, Word.push, hw] using hstarted.append_left s.piece.raw
  have hplain : s.piece.expands = false := by
    have hinside := mt h.inside hnumber
    simpa [Assembly.wordWith, Word.push, hword] using (not_or.1 hinside).2
  have hgoing : s.previous ≠ .word := by
    rw [Ne, h.going, hword]
    simp
  have hraw : t.piece.raw = s.piece.raw := by
    simpa [Assembly.wordWith, Word.push, hword] using h.raw_eq
  exact hnone fd (writtenDescriptor?_eq_some_iff.2 ⟨hplain, hgoing, hraw ▸ hread⟩)

theorem Aligned.reads_pending (h : Aligned strict b s tokens t more) (scope : Scope)
    (hbare : s.frames = []) {pending : Operator} (hpending : s.mode.pending? = some pending)
    (hundescribed : s.mode = .greater none ∨ s.mode = .less none → s.writtenDescriptor? = none)
    (hdescriptor : ∀ fd, s.mode.descriptor? = some fd →
      s.piece = {} ∧ s.previous ≠ .word ∧ fd < UInt32.size) :
    ∃ t' lexemes,
      Reads scope t (operatorGap b (s.line b tokens) pending ++ pending.text) (.ok (t', lexemes)) ∧
        t'.mode = s.mode ∧ Aligned strict b (s.inMode .plain) tokens (t'.inMode .plain)
          (more ++ lexemes.map Lexeme.token) := by
  have hempty : ∀ fd, s.mode.descriptor? = some fd →
      ((assembly tokens).wordWith s.piece).raw = [] := by
    intro fd hfd
    obtain ⟨hpiece, hprevious, _⟩ := hdescriptor fd hfd
    have hword : (assembly tokens).word = none := by
      rw [Ne, h.going] at hprevious
      simpa using hprevious
    simp [Assembly.wordWith, Word.push, hpiece, hword]
  have hread : ∀ u more', Aligned strict b s tokens u more' →
      ∃ t', Reads scope u pending.text (.ok (t', [])) ∧ t'.mode = s.mode ∧
        Aligned strict b (s.inMode .plain) tokens (t'.inMode .plain) more' := by
    intro u more' hu
    have hubare : u.frames = [] := hu.frames.trans hbare
    obtain ⟨t', hreads, hmode, hframes, hpiece, hprevious⟩ := @Scanner.reads_pending scope u pending
      _ hpending hu.mode hubare (fun hangle ↦ hu.undescribed (hundescribed hangle)) fun fd hfd ↦ by
        have hraw : u.piece.raw = [] := hu.raw_eq.trans (hempty fd hfd)
        exact ⟨hu.sound.piece_empty hu.mode hraw, hu.previous, (hdescriptor fd hfd).2.2⟩
    have hsame : Aligned strict b s tokens (t'.inMode .plain) more' :=
      hu.of_same_right rfl (hframes.trans hubare.symm) hpiece hprevious
    exact ⟨t', hreads, hmode, hsame.of_same rfl rfl rfl⟩
  rcases operatorGap_eq b (s.line b tokens) pending with hgap | ⟨hgap, hb, fd, kind, hop⟩
  · obtain ⟨t', hreads, hmode, haligned⟩ := hread t more h
    exact ⟨t', [], by rwa [hgap], hmode, by simpa using haligned⟩
  · have hfd : s.mode.descriptor? = some fd := by
      rw [hop] at hpending
      cases hm : s.mode <;> simp_all [Mode.pending?, Mode.descriptor?]
    have hspace : Reads scope t [' '] (.ok (t.emitBlank.1, t.emitBlank.2)) :=
      reads_of_readChar h.mode (by decide) (readChar_blank (h.frames.trans hbare) 0)
    obtain ⟨t', hreads, hmode, haligned⟩ := hread _ _ (h.readGap hbare hb (hempty fd hfd))
    refine ⟨t', t.emitBlank.2, ?_, hmode, haligned⟩
    have hboth := hspace.append hreads
    rw [hgap]
    rwa [Except.map, Step.before, List.append_nil] at hboth

end Scanner

end ShellTemplate
