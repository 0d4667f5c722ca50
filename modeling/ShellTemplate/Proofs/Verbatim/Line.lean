import ShellTemplate.Proofs.Verbatim.Run

/-!
# Tokens of a command line

On the command line blanks are left out and put in between the tokens. The line is the plain text of
tokens that still do not run together, and they make the same words and operators.
-/

namespace ShellTemplate

open Scanner

/-- What the command line takes for a blank at its end. -/
def Token.IsSpace (token : Token) : Prop := token = .blank ∨ token = .operator .newline

instance : DecidablePred Token.IsSpace := fun _ ↦ instDecidableOr

/-- A character behind which no space is put. -/
def isSeparator (c : Char) : Bool := c = ' ' ∨ c = '\n'

/-- A piece that does not end in a character behind which no space is put. -/
def Token.Solid : Token → Prop
  | .piece p => ∀ c ∈ p.raw.getLast?, isSeparator c = false
  | .hole _ | .operator _ | .blank => True

/-- A piece that does not end in a blank character. -/
def Token.Firm : Token → Prop
  | .piece p => ∀ c ∈ p.raw.getLast?, isBlank c = false
  | .hole _ | .operator _ | .blank => True

instance : DecidablePred Token.Firm := fun
  | .piece p => decidable_of_iff ((p.raw.getLast?.all fun c ↦ !isBlank c) = true)
      (by cases h : p.raw.getLast? <;> simp [Token.Firm, h])
  | .hole _ | .operator _ | .blank => instDecidableTrue

theorem isSeparator_of_isBlank {c : Char} (h : isBlank c = false) : isSeparator c = false := by
  by_contra hseparator
  rw [Bool.not_eq_false] at hseparator
  rcases of_decide_eq_true hseparator with rfl | rfl <;> exact absurd h (by decide)

theorem Token.Firm.solid {token : Token} (h : token.Firm) : token.Solid := by
  cases token with
  | hole | operator | blank => trivial
  | piece p => exact fun c hc ↦ isSeparator_of_isBlank (h c hc)

/-- The last token of the line that is no space is firm. -/
def FirmEnd (tokens : List Token) : Prop :=
  ∀ token ∈ (tokens.rdropWhile fun token ↦ decide token.IsSpace).getLast?, token.Firm

instance : DecidablePred FirmEnd := fun tokens ↦
  decidable_of_iff (((tokens.rdropWhile fun token ↦ decide token.IsSpace).getLast?.all
      fun token ↦ decide token.Firm) = true)
    (by cases h : (tokens.rdropWhile fun token ↦ decide token.IsSpace).getLast? <;>
      simp [FirmEnd, h])

section Operators

variable {tokens : List Token} {op op' : Operator} {c : Char}

theorem not_continues_of_descriptor {fd : Nat} {kind : RedirectKind}
    (hc : c ∈ (Operator.redirect ⟨some fd, kind⟩).text.head?) : c ∉ op.continuations := by
  intro hcontinues
  have hdigit : isDigit c = true := by
    refine isDigit_of_mem_toString (n := fd) (List.mem_of_mem_head? ?_)
    rwa [Operator.text, Redirect.text, List.head?_append_of_ne_nil _ (toString_ne_nil fd)] at hc
  have hdelimiter := continuations_subset hcontinues
  simp only [delimiters, List.mem_cons, List.not_mem_nil, or_false] at hdelimiter
  rcases hdelimiter with rfl | rfl | rfl | rfl | rfl | rfl | rfl | rfl | rfl | rfl | rfl <;>
    cases hdigit

/-- Behind an operator that could be made longer no operator is read that would make it longer. -/
theorem not_continued_of_read {p : PartialPipeline} {after : List Part} {stages : List Stage}
    (h : p.read (.operator op :: .operator op' :: after) = .ok stages)
    (hc : c ∈ op'.text.head?) : c ∉ op.continuations := by
  rw [PartialPipeline.read_cons] at h
  obtain ⟨next, hstep, hread⟩ := bind_eq_ok_iff.1 h
  cases op with
  | newline | semicolon | openParen | closeParen | and | or => exact List.not_mem_nil
  | background => cases hstep
  | redirect r =>
      simp only [PartialPipeline.step] at hstep
      split_ifs at hstep
  | pipe =>
      intro hpipe
      obtain rfl : c = '|' := List.mem_singleton.1 hpipe
      simp only [PartialPipeline.step] at hstep
      split_ifs at hstep
      obtain ⟨closed, hclose, rfl⟩ := map_eq_ok_iff.1 hstep
      obtain ⟨-, rfl⟩ := PartialPipeline.close_eq_ok_iff.1 hclose
      rw [PartialPipeline.read_cons] at hread
      obtain ⟨last, hlast, -⟩ := bind_eq_ok_iff.1 hread
      cases op' with
      | or => cases hlast
      | pipe =>
          simp only [PartialPipeline.step] at hlast
          split_ifs at hlast
          obtain ⟨closed, hclose', -⟩ := map_eq_ok_iff.1 hlast
          exact (PartialPipeline.close_eq_ok_iff.1 hclose').1 rfl
      | redirect r =>
          obtain ⟨fd, kind⟩ := r
          cases fd with
          | none => cases kind <;> cases hc
          | some fd => exact not_continues_of_descriptor hc hpipe
      | _ => cases hc

/-- Between the operators of a pipeline there are words, or they are apart. -/
theorem operatorsApart_of_stages {stages : List Stage}
    (h : stagesOfParts (assembly tokens).finish = .ok stages) :
    tokens.IsChain Token.OperatorsApart := by
  refine List.isChain_iff_forall_rel_of_append_cons_cons.2 ?_
  rintro x y front rest rfl op op' rfl rfl c hc
  have hparts : (assembly (front ++ .operator op :: .operator op' :: rest)).finish =
      (assembly front).finish ++ .operator op :: .operator op' ::
        (Assembly.addAll {} rest).finish := by
    rw [assembly_append, Assembly.addAll_cons, Assembly.addAll_cons, Assembly.finish_addAll]
    simp [Assembly.add, Assembly.finish, partOfWord]
  rw [hparts] at h
  obtain ⟨p, hread⟩ := PartialPipeline.exists_read_operator h
  exact not_continued_of_read hread hc

end Operators

section Tokens

variable {scope : Scope} {line tokens start : List Token} {y : Token}

theorem exists_operator_text {op : Operator} (h : op ≠ .newline) :
    ∃ text c, op.text = text ++ [c] ∧ isBlank c = false := by
  cases op with
  | newline => exact absurd rfl h
  | redirect r =>
      obtain ⟨fd, kind⟩ := r
      cases kind with
      | out => exact ⟨_, '>', rfl, by decide⟩
      | input => exact ⟨_, '<', rfl, by decide⟩
      | append => exact ⟨_ ++ ['>'], '>', (List.append_assoc _ ['>'] ['>']).symm, by decide⟩
      | dupOut => exact ⟨_ ++ ['>'], '&', (List.append_assoc _ ['>'] ['&']).symm, by decide⟩
      | dupIn => exact ⟨_ ++ ['<'], '&', (List.append_assoc _ ['<'] ['&']).symm, by decide⟩
  | pipe => exact ⟨[], '|', rfl, by decide⟩
  | semicolon => exact ⟨[], ';', rfl, by decide⟩
  | background => exact ⟨[], '&', rfl, by decide⟩
  | and => exact ⟨['&'], '&', rfl, by decide⟩
  | or => exact ⟨['|'], '|', rfl, by decide⟩
  | openParen => exact ⟨[], '(', rfl, by decide⟩
  | closeParen => exact ⟨[], ')', rfl, by decide⟩

/-- Only spaces end in a blank character, unless a piece does. -/
theorem exists_text_concat (htext : y.text ≠ []) (hspace : ¬ y.IsSpace) :
    ∃ text c, y.text = text ++ [c] ∧ (y.Solid → isSeparator c = false) ∧
      (y.Firm → isBlank c = false) := by
  cases y with
  | hole index => exact absurd rfl htext
  | blank => exact absurd (.inl rfl) hspace
  | operator op =>
      obtain ⟨text, c, hop, hc⟩ := exists_operator_text fun hnewline ↦
        hspace (.inr (congrArg Token.operator hnewline))
      exact ⟨text, c, hop, fun _ ↦ isSeparator_of_isBlank hc, fun _ ↦ hc⟩
  | piece p =>
      rcases List.eq_nil_or_concat p.raw with hnil | ⟨text, c, hraw⟩
      · exact absurd hnil htext
      · rw [List.concat_eq_append] at hraw
        exact ⟨text, c, hraw, fun hsolid ↦ hsolid c (by simp [hraw]),
          fun hfirm ↦ hfirm c (by simp [hraw])⟩

theorem text_ne_nil (h : y.Legible scope) : y.text ≠ [] := by
  obtain ⟨c, rest, htext⟩ := exists_text_eq_cons h
  simp [htext]

theorem written_of_not_isSpace (h : ¬ y.IsSpace) (tokens : List Token) :
    ∃ text, written 0 (tokens ++ [y]) = text ++ y.text := by
  cases y with
  | piece p => exact ⟨_, written_piece 0 tokens p⟩
  | operator op => exact ⟨_, written_operator 0 tokens op⟩
  | hole index => exact ⟨written 0 (tokens ++ [.hole index]), (List.append_nil _).symm⟩
  | blank => exact absurd (.inl rfl) h

/-- Where the last token that is no space is firm, only spaces are cut off the end of the line. -/
theorem rdropWhile_written (htext : ∀ token ∈ tokens, token.text ≠ []) (hfirm : FirmEnd tokens) :
    (written 0 tokens).rdropWhile isBlank = (written 0 tokens).rdropWhile isSeparator := by
  induction tokens using List.reverseRecOn with
  | nil => simp
  | append_singleton tokens y ih =>
      have ih := ih fun token htoken ↦ htext token (List.mem_append_left _ htoken)
      unfold FirmEnd at hfirm ih
      by_cases hspace : y.IsSpace
      · rw [List.rdropWhile_concat_pos _ _ _ (by simpa using hspace)] at hfirm
        rcases hspace with rfl | rfl
        · rw [written_blank, blankAfter, if_pos rfl]
          rcases gapAfter_eq (written 0 tokens) with hgap | hgap
          · rw [hgap, List.append_nil]
            exact ih hfirm
          · rw [hgap, List.rdropWhile_concat_pos _ _ _ (by decide),
              List.rdropWhile_concat_pos _ _ _ (by decide)]
            exact ih hfirm
        · rw [written_operator]
          change (written 0 tokens ++ [] ++ ['\n']).rdropWhile isBlank = _
          rw [List.append_nil, List.rdropWhile_concat_pos _ _ _ (by decide)]
          change _ = (written 0 tokens ++ [] ++ ['\n']).rdropWhile isSeparator
          rw [List.append_nil, List.rdropWhile_concat_pos _ _ _ (by decide)]
          exact ih hfirm
      · rw [List.rdropWhile_concat_neg _ _ _ (by simpa using hspace), List.getLast?_concat] at hfirm
        have hy := hfirm y rfl
        obtain ⟨text, c, hc, hseparator, hblank⟩ := exists_text_concat (htext y (by simp)) hspace
        obtain ⟨before, hwritten⟩ := written_of_not_isSpace hspace tokens
        rw [hwritten, hc, ← List.append_assoc,
          List.rdropWhile_concat_neg _ _ _ (by simp [hblank hy]),
          List.rdropWhile_concat_neg _ _ _ (by simp [hseparator hy.solid])]

/-- Tokens whose plain text is a command line that is written as it is. -/
structure Tidy (scope : Scope) (line : List Token) : Prop where
  complete : Sealed False scope line
  solid : ∀ token ∈ line, token.Solid
  again : ∀ front, front <+: line → written 0 front = plainText front

theorem tidy_nil : Tidy scope [] where
  complete := sealed_nil
  solid := fun _ h ↦ absurd h List.not_mem_nil
  again := fun front hfront ↦ by simp [List.prefix_nil.1 hfront]

theorem Tidy.concat (h : Tidy scope line) (hlegible : y.Legible scope) (hsolid : y.Solid)
    (hpair : ∀ x ∈ line.getLast?, x.Apart False scope y)
    (hwritten : written 0 (line ++ [y]) = written 0 line ++ y.text) : Tidy scope (line ++ [y]) where
  complete := h.complete.concat hlegible hpair
  solid := fun token htoken ↦ by
    rcases List.mem_append.1 htoken with htoken | htoken
    · exact h.solid token htoken
    · rwa [List.mem_singleton.1 htoken]
  again := fun front hfront ↦ by
    rcases List.prefix_concat_iff.1 hfront with rfl | hfront
    · rw [hwritten, h.again line List.prefix_rfl, plainText_append, plainText_cons, plainText_nil,
        List.append_nil]
    · exact h.again front hfront

theorem Tidy.prefix_of (h : Tidy scope line) (hfront : start <+: line) : Tidy scope start where
  complete := ⟨fun token htoken ↦ h.complete.legible token (hfront.mem htoken),
    h.complete.apart.prefix hfront⟩
  solid := fun token htoken ↦ h.solid token (hfront.mem htoken)
  again := fun part hpart ↦ h.again part (hpart.trans hfront)

theorem Tidy.isSpace_of_gap (h : Tidy scope line) (hgap : gapAfter (plainText line) = []) :
    ∀ token ∈ line.getLast?, token.IsSpace := by
  intro token htoken
  by_contra hspace
  obtain ⟨front, rfl⟩ := List.getLast?_eq_some_iff.1 htoken
  obtain ⟨text, c, htext, hc, -⟩ := exists_text_concat
    (text_ne_nil (h.complete.legible token (by simp))) hspace
  have hseparator : isSeparator c = true :=
    decide_eq_true (gapAfter_eq_nil_iff.1 hgap c (by simp [htext]))
  exact absurd hseparator (by simp [hc (h.solid token (by simp))])

theorem ne_blank_of_gap (hgap : gapAfter (plainText line) = [' ']) :
    line.getLast? ≠ some .blank := by
  intro hblank
  obtain ⟨front, rfl⟩ := List.getLast?_eq_some_iff.1 hblank
  simp [gapAfter, Token.text] at hgap

theorem word_of_isSpace (h : ∀ token ∈ line.getLast?, token.IsSpace) :
    (assembly line).word = none := by
  rcases List.eq_nil_or_concat line with rfl | ⟨front, last, rfl⟩
  · rfl
  · rcases h last (by simp) with rfl | rfl <;> simp [Assembly.add]

/-- The tokens of the line that the tokens are written as. -/
structure WrittenAs (scope : Scope) (tokens line : List Token) : Prop where
  tidy : Tidy scope line
  text : written 0 tokens = plainText line
  words : assembly line = assembly tokens
  last : line.getLast? = tokens.getLast? ∨ ∀ token ∈ line.getLast?, token.IsSpace

theorem apart_of_isSpace {x : Token} (h : x.IsSpace) (hy : y ≠ .blank) : x.Apart False scope y := by
  rcases h with rfl | rfl
  · cases y with
    | blank => exact absurd rfl hy
    | piece | hole | operator => trivial
  · cases y <;> trivial

theorem apart_blank {loose : Prop} {x : Token} (hx : x ≠ .blank) :
    x.Apart loose scope .blank := by
  cases x with
  | blank => exact absurd rfl hx
  | piece | hole | operator => trivial

theorem apart_of_loose {loose : Prop} {x : Token} (h : x.Apart loose scope y) (hy : y ≠ .blank) :
    x.Apart False scope y := by
  cases y with
  | blank => exact absurd rfl hy
  | hole | piece => cases x <;> exact h
  | operator op =>
      cases x with
      | hole | blank | operator => trivial
      | piece p => cases op <;> exact h

namespace WrittenAs

variable (h : WrittenAs scope tokens line)
include h

theorem apart (hy : y ≠ .blank) (hpair : ∀ x ∈ tokens.getLast?, x.Apart False scope y) :
    ∀ x ∈ line.getLast?, x.Apart False scope y := by
  intro x hx
  rcases h.last with hlast | hspace
  · exact hpair x (hlast ▸ hx)
  · exact apart_of_isSpace (hspace x hx) hy

/-- A blank that is written. -/
theorem gap (hgap : gapAfter (plainText line) = [' ']) : Tidy scope (line ++ [.blank]) := by
  refine h.tidy.concat trivial trivial (fun x hx ↦ apart_blank ?_) ?_
  · rintro rfl
    exact ne_blank_of_gap hgap hx
  · rw [written_blank, blankAfter, if_pos rfl, h.tidy.again line List.prefix_rfl, hgap]
    rfl

theorem blank : ∃ line', WrittenAs scope (tokens ++ [.blank]) line' := by
  have htext := written_blank 0 tokens
  rw [blankAfter, if_pos rfl, h.text] at htext
  rcases gapAfter_eq (plainText line) with hgap | hgap
  · have hspace := h.tidy.isSpace_of_gap hgap
    have hword := word_of_isSpace hspace
    refine ⟨line, h.tidy, ?_, ?_, .inr hspace⟩
    · rw [htext, hgap, List.append_nil]
    · rw [assembly_append, ← h.words]
      cases hline : assembly line
      rw [hline] at hword
      subst hword
      simp [Assembly.add, partOfWord]
  · refine ⟨line ++ [.blank], h.gap hgap, ?_, ?_, .inl ?_⟩
    · rw [htext, hgap, plainText_append]
      rfl
    · rw [assembly_append, assembly_append, h.words]
    · rw [List.getLast?_concat, List.getLast?_concat]

theorem token (hlegible : y.Legible scope) (hsolid : y.Solid) (hy : y ≠ .blank)
    (hpair : ∀ x ∈ tokens.getLast?, x.Apart False scope y)
    (hwritten : written 0 (tokens ++ [y]) = written 0 tokens ++ y.text)
    (hline : written 0 (line ++ [y]) = written 0 line ++ y.text) :
    WrittenAs scope (tokens ++ [y]) (line ++ [y]) where
  tidy := h.tidy.concat hlegible hsolid (h.apart hy hpair) hline
  text := by rw [hwritten, h.text, plainText_append, plainText_cons, plainText_nil, List.append_nil]
  words := by rw [assembly_append, assembly_append, h.words]
  last := .inl (by rw [List.getLast?_concat, List.getLast?_concat])

theorem operator {op : Operator} (hlegible : (Token.operator op).Legible scope)
    (hpair : ∀ x ∈ tokens.getLast?, x.Apart False scope (.operator op)) :
    ∃ line', WrittenAs scope (tokens ++ [.operator op]) line' := by
  have htext := written_operator 0 tokens op
  have hline := written_operator 0 line op
  have hagain := h.tidy.again line List.prefix_rfl
  rw [h.text] at htext
  rw [hagain] at hline
  rcases operatorGap_eq 0 (plainText line) op with hgap | ⟨hgap, -, fd, kind, rfl⟩
  · rw [hgap, List.append_nil] at htext hline
    exact ⟨_, h.token hlegible trivial (by simp) hpair (by rw [htext, h.text]; rfl)
      (by rw [hline, hagain]; rfl)⟩
  · -- a descriptor is kept apart by a blank that was not there
    have hgap' : gapAfter (plainText line) = [' '] := hgap
    have hblank : gapAfter (plainText (line ++ [.blank])) = [] := by
      simp [gapAfter, Token.text]
    have htidy := h.gap hgap'
    refine ⟨line ++ [.blank] ++ [.operator (.redirect ⟨some fd, kind⟩)],
      htidy.concat hlegible trivial ?_ ?_, ?_, ?_, .inl ?_⟩
    · rw [List.getLast?_concat]
      rintro x ⟨⟩
      trivial
    · rw [written_operator, htidy.again _ List.prefix_rfl]
      change _ ++ gapAfter (plainText (line ++ [.blank])) ++ _ = _
      rw [hblank, List.append_nil]
      rfl
    · rw [htext, hgap]
      simp [Token.text]
    · rw [assembly_append, assembly_append, assembly_append, h.words]
      simp [Assembly.add, partOfWord]
    · rw [List.getLast?_concat, List.getLast?_concat]

end WrittenAs

/-- What is written of tokens that do not run together is the text of such tokens. -/
theorem exists_writtenAs {loose : Prop} (h : Sealed loose scope tokens)
    (hsolid : ∀ token ∈ tokens, token.Solid) : ∃ line, WrittenAs scope tokens line := by
  induction tokens using List.reverseRecOn with
  | nil => exact ⟨[], tidy_nil, rfl, rfl, .inl rfl⟩
  | append_singleton tokens y ih =>
      obtain ⟨hfront, -, hpair⟩ := List.isChain_append.1 h.apart
      obtain ⟨line, hline⟩ := ih ⟨fun token ht ↦ h.legible token (by simp [ht]), hfront⟩
        fun token ht ↦ hsolid token (by simp [ht])
      have hlegible := h.legible y (by simp)
      have hpair' : y ≠ .blank → ∀ x ∈ tokens.getLast?, x.Apart False scope y := fun hy x hx ↦
        apart_of_loose (hpair x hx y rfl) hy
      cases y with
      | hole index => exact absurd hlegible id
      | blank => exact hline.blank
      | operator op => exact hline.operator hlegible (hpair' (by simp))
      | piece p =>
          exact ⟨_, hline.token hlegible (hsolid _ (by simp)) (by simp) (hpair' (by simp))
            (written_piece 0 tokens p) (written_piece 0 line p)⟩

/-- Without the spaces at its end the line reads as the same tokens, but for newlines. -/
theorem Tidy.trim (h : Tidy scope line) : ∃ start n, start <+: line ∧
    plainText start = (plainText line).rdropWhile isSeparator ∧
      (assembly line).finish =
        (assembly start).finish ++ List.replicate n (.operator .newline) := by
  induction line using List.reverseRecOn with
  | nil => exact ⟨[], 0, List.prefix_rfl, rfl, rfl⟩
  | append_singleton line y ih =>
      obtain ⟨start, n, hstart, htext, hparts⟩ := ih (h.prefix_of (List.prefix_append _ _))
      by_cases hspace : y.IsSpace
      · have hdrop : (plainText (line ++ [y])).rdropWhile isSeparator =
            (plainText line).rdropWhile isSeparator := by
          rcases hspace with rfl | rfl <;>
            · rw [plainText_append]
              exact List.rdropWhile_concat_pos _ _ _ (by decide)
        rcases hspace with rfl | rfl
        · refine ⟨start, n, hstart.trans (List.prefix_append _ _), by rw [hdrop, htext], ?_⟩
          rw [← hparts, assembly_append]
          simp [Assembly.add, Assembly.finish, partOfWord]
        · refine ⟨start, n + 1, hstart.trans (List.prefix_append _ _), by rw [hdrop, htext], ?_⟩
          rw [List.replicate_succ', ← List.append_assoc, ← hparts, assembly_append]
          simp [Assembly.add, Assembly.finish, partOfWord]
      · obtain ⟨text, c, hy, hc, -⟩ := exists_text_concat
          (text_ne_nil (h.complete.legible y (by simp))) hspace
        refine ⟨line ++ [y], 0, List.prefix_rfl, ?_, by simp⟩
        rw [plainText_append, plainText_cons, plainText_nil, List.append_nil, hy,
          ← List.append_assoc,
          List.rdropWhile_concat_neg _ _ _ (by simp [hc (h.solid y (by simp))])]

end Tokens

/-- A command line that only spaces are cut off from is compiled to the same commands again, and to
itself. -/
theorem compile_commandLine_of_solid {loose : Prop} {tokens : List Token} {stages : List Stage}
    (h : Sealed loose {} tokens) (hsolid : ∀ token ∈ tokens, token.Solid)
    (hends : (written 0 tokens).rdropWhile isBlank = (written 0 tokens).rdropWhile isSeparator)
    (hstages : stagesOfParts (assembly tokens).finish = .ok stages) (options : FillOptions) :
    (Template.ofText (commandLine tokens)).compile options = .ok ⟨stages, commandLine tokens⟩ := by
  obtain ⟨line, hline⟩ := exists_writtenAs h hsolid
  obtain ⟨start, n, hstart, htext, hparts⟩ := hline.tidy.trim
  have hstart := hline.tidy.prefix_of hstart
  have hwritten : plainText start = (written 0 tokens).rdropWhile isBlank := by
    rw [htext, hends, hline.text]
  have hagain : commandLine start = commandLine tokens := by
    rw [commandLine_eq, hstart.again start List.prefix_rfl, hwritten, List.rdropWhile_idempotent,
      commandLine_eq]
  rw [← hline.words, hparts] at hstages
  have hstages := stagesOfParts_of_newlines n hstages
  obtain ⟨lexemes, hscan, htokens⟩ := scanAll_plainText hstart.complete.legible
    hstart.complete.apart (operatorsApart_of_stages hstages)
  have hfilled := filled_of_scanAll hscan
  rw [hwritten, ← commandLine_eq] at hscan
  refine compile_eq_ok_iff.2 ⟨lexemes, start, lexemesOfText_eq_ok_iff.2 hscan, ?_, ?_, hstages,
    hagain.symm⟩
  · rw [← htokens]
    exact fill_of_not_hole hfilled
  · intro token htoken
    rw [← htokens] at htoken
    obtain ⟨lexeme, hlexeme, rfl⟩ := List.mem_map.1 htoken
    exact hfilled lexeme hlexeme

/-- A command line whose words end in no blank character is compiled to the same commands again, and
to itself. -/
theorem compile_commandLine {loose : Prop} {tokens : List Token} {stages : List Stage}
    (h : Sealed loose {} tokens) (hfirm : ∀ token ∈ tokens, token.Firm)
    (hstages : stagesOfParts (assembly tokens).finish = .ok stages) (options : FillOptions) :
    (Template.ofText (commandLine tokens)).compile options = .ok ⟨stages, commandLine tokens⟩ := by
  have hends : FirmEnd tokens := fun token htoken ↦
    hfirm token ((List.rdropWhile_prefix _ tokens).mem (List.mem_of_getLast? htoken))
  exact compile_commandLine_of_solid h (fun token ht ↦ (hfirm token ht).solid)
    (rdropWhile_written (fun token ht ↦ text_ne_nil (h.legible token ht)) hends) hstages options

end ShellTemplate
