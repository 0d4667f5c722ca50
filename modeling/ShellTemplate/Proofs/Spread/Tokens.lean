import ShellTemplate.Pipeline.Line
import ShellTemplate.Proofs.Spread.Run

/-!
# Filling in a list and its elements

A list becomes its words with blanks between them. Its elements in holes of their own become the
same words, with the separators of those holes between them. A separator that is a space in a text
is written as a blank is, since a quote ends every word.
-/

namespace ShellTemplate

section Contexts

variable {quoting quoting' : Quoting} {enclosing : Enclosing}

theorem Quoting.write_of_unquoted (h : quoting.isQuoted = false) (text : List Char) :
    quoting.write text = singleQuote text := by
  cases quoting with
  | single | double => cases h
  | bare | substitution | escaped | parameter => rfl

theorem Quoting.Alike.isQuoted (alike : quoting.Alike enclosing quoting')
    (h : quoting.isQuoted = false) : quoting'.isQuoted = false := by
  obtain rfl | ⟨-, hquoting, -⟩ := alike
  · exact h
  · exact hquoting

theorem Quoting.Alike.literalPiece (alike : quoting.Alike enclosing quoting')
    (h : quoting.isQuoted = false) (text : List Char) :
    ShellTemplate.literalPiece quoting' enclosing text =
      ShellTemplate.literalPiece quoting enclosing text := by
  unfold ShellTemplate.literalPiece
  rw [write_of_unquoted h, write_of_unquoted (alike.isQuoted h)]

theorem Quoting.Alike.unsafeContext? (alike : quoting.Alike enclosing quoting') :
    Value.unsafeContext? quoting' enclosing = Value.unsafeContext? quoting enclosing := by
  obtain rfl | ⟨rfl, -, hparameter⟩ := alike
  · rfl
  · by_cases hquoting : quoting' = .parameter
    · simp [Value.unsafeContext?, hparameter hquoting]
    · simp [Value.unsafeContext?, hquoting]

/-- A quote ends a word that is written outside quotes. -/
theorem exists_raw_literalPiece (h : quoting.isQuoted = false) (enclosing : Enclosing)
    (text : List Char) :
    ∃ start, (literalPiece quoting enclosing text).raw = start ++ ['\''] := by
  change ∃ start, escapeLevels enclosing.backticks (quoting.write text) = start ++ ['\'']
  rw [Quoting.write_of_unquoted h]
  induction enclosing.backticks with
  | zero => exact ⟨'\'' :: escapeSingle text, rfl⟩
  | succ n ih =>
      obtain ⟨start, hstart⟩ := ih
      rw [escapeLevels_succ, hstart, escapeBackticks_append]
      exact ⟨_, rfl⟩

end Contexts

section Words

variable {options : FillOptions} {values : List Value} {quoting quoting' : Quoting}
  {enclosing : Enclosing} {texts : List (List Char)} {index : Nat} {rest : List Lexeme}

/-- The words of a list with a separator between them. -/
def wordTokens (separator : Token) (quoting : Quoting) (enclosing : Enclosing)
    (texts : List (List Char)) : List Token :=
  (texts.map fun text ↦ .piece (literalPiece quoting enclosing text)).intersperse separator

/-- Words that are filled in before other tokens, where values are safe. -/
def fillWords (separator : Token) (quoting : Quoting) (enclosing : Enclosing)
    (texts : List (List Char)) (behind : Except FillingError (List Token)) :
    Except FillingError (List Token) :=
  match Value.unsafeContext? quoting enclosing with
  | some context => .error (.fill (.unsafeContext context))
  | none => behind.map (wordTokens separator quoting enclosing texts ++ ·)

theorem fill_list (hvalue : values[index]? = some (.list texts))
    (hsplit : options.splitsWords = true) (hquoted : quoting.isQuoted = false) :
    fill options values (⟨.hole index, quoting, enclosing⟩ :: rest) =
      fillWords .blank quoting enclosing texts (fill options values rest) := by
  have hhole : fillHole options quoting enclosing (.list texts) =
      match Value.unsafeContext? quoting enclosing with
      | some context => .error (.fill (.unsafeContext context))
      | none => .ok (wordTokens .blank quoting enclosing texts) := by
    simp only [fillHole, Value.pieces, hquoted, Value.texts, hsplit]
    cases Value.unsafeContext? quoting enclosing with
    | some context => rfl
    | none => exact congrArg Except.ok (by simp [wordTokens, Function.comp_def])
  rw [fill_hole hvalue, hhole, fillWords]
  cases Value.unsafeContext? quoting enclosing <;> rfl

theorem fill_spread {separator : Lexeme} (hspace : separator.IsSpace) {text : List Char}
    {more : List (List Char)} (alike : quoting.Alike enclosing quoting')
    (hquoted : quoting.isQuoted = false)
    (hvalues : ∀ k own, (text :: more)[k]? = some own → values[index + k]? = some (.str own)) :
    fill options values (⟨.hole index, quoting, enclosing⟩ ::
        (spreadLexemes separator quoting' enclosing (index + 1) more.length ++ rest)) =
      fillWords separator.token quoting enclosing (text :: more) (fill options values rest) := by
  have hseparator : separator.token.isHole = false := by
    obtain ⟨token, _, _⟩ := separator
    rcases hspace with rfl | ⟨_, rfl⟩ <;> rfl
  induction more generalizing text index quoting with
  | nil =>
      have hfirst : values[index]? = some (.str text) := hvalues 0 text rfl
      rw [fill_hole hfirst, fillHole_of_text rfl, fillWords]
      cases Value.unsafeContext? quoting enclosing <;> rfl
  | cons next more ih =>
      have hfirst : values[index]? = some (.str text) := hvalues 0 text rfl
      have hmore : ∀ k own, (next :: more)[k]? = some own →
          values[index + 1 + k]? = some (.str own) := fun k own hown ↦ by
        rw [Nat.add_right_comm]
        exact hvalues (k + 1) own hown
      have hrest := ih (.inl rfl) (alike.isQuoted hquoted) hmore
      have hnext : spreadLexemes separator quoting' enclosing (index + 1) (next :: more).length =
        separator :: ⟨.hole (index + 1), quoting', enclosing⟩ ::
          spreadLexemes separator quoting' enclosing (index + 1 + 1) more.length := rfl
      rw [fill_hole hfirst, fillHole_of_text rfl, hnext, List.cons_append,
        List.cons_append, fill_cons_of_not_hole hseparator, hrest, fillWords, fillWords,
        alike.unsafeContext?]
      cases Value.unsafeContext? quoting enclosing with
      | some context => rfl
      | none =>
          have hwords : wordTokens separator.token quoting' enclosing (next :: more) =
              wordTokens separator.token quoting enclosing (next :: more) := by
            simp only [wordTokens, alike.literalPiece hquoted]
          rw [hwords]
          cases fill options values rest <;> rfl

theorem fillWords_of_parameter (h : enclosing.parameter = true) (separator separator' : Token)
    (behind : Except FillingError (List Token)) :
    fillWords separator quoting enclosing texts behind =
      fillWords separator' quoting enclosing texts behind := by
  simp [fillWords, Value.unsafeContext?, h]

theorem fillWords_singleton (separator separator' : Token) (text : List Char)
    (behind : Except FillingError (List Token)) :
    fillWords separator quoting enclosing [text] behind =
      fillWords separator' quoting enclosing [text] behind := rfl

/-- Behind a quote a space in a text is written as a blank is. -/
theorem writeToken_space {p : Piece} {start : List Char} (h : p.raw = start ++ ['\''])
    (line text : List Char) :
    writeToken (writeToken line (.piece p)) (.piece ⟨[' '], text, false⟩) =
      writeToken (writeToken line (.piece p)) .blank := by
  simp only [writeToken, h, List.reverse_append]
  rfl

theorem foldl_writeToken_wordTokens {separator : Lexeme} (hspace : separator.IsSpace)
    (hquoted : quoting.isQuoted = false) (line : List Char) :
    (wordTokens separator.token quoting enclosing texts).foldl writeToken line =
      (wordTokens .blank quoting enclosing texts).foldl writeToken line := by
  obtain hblank | ⟨text, hpiece⟩ := hspace
  · rw [hblank]
  rw [hpiece]
  induction texts generalizing line with
  | nil => rfl
  | cons first rest ih =>
      cases rest with
      | nil => rfl
      | cons next rest =>
          obtain ⟨start, hraw⟩ := exists_raw_literalPiece hquoted enclosing first
          have hnext := ih (writeToken
            (writeToken line (.piece (literalPiece quoting enclosing first))) .blank)
          simp only [wordTokens, List.map_cons, List.intersperse_cons_cons,
            List.foldl_cons] at hnext ⊢
          rw [writeToken_space hraw]
          exact hnext

/-- What is written behind lists is the same behind their elements. -/
theorem map_commandLine_fillWords {separator : Lexeme} (hspace : separator.IsSpace)
    (hquoted : quoting.isQuoted = false) (first : List Token)
    (behind : Except FillingError (List Token)) :
    (fillWords separator.token quoting enclosing texts behind).map
        (fun tokens ↦ commandLine (first ++ tokens)) =
      (fillWords .blank quoting enclosing texts behind).map
        (fun tokens ↦ commandLine (first ++ tokens)) := by
  unfold fillWords
  cases Value.unsafeContext? quoting enclosing with
  | some context => rfl
  | none =>
      cases behind with
      | error e => rfl
      | ok tokens =>
          change Except.ok (commandLine _) = Except.ok (commandLine _)
          rw [commandLine, commandLine, List.foldl_append, List.foldl_append, List.foldl_append,
            List.foldl_append, foldl_writeToken_wordTokens hspace hquoted]

end Words

section Values

/-- The second values have a string for each element of the list in its place. -/
structure SpreadValues (hole place : Nat) (text : List Char) (more : List (List Char))
    (values values' : List Value) : Prop where
  list : values[hole]? = some (.list (text :: more))
  words : ∀ k own, (text :: more)[k]? = some own → values'[hole + k]? = some (.str own)
  others : ∀ index, index ≠ hole →
    values'[(Retelling.behind hole place more.length).index index]? = values[index]?

variable {options : FillOptions} {values values' : List Value} {hole place : Nat}
  {text : List Char} {more : List (List Char)} {lexemes lexemes' : List Lexeme}
  {cond : SeparatorCondition}

theorem SpreadValues.fill_others (h : SpreadValues hole place text more values values')
    (hknown : ∀ index ∈ holeIndices lexemes, index < values.length)
    (hothers : hole ∉ holeIndices lexemes) :
    fill options values' (lexemes.map (Retelling.behind hole place more.length).lexeme) =
      fill options values lexemes := by
  induction lexemes with
  | nil => rfl
  | cons lexeme rest ih =>
      obtain ⟨token, quoting, enclosing⟩ := lexeme
      cases token with
      | hole index =>
          have hne : hole ≠ index ∧ hole ∉ holeIndices rest := by
            simpa [holeIndices, Token.hole?] using hothers
          have hindex : index < values.length := hknown index List.mem_cons_self
          have hvalue := List.getElem?_eq_getElem hindex
          have hvalue' := (h.others index hne.1.symm).trans hvalue
          have hrest := ih (fun i hi ↦ hknown i (List.mem_cons_of_mem _ hi)) hne.2
          rw [fill_hole hvalue, ← hrest]
          exact fill_hole hvalue' _ _ _
      | piece p | operator op | blank =>
          have hrest := ih hknown hothers
          rw [List.map_cons, fill_cons_of_not_hole rfl, fill_cons_of_not_hole rfl, hrest]
          rfl

section Compared

variable (h : SpreadValues hole place text more values values')
  (hknown : ∀ index ∈ holeIndices lexemes, index < values.length)
  (hsplit : options.splitsWords = true)
  (hquoted : ∀ lexeme ∈ lexemes, lexeme.token = .hole hole → lexeme.quoting.isQuoted = false)
include h hknown hsplit hquoted

/-- What is filled in is the same but for the separators. -/
theorem SpreadValues.fill_cases (hspread : Spread cond hole place more.length lexemes lexemes') :
    fill options values' lexemes' = fill options values lexemes ∨
      ∃ before after quoting enclosing separator, separator.IsSpace ∧
        cond quoting enclosing separator ∧ quoting.isQuoted = false ∧
        fill options values lexemes = (before >>= fun first ↦
          (fillWords .blank quoting enclosing (text :: more) after).map (first ++ ·)) ∧
        fill options values' lexemes' = (before >>= fun first ↦
          (fillWords separator.token quoting enclosing (text :: more) after).map (first ++ ·)) := by
  cases hspread with
  | skipped others => exact .inl (h.fill_others hknown others)
  | @spread before after hbefore hafter quoting quoting' enclosing separator alike space apart =>
      have hunquoted := hquoted ⟨.hole hole, quoting, enclosing⟩ (by simp) rfl
      have hknown' : ∀ index, (index ∈ holeIndices before ∨ index ∈ holeIndices after) →
          index < values.length := fun index hindex ↦ hknown index (by
        rw [holeIndices_append, List.mem_append]
        exact hindex.imp_right (List.mem_cons_of_mem _))
      refine .inr ⟨fill options values before, fill options values after, quoting, enclosing,
        separator, space, apart, hunquoted, ?_, ?_⟩
      · rw [fill_append, fill_list h.list hsplit hunquoted]
      · rw [fill_append, fill_spread space alike hunquoted h.words,
          h.fill_others (fun i hi ↦ hknown' i (.inl hi)) hbefore,
          h.fill_others (fun i hi ↦ hknown' i (.inr hi)) hafter]

/-- What is filled in gives the same command line. -/
theorem SpreadValues.map_commandLine_fill
    (hspread : Spread cond hole place more.length lexemes lexemes') :
    (fill options values' lexemes').map commandLine =
      (fill options values lexemes).map commandLine := by
  obtain heq | ⟨before, after, quoting, enclosing, separator, hspace, -, hunquoted, hlist,
    hwords⟩ := h.fill_cases hknown hsplit hquoted hspread
  · rw [heq]
  · rw [hlist, hwords]
    cases before with
    | error e => rfl
    | ok first =>
        exact map_map.trans ((map_commandLine_fillWords hspace hunquoted first after).trans
          map_map.symm)

/-- Outside all substitutions the same tokens are filled in. -/
theorem SpreadValues.fill_eq_of_apart
    (hspread : Spread apartUnlessRefused hole place more.length lexemes lexemes') :
    fill options values' lexemes' = fill options values lexemes := by
  obtain heq | ⟨before, after, quoting, enclosing, separator, -, hapart, hunquoted, hlist,
    hwords⟩ := h.fill_cases hknown hsplit hquoted hspread
  · exact heq
  rw [hlist, hwords]
  obtain hblank | hparameter | hquoting := hapart
  · rw [hblank]
  · rw [fillWords_of_parameter hparameter separator.token .blank]
  · rw [hunquoted] at hquoting
    cases hquoting

theorem SpreadValues.fill_eq_of_singleton (hmore : more = [])
    (hspread : Spread cond hole place more.length lexemes lexemes') :
    fill options values' lexemes' = fill options values lexemes := by
  obtain heq | ⟨before, after, quoting, enclosing, separator, -, -, -, hlist, hwords⟩ :=
    h.fill_cases hknown hsplit hquoted hspread
  · exact heq
  · rw [hlist, hwords, hmore, fillWords_singleton separator.token .blank]

end Compared

theorem spreadValues_append (first last : List Value) (place : Nat) :
    SpreadValues first.length place text more (first ++ .list (text :: more) :: last)
      (first ++ ((text :: more).map Value.str ++ last)) where
  list := by simp
  words k own hown := by
    have hk : k < (text :: more).length := (List.getElem?_eq_some_iff.1 hown).1
    rw [List.getElem?_append_right (Nat.le_add_right _ _), Nat.add_sub_cancel_left,
      List.getElem?_append_left (by simpa using hk), List.getElem?_map, hown]
    rfl
  others index hne := by
    change (first ++ _)[if index ≤ first.length then index else index + more.length]? = _
    by_cases hlt : index < first.length
    · rw [if_pos hlt.le, List.getElem?_append_left hlt, List.getElem?_append_left hlt]
    · have hlater : first.length < index := by omega
      obtain ⟨k, rfl⟩ := Nat.exists_eq_add_of_lt hlater
      have hlength : ((text :: more).map Value.str).length = more.length + 1 := by simp
      have hleft : first.length + k + 1 + more.length - first.length - (more.length + 1) = k := by
        omega
      have hright : first.length + k + 1 - first.length = k + 1 := by omega
      rw [if_neg (by omega), List.getElem?_append_right (by omega),
        List.getElem?_append_right (by omega), List.getElem?_append_right (by omega), hlength,
        hleft, hright]
      rfl

end Values

end ShellTemplate
