import ShellTemplate.Proofs.Spread.Tokens

/-!
# A list and its elements

A list in a hole means its elements, each in a hole of its own and with spaces between them: the
same errors, the same command line and, outside command substitutions, the same pipeline. A
construct that is left open behind the holes is reported where it stands in its own text.
-/

namespace ShellTemplate

open Scanner

section Placing

theorem place_lt_of_mem_placeFrom {start : Nat} {symbols : List Symbol} {item : Item}
    (h : item ∈ placeFrom start symbols) : item.place < start + symbols.length := by
  induction symbols generalizing start with
  | nil => cases h
  | cons symbol rest ih =>
      rw [List.length_cons]
      rcases List.mem_cons.1 h with rfl | hrest
      · exact Nat.lt_add_of_pos_right (Nat.succ_pos _)
      · have hlt := ih hrest
        omega

end Placing

section Telling

variable {hole place count : Nat}

/-- Before the hole nothing changes. -/
theorem map_item_placeFrom_before (segments : List Segment)
    (hhole : Template.holeCount ⟨segments⟩ ≤ hole)
    (hplace : (symbolsFrom 0 segments).length ≤ place) :
    (placeFrom 0 (symbolsFrom 0 segments)).map (Retelling.behind hole place count).item =
      placeFrom 0 (symbolsFrom 0 segments) := by
  refine (List.map_congr_left fun item hitem ↦ ?_).trans (List.map_id _)
  have hlt := place_lt_of_mem_placeFrom hitem
  obtain ⟨symbol, own⟩ := item
  have hown : (Retelling.behind hole place count).place own = own :=
    if_pos (by simp only at hlt; omega)
  cases symbol with
  | char c => simp only [Retelling.item, Retelling.symbol, hown, id]
  | hole index =>
      have hmem : index ∈ holesOf (placeFrom 0 (symbolsFrom 0 segments)) :=
        List.mem_filterMap.2 ⟨_, hitem, rfl⟩
      rw [holesOf_placeFrom, List.mem_range'_1] at hmem
      have hindex : (Retelling.behind hole place count).index index = index := if_pos (by omega)
      simp only [Retelling.item, Retelling.symbol, hown, hindex, id]

theorem map_item_placeFrom_behind {start : Nat} (h : place < start) (symbols : List Symbol) :
    (placeFrom start symbols).map (Retelling.behind hole place count).item =
      placeFrom (start + 2 * count) (symbols.map (Retelling.behind hole place count).symbol) := by
  induction symbols generalizing start with
  | nil => rfl
  | cons symbol rest ih =>
      have hstart : (Retelling.behind hole place count).place start = start + 2 * count :=
        if_neg (Nat.not_le.2 h)
      rw [placeFrom, List.map_cons, ih (Nat.lt_succ_of_lt h), List.map_cons, placeFrom,
        Retelling.item, hstart, Nat.add_right_comm]

theorem map_symbol_symbolsFrom {next : Nat} (h : hole < next) (segments : List Segment) :
    (symbolsFrom next segments).map (Retelling.behind hole place count).symbol =
      symbolsFrom (next + count) segments := by
  induction segments generalizing next with
  | nil => rfl
  | cons segment rest ih =>
      cases segment with
      | literal text =>
          rw [symbolsFrom, symbolsFrom, List.map_append, ih h, List.map_map]
          rfl
      | hole value =>
          have hnext : (Retelling.behind hole place count).index next = next + count :=
            if_neg (Nat.not_le.2 h)
          rw [symbolsFrom, symbolsFrom, List.map_cons, ih (Nat.lt_succ_of_lt h), Retelling.symbol,
            hnext, Nat.add_right_comm]

end Telling

section Templates

variable (before after : List Segment) (texts : List (List Char))

/-- A template with a list in one of its holes. -/
def withList : Template := ⟨before ++ .hole (.list texts) :: after⟩

/-- The template with the elements of the list in holes of their own, a space between them. -/
def withElements : Template :=
  ⟨before ++ ((texts.map fun text ↦ .hole (.str text)).intersperse (.literal [' ']) ++ after)⟩

/-- The number of the hole behind these segments. -/
abbrev nextHole : Nat := Template.holeCount ⟨before⟩

/-- The place behind these segments. -/
abbrev nextPlace : Nat := (symbolsFrom 0 before).length

theorem items_withList : (withList before after texts).items =
    placeFrom 0 (symbolsFrom 0 before) ++ ⟨.hole (nextHole before), nextPlace before⟩ ::
      placeFrom (nextPlace before + 1) (symbolsFrom (nextHole before + 1) after) := by
  rw [Template.items, Template.symbols, withList, symbolsFrom_append, placeFrom_append,
    Nat.zero_add, Nat.zero_add]
  rfl

theorem symbolsFrom_elements (next : Nat) (text : List Char) (more : List (List Char)) :
    symbolsFrom next (((text :: more).map fun own ↦ .hole (.str own)).intersperse
      (.literal [' '])) = .hole next :: spreadSymbols (next + 1) more.length := by
  induction more generalizing next text with
  | nil => rfl
  | cons own rest ih => exact congrArg (.hole next :: .char ' ' :: ·) (ih (next + 1) own)

theorem holes_elements (texts : List (List Char)) :
    Template.holes ⟨(texts.map fun own ↦ .hole (.str own)).intersperse (.literal [' '])⟩ =
      texts.map Value.str := by
  induction texts with
  | nil => rfl
  | cons text rest ih =>
      cases rest with
      | nil => rfl
      | cons own rest => exact congrArg (.str text :: ·) ih

theorem length_spreadSymbols (next count : Nat) :
    (spreadSymbols next count).length = 2 * count := by
  induction count generalizing next with
  | zero => rfl
  | succ count ih =>
      rw [spreadSymbols, List.length_cons, List.length_cons, ih]
      omega

theorem symbols_withElements (text : List Char) (more : List (List Char)) :
    (withElements before after (text :: more)).symbols =
      symbolsFrom 0 before ++ .hole (nextHole before) ::
        (spreadSymbols (nextHole before + 1) more.length ++
          symbolsFrom (nextHole before + 1 + more.length) after) := by
  have hcount : ∀ segments : List Segment, Template.holeCount ⟨segments⟩ =
    (Template.holes ⟨segments⟩).length := fun _ ↦ rfl
  rw [Template.symbols, withElements, symbolsFrom_append, symbolsFrom_append, symbolsFrom_elements,
    hcount (List.intersperse _ _), holes_elements, List.length_map, List.length_cons,
    Nat.zero_add, Nat.add_right_comm, Nat.add_assoc]
  rfl

theorem items_withElements (text : List Char) (more : List (List Char)) :
    (withElements before after (text :: more)).items =
      (placeFrom 0 (symbolsFrom 0 before)).map
          (Retelling.behind (nextHole before) (nextPlace before) more.length).item ++
        spreadItems (nextHole before) (nextPlace before) more.length
          (placeFrom (nextPlace before + 1) (symbolsFrom (nextHole before + 1) after)) := by
  rw [map_item_placeFrom_before before (Nat.le_refl _) (Nat.le_refl _), spreadItems,
    map_item_placeFrom_behind (Nat.lt_succ_self _), map_symbol_symbolsFrom (Nat.lt_succ_self _),
    Template.items, symbols_withElements, placeFrom_append, placeFrom, placeFrom_append,
    length_spreadSymbols, Nat.zero_add]

theorem holes_withList : (withList before after texts).holes =
    Template.holes ⟨before⟩ ++ .list texts :: Template.holes ⟨after⟩ := by
  simp [withList, Template.holes]

theorem holes_withElements : (withElements before after texts).holes =
    Template.holes ⟨before⟩ ++ (texts.map Value.str ++ Template.holes ⟨after⟩) := by
  have helements := holes_elements texts
  simp only [withElements, Template.holes, List.filterMap_append] at helements ⊢
  rw [helements]

theorem spreadValues_holes (text : List Char) (more : List (List Char)) :
    SpreadValues (nextHole before) (nextPlace before) text more
      (withList before after (text :: more)).holes
      (withElements before after (text :: more)).holes := by
  rw [holes_withList, holes_withElements]
  exact spreadValues_append _ _ _

theorem not_mem_holesOf_front :
    nextHole before ∉ holesOf (placeFrom 0 (symbolsFrom 0 before)) := by
  rw [holesOf_placeFrom, List.mem_range'_1, Nat.zero_add]
  exact fun h ↦ Nat.lt_irrefl _ h.2

theorem not_mem_holesOf_rest (start : Nat) :
    nextHole before ∉ holesOf (placeFrom start (symbolsFrom (nextHole before + 1) after)) := by
  rw [holesOf_placeFrom, List.mem_range'_1]
  omega

theorem lexemes_withElements (text : List Char) (more : List (List Char)) :
    SameOutcome (Spread (fun _ _ _ ↦ True) (nextHole before) (nextPlace before) more.length)
      ((withList before after (text :: more)).lexemes.mapError
        (Retelling.behind (nextHole before) (nextPlace before) more.length).error)
      (withElements before after (text :: more)).lexemes := by
  rw [Template.lexemes, Template.lexemes, items_withList, items_withElements]
  exact scanAll_spread_of_scan (scansSpread_of_front sound_empty retold_empty
    (not_mem_holesOf_front before) (not_mem_holesOf_rest before after _))

/-- No command substitution is open behind the text of a template. -/
def Template.ClosesSubstitutions (t : Template) : Prop :=
  ∃ out, scan {} {} t.items = .ok out ∧ ∀ frame ∈ out.1.frames, frame.isSubstitution = false

variable {before}

theorem lexemes_withElements_of_outside (houtside : Template.ClosesSubstitutions ⟨before⟩)
    (text : List Char) (more : List (List Char)) :
    SameOutcome (Spread apartUnlessRefused (nextHole before) (nextPlace before) more.length)
      ((withList before after (text :: more)).lexemes.mapError
        (Retelling.behind (nextHole before) (nextPlace before) more.length).error)
      (withElements before after (text :: more)).lexemes := by
  obtain ⟨out, hscan, hframes⟩ := houtside
  rw [Template.lexemes, Template.lexemes, items_withList, items_withElements]
  exact scanAll_spread_of_scan (scansSpread_of_outside hscan hframes
    (not_mem_holesOf_rest before after _) (not_mem_holesOf_front before))

end Templates

/-- The error of a text with `count` more symbols behind a place. -/
def LexError.shifted (place count : Nat) : LexError → LexError
  | .unterminated quoting opened =>
    .unterminated quoting (if opened ≤ place then opened else opened + count)
  | .trailingEscape => .trailingEscape

theorem error_behind (hole place count : Nat) :
    (Retelling.behind hole place count).error = LexError.shifted place (2 * count) := by
  funext e
  cases e <;> rfl

namespace Template

variable {t t' : Template} {options : FillOptions}

theorem compile_eq_of_fill {lexemes lexemes' : List Lexeme} (h : t.lexemes = .ok lexemes)
    (h' : t'.lexemes = .ok lexemes')
    (hfill : fill options t'.holes lexemes' = fill options t.holes lexemes) :
    t'.compile options = t.compile options := by
  rw [compile, compile, tokens_of_lexemes h, tokens_of_lexemes h', hfill]

end Template

/-- A list outside quotes against its elements in holes of their own. When the text is not well
formed, only the places behind the holes differ. Otherwise both give the same command line or the
same error, and the same pipeline when the hole stands outside all substitutions or the list has
one element. -/
theorem list_hole_as_elements (before after : List Segment) (texts : List (List Char))
    (options : FillOptions) (hne : texts ≠ []) (hsplit : options.splitsWords = true)
    (hunquoted : ∀ lexemes, (withList before after texts).lexemes = .ok lexemes →
      ∀ lexeme ∈ lexemes, lexeme.token = .hole (nextHole before) →
        lexeme.quoting.isQuoted = false) :
    (∀ e, (withList before after texts).lexemes = .error e →
      (withList before after texts).compile options = .error (.lex e) ∧
      (withElements before after texts).compile options =
        .error (.lex (e.shifted (nextPlace before) (2 * (texts.length - 1))))) ∧
    ∀ lexemes, (withList before after texts).lexemes = .ok lexemes →
      ((withElements before after texts).tokens options).map commandLine =
        ((withList before after texts).tokens options).map commandLine ∧
      (Template.ClosesSubstitutions ⟨before⟩ ∨ texts.length = 1 →
        (withElements before after texts).compile options =
          (withList before after texts).compile options) := by
  obtain ⟨text, more, rfl⟩ := List.exists_cons_of_ne_nil hne
  have hvalues := spreadValues_holes before after text more
  have houtcome := lexemes_withElements before after text more
  refine ⟨fun e he ↦ ⟨Template.compile_of_lexemes_error he, Template.compile_of_lexemes_error ?_⟩,
    fun lexemes hlex ↦ ?_⟩
  -- The texts are well formed together, so one error is the other one at its own place.
  · rw [he, error_behind] at houtcome
    generalize (withElements before after (text :: more)).lexemes = second at houtcome
    cases houtcome
    rfl
  · have hquoted := hunquoted lexemes hlex
    have hknown : ∀ index ∈ holeIndices lexemes,
        index < (withList before after (text :: more)).holes.length :=
      fun index hindex ↦ Template.lt_holeCount_of_mem hlex hindex
    rw [hlex] at houtcome
    obtain ⟨lexemes', hlex', hspread⟩ := houtcome.exists_of_ok rfl
    refine ⟨?_, ?_⟩
    · rw [Template.tokens_of_lexemes hlex, Template.tokens_of_lexemes hlex', ← mapError_map,
        ← mapError_map, hvalues.map_commandLine_fill hknown hsplit hquoted hspread]
    · rintro (houtside | hlength)
      · have hblanks := lexemes_withElements_of_outside after houtside text more
        rw [hlex, hlex'] at hblanks
        cases hblanks with
        | ok hapart =>
            exact Template.compile_eq_of_fill hlex hlex'
              (hvalues.fill_eq_of_apart hknown hsplit hquoted hapart)
      · have hmore : more = [] := List.length_eq_zero_iff.1 (Nat.succ.inj hlength)
        exact Template.compile_eq_of_fill hlex hlex'
          (hvalues.fill_eq_of_singleton hknown hsplit hquoted hmore hspread)

/-- A list behind a backslash, glued to text on either side. -/
def gluedList : Template :=
  withList [.literal "cp a\\".toList] [.literal "b >out".toList] [['x'], "it's".toList]

def gluedElements : Template :=
  withElements [.literal "cp a\\".toList] [.literal "b >out".toList] [['x'], "it's".toList]

def gluedLexemes : List Lexeme :=
  [⟨.piece ⟨"cp".toList, "cp".toList, false⟩, .bare, {}⟩, ⟨.blank, .bare, {}⟩,
    ⟨.piece ⟨['a'], ['a'], false⟩, .bare, {}⟩, ⟨.hole 0, .escaped, {}⟩,
    ⟨.piece ⟨['b'], ['b'], false⟩, .bare, {}⟩, ⟨.blank, .bare, {}⟩,
    ⟨.operator (.redirect ⟨none, .out⟩), .bare, {}⟩,
    ⟨.piece ⟨"out".toList, "out".toList, false⟩, .bare, {}⟩]

theorem list_hole_as_elements_glued :
    gluedList.lexemes = .ok gluedLexemes ∧
      Template.ClosesSubstitutions ⟨[.literal "cp a\\".toList]⟩ ∧
      gluedElements.compile {} = gluedList.compile {} ∧
      (gluedElements.compile {}).map Pipeline.line = .ok "cp a'x' 'it'\\''s'b >out".toList := by
  have hlexemes : gluedList.lexemes = .ok gluedLexemes := by decide +kernel
  have hscan : scan {} {} (Template.items ⟨[.literal "cp a\\".toList]⟩) =
      .ok (⟨[], .escape, ⟨"a\\".toList, ['a'], false⟩, .bare, .blank⟩, gluedLexemes.take 2) := by
    decide +kernel
  have hcloses : Template.ClosesSubstitutions ⟨[.literal "cp a\\".toList]⟩ := ⟨_, hscan, by simp⟩
  have hunquoted : ∀ lexemes, gluedList.lexemes = .ok lexemes →
      ∀ lexeme ∈ lexemes, lexeme.token = .hole 0 → lexeme.quoting.isQuoted = false := by
    intro lexemes h
    obtain rfl : gluedLexemes = lexemes := Except.ok.inj (hlexemes.symm.trans h)
    decide
  have hsame := ((list_hole_as_elements _ _ _ {} (by simp) (by decide) hunquoted).2 _ hlexemes).2
    (.inl hcloses)
  exact ⟨hlexemes, hcloses, hsame, by decide +kernel⟩

/-- A quote that is left open behind the hole is reported at another place, and inside a
substitution a list ends the word around it, which its elements do not. -/
theorem list_hole_differs_from_elements :
    ({} : FillOptions).splitsWords = true ∧
      Template.ClosesSubstitutions ⟨[.literal "echo ".toList]⟩ ∧
      (withList [.literal "echo ".toList] [.literal " '".toList] [['a'], ['b']]).compile {} =
        .error (.lex (.unterminated .single 7)) ∧
      (withElements [.literal "echo ".toList] [.literal " '".toList] [['a'], ['b']]).compile {} =
        .error (.lex (.unterminated .single 9)) ∧
      (withList [.literal "$(echo ".toList] [.literal ")".toList] [['a'], ['b']]).compile {} =
        .ok ⟨[⟨[⟨"$(echo 'a'".toList, "$(echo a".toList, true⟩,
          ⟨"'b')".toList, "b)".toList, false⟩], []⟩], "$(echo 'a' 'b')".toList⟩ ∧
      (withElements [.literal "$(echo ".toList] [.literal ")".toList] [['a'], ['b']]).compile {} =
        .ok ⟨[⟨[⟨"$(echo 'a' 'b')".toList, "$(echo a b)".toList, true⟩], []⟩],
          "$(echo 'a' 'b')".toList⟩ := by
  have hscan : scan {} {} (Template.items ⟨[.literal "echo ".toList]⟩) =
      .ok (⟨[], .plain, {}, .bare, .blank⟩,
        [⟨.piece ⟨"echo".toList, "echo".toList, false⟩, .bare, {}⟩, ⟨.blank, .bare, {}⟩]) := by
    decide +kernel
  exact ⟨by decide, ⟨_, hscan, by simp⟩, by decide +kernel, by decide +kernel, by decide +kernel,
    by decide +kernel⟩

end ShellTemplate
