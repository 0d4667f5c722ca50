import ShellTemplate.Proofs.Backticked
import ShellTemplate.Proofs.Verbatim.Bodies
import ShellTemplate.Proofs.Verbatim.Delimiters

/-!
# Text whose tokens are read back

Every character keeps what is read so far readable, and so does every backtick body whose operators
are apart. So the tokens of a text without holes are read back from the text that they make, if its
operators are apart too.
-/

namespace ShellTemplate

theorem piece_eq {p q : Piece} (hraw : p.raw = q.raw) (htext : p.text = q.text)
    (hexpands : p.expands = q.expands) : p = q := by
  cases p
  cases q
  simp_all

namespace Scanner

variable {loose : Prop} {scope : Scope} {s u : Scanner} {tokens : List Token}
  {rest : List Symbol} {c : Char} {op op' : Operator}

/-- A scanner that has read nothing of a word rests. -/
theorem Sound.resting (hs : s.Sound) (hmode : s.mode.inWord) (hown : s.previous ≠ .word)
    (hnil : s.spelled = []) : s.Resting := by
  have hplain : s.mode = .plain := by
    rcases hmode with hplain | hescape | ⟨place, hdollar⟩
    · exact hplain
    · have hraw := (hs.escape hescape).1
      simp [spelled, hescape, hraw] at hnil
    · simp [spelled, hdollar] at hnil
  have hraw : s.piece.raw = [] := by rwa [spelled_of_plain hplain] at hnil
  refine ⟨not_not.1 fun hframes ↦ ?_, hplain, hs.piece_empty hplain hraw, hown⟩
  rcases hs.going hframes with hgoing | hword
  · rw [core_of_plain hplain] at hgoing
    exact hgoing hraw
  · exact hown hword

theorem settled_of_delimiter (hc : c ∈ delimiters ∨ s.mode = .plain) (hmode : s.mode.endsWord)
    (hopen : c = '(' → s.mode = .plain) :
    s.complete? scope c = none ∧ s.settleBefore scope c = s.settle scope := by
  by_cases hplain : s.mode = .plain
  · rw [settleBefore_of_plain hplain, settle_of_plain hplain]
    exact ⟨complete?_of_plain hplain c, rfl⟩
  · have hexpansion : startsExpansion c = false ∧ c ≠ '\x7b' := by
      have hdelimiter := hc.resolve_right hplain
      simp only [delimiters, List.mem_cons, List.not_mem_nil, or_false] at hdelimiter
      rcases hdelimiter with rfl | rfl | rfl | rfl | rfl | rfl | rfl | rfl | rfl | rfl | rfl <;>
        decide
    obtain ⟨hnone, hbefore, -⟩ := settled_of_endsWord scope hmode hexpansion.1 hexpansion.2 hopen
    exact ⟨hnone, hbefore⟩

theorem settle_previous (hmode : s.mode.endsWord) : (s.settle scope).1.previous = s.previous :=
  (settled_of_endsWord scope (c := ' ') hmode (by decide) (by decide) fun h ↦ by simp at h).2.2.2.2.2

theorem Synced.atEnd (h : s.Synced scope) (hs : s.Sound) (hmode : s.mode.endsWord)
    (hframes : s.frames = []) (hown : s.previous ≠ .word)
    (hstarts : ∀ c ∈ s.spelled.head?, c ∉ delimiters) : (s.settle scope).1.AtEnd scope := by
  obtain ⟨-, -, -, hplain, hframes', hprevious⟩ :=
    settled_of_endsWord scope (c := ' ') hmode (by decide) (by decide) fun hc ↦ by simp at hc
  have hraw := @raw_settle scope s hmode
  constructor
  · exact hplain
  · exact hframes'.trans hframes
  · rwa [hprevious]
  · intro hnil
    rcases hmode with hplain | ⟨place, hdollar⟩
    · rw [settle_of_plain hplain] at hnil ⊢
      exact hs.piece_empty hplain hnil
    · simp [hraw, spelled, hdollar] at hnil
  · intro hne
    refine ⟨hne, ?_, h.readsAs hframes hmode hmode⟩
    rwa [hraw]

/-- What ends a word, when it does not go on. -/
theorem ends_of_not_staysInWord (hmode : s.mode.inWord) (h : ¬ s.StaysInWord c) :
    s.frames = [] ∧ s.mode.endsWord ∧ (c = '(' → s.mode = .plain) ∧
      (c ∈ delimiters ∨ (c = '#' ∧ s.mode = .plain ∧ s.atWordStart = true)) := by
  unfold StaysInWord at h
  rcases hmode with hplain | hescape | ⟨place, hdollar⟩
  · rw [hplain] at h
    obtain ⟨hframes, hends⟩ := Classical.not_imp.1 h
    refine ⟨hframes, .inl hplain, fun _ ↦ hplain, ?_⟩
    by_cases hc : c ∈ delimiters
    · exact .inl hc
    · obtain ⟨hhash, hstart⟩ := Classical.not_imp.1 (not_and.1 hends hc)
      exact .inr ⟨hhash, hplain, by simpa using hstart⟩
  · rw [hescape] at h
    exact absurd trivial h
  · rw [hdollar] at h
    obtain ⟨hopen, hends⟩ := not_or.1 h
    obtain ⟨hframes, hc⟩ := Classical.not_imp.1 hends
    exact ⟨hframes, .inr ⟨place, hdollar⟩, fun hc' ↦ absurd hc' hopen, .inl (not_not.1 hc)⟩

theorem Verbatim.stepWord (h : Verbatim loose scope s tokens (.char c :: rest)) (hs : s.Sound)
    (hmode : s.mode.inWord) (hown : s.previous ≠ .word) (hbody : ¬ s.OpensBodyAt scope c) :
    Verbatim loose scope (s.stepChar scope c 0).1
      (tokens ++ (s.stepChar scope c 0).2.map Lexeme.token) rest := by
  obtain ⟨hcomplete, htrails, hholds⟩ := h
  cases hholds with
  | hole _ _ _ hprevious => exact absurd hprevious hown
  | comment hcomment => simp [hcomment, Mode.inWord] at hmode
  | pending op hpending =>
      rcases hmode with hmode | hmode | ⟨place, hmode⟩ <;> simp [hmode, Mode.pending?] at hpending
  | word _ _ hsynced hstarts =>
      by_cases hstay : s.StaysInWord c
      · obtain ⟨s', hstep, hspells, hsynced'⟩ := hsynced.stepChar hmode hstay hbody hown
        rw [hstep, List.map_nil, List.append_nil]
        refine ⟨hcomplete, hspells.previous ▸ htrails, .word hspells.mode
          (hspells.previous ▸ hown) hsynced' ?_⟩
        rw [hspells.spelled]
        cases hspelled : s.spelled with
        | cons d word =>
            rw [hspelled] at hstarts
            exact hstarts
        | nil =>
            have hresting := hs.resting hmode hown hspelled
            have hgoes : s.GoesOn c := by
              unfold StaysInWord at hstay
              rwa [hresting.mode] at hstay
            rintro d ⟨⟩
            exact (hgoes hresting.frames).1
      · obtain ⟨hframes, hends, hopen, hc⟩ := ends_of_not_staysInWord hmode hstay
        have hu := hsynced.atEnd hs hends hframes hown hstarts
        obtain ⟨hnone, hbefore⟩ := @settled_of_delimiter scope s c
          (hc.imp_right fun hhash ↦ hhash.2.1) hends hopen
        have hstep : s.stepChar scope c 0 = (s.settle scope).1.readChar scope c 0 := by
          unfold stepChar
          rw [hnone]
          simp only [hbefore, Step.andThen, settle_silent hends, List.nil_append]
        rw [hstep]
        refine verbatim_readDelimiter hcomplete ?_ hu ?_ ?_
        · rwa [settle_previous hends]
        · refine hc.imp_right fun hhash ↦ ⟨hhash.1, ?_⟩
          rw [settle_of_plain hhash.2.1]
          exact hhash.2.2
        · intro hc' _
          exact hsynced.readsAs hframes hends (hopen hc')

theorem completed_apart {mode : Mode} (hpending : mode.pending? = some op)
    (hcompleted : mode.completed? c = some op') :
    ((Token.operator op).Legible scope → (Token.operator op').Legible scope) ∧
      ∀ x : Token, x.Apart loose scope (.operator op) → x.Apart loose scope (.operator op') := by
  have hredirect : ∀ {fd : Option Nat} {kind kind' : RedirectKind},
      kind'.text.head? = kind.text.head? →
      ((Token.operator (.redirect ⟨fd, kind⟩)).Legible scope →
        (Token.operator (.redirect ⟨fd, kind'⟩)).Legible scope) ∧
      ∀ x : Token, x.Apart loose scope (.operator (.redirect ⟨fd, kind⟩)) →
        x.Apart loose scope (.operator (.redirect ⟨fd, kind'⟩)) := by
    intro fd kind kind' hkind
    refine ⟨fun h ↦ by cases fd <;> exact h, fun x h ↦ ?_⟩
    cases x with
    | piece | hole | operator | blank => exact h
  cases mode with
  | plain | comment | escape | dollar => cases hpending
  | pipe =>
      cases hpending
      simp only [Mode.completed?, Option.ite_none_right_eq_some, Option.some.injEq] at hcompleted
      obtain ⟨-, rfl⟩ := hcompleted
      exact ⟨id, fun x h ↦ by cases x <;> exact h⟩
  | ampersand =>
      cases hpending
      simp only [Mode.completed?, Option.ite_none_right_eq_some, Option.some.injEq] at hcompleted
      obtain ⟨-, rfl⟩ := hcompleted
      exact ⟨id, fun x h ↦ by cases x <;> exact h⟩
  | greater fd =>
      cases hpending
      simp only [Mode.completed?] at hcompleted
      split_ifs at hcompleted <;>
        · cases hcompleted
          exact hredirect rfl
  | less fd =>
      cases hpending
      simp only [Mode.completed?] at hcompleted
      split_ifs at hcompleted
      cases hcompleted
      exact hredirect rfl

theorem verbatim_newline (hmode : u.mode = .plain) (hframes : u.frames = []) (hpiece : u.piece = {})
    (hcomplete : Sealed loose scope tokens) :
    Verbatim loose scope (u.emitOperator .newline).1
      (tokens ++ (u.emitOperator .newline).2.map Lexeme.token) rest := by
  refine verbatim_emitOperator hmode hframes (fun _ ↦ hpiece) ?_
  rw [hpiece]
  refine Sealed.concat (y := .operator .newline) ?_ trivial fun x _ ↦ ?_
  · rwa [Piece.tokens, if_pos rfl, List.append_nil]
  · cases x <;> trivial

/-- Behind a hole the word ends. -/
theorem verbatim_behindHole (hmode : u.mode = .plain) (hframes : u.frames = [])
    (hpiece : u.piece = {}) (hcomplete : Sealed loose scope tokens)
    (htrails : Trails u.previous tokens.getLast?) (hloose : loose) (hc : c ∈ wordEnds) :
    Verbatim loose scope (u.readChar scope c 0).1
      (tokens ++ (u.readChar scope c 0).2.map Lexeme.token) rest := by
  have hempty : u.piece.raw = [] → u.piece = {} := fun _ ↦ hpiece
  have hflushed : tokens ++ u.piece.tokens = tokens := by
    rw [hpiece, Piece.tokens, if_pos rfl, List.append_nil]
  have hwhole : ∀ op ∈ [Operator.semicolon, .closeParen, .pipe, .background],
      Sealed loose scope (tokens ++ u.piece.tokens ++ [.operator op]) := by
    intro op hop
    rw [hflushed]
    simp only [List.mem_cons, List.not_mem_nil, or_false] at hop
    refine hcomplete.concat ?_ fun x _ ↦ ?_
    · rcases hop with rfl | rfl | rfl | rfl <;> trivial
    · cases x with
      | hole | operator | blank => trivial
      | piece p => rcases hop with rfl | rfl | rfl | rfl <;> trivial
  have hblank : Verbatim loose scope u.emitBlank.1 (tokens ++ u.emitBlank.2.map Lexeme.token) rest :=
    verbatim_emitBlank hmode hframes hempty hcomplete htrails (hflushed.symm ▸ hcomplete)
      fun _ ↦ hloose
  have hpending : ∀ mode op, mode.pending? = some op →
      op ∈ [Operator.semicolon, .closeParen, .pipe, .background] →
      Verbatim loose scope (u.inMode mode) tokens rest := fun mode op hop hmem ↦
    ⟨hcomplete, htrails, .pending op hop hframes hempty (hwhole op hmem)⟩
  have hbare : u.readChar scope c 0 = u.readBare scope c 0 := by
    unfold readChar
    rw [hframes]
  rw [hbare]
  simp only [wordEnds, List.mem_cons, List.not_mem_nil, or_false] at hc
  rcases hc with rfl | rfl | rfl | rfl | rfl | rfl | rfl | rfl
  · exact hblank
  · exact hblank
  · exact hblank
  · exact verbatim_newline hmode hframes hpiece hcomplete
  · have hpipe := hpending .pipe .pipe rfl (by simp)
    rwa [← List.append_nil tokens] at hpipe
  · have hampersand := hpending .ampersand .background rfl (by simp)
    rwa [← List.append_nil tokens] at hampersand
  · exact verbatim_emitOperator hmode hframes hempty (hwhole .semicolon (by simp))
  · exact verbatim_emitOperator hmode hframes hempty (hwhole .closeParen (by simp))

/-- Whatever is read, it can be read back. -/
theorem Verbatim.stepChar (h : Verbatim loose scope s tokens (.char c :: rest)) (hs : s.Sound)
    (hbody : ¬ s.OpensBodyAt scope c) :
    Verbatim loose scope (s.stepChar scope c 0).1
      (tokens ++ (s.stepChar scope c 0).2.map Lexeme.token) rest := by
  have hword := h.stepWord hs
  obtain ⟨hcomplete, htrails, hholds⟩ := h
  cases hholds with
  | word hmode hown => exact hword hmode hown hbody
  | hole hmode hframes hpiece _ hloose hnext =>
      obtain ⟨d, hd, hsymbol⟩ := hnext _ rfl
      cases hsymbol
      rw [stepChar_of_plain hmode]
      exact verbatim_behindHole hmode hframes hpiece hcomplete htrails hloose hd
  | comment hmode hrest =>
      by_cases hnewline : c = '\n'
      · have hstep : s.stepChar scope c 0 = (s.inMode .plain).emitOperator .newline := by
          simp [Scanner.stepChar, complete?, hmode, hnewline]
        rw [hstep]
        exact verbatim_newline rfl hrest.frames hrest.piece hcomplete
      · have hstep : s.stepChar scope c 0 = (s, []) := by
          simp [Scanner.stepChar, complete?, hmode, hnewline]
        rw [hstep, List.map_nil, List.append_nil]
        exact ⟨hcomplete, htrails, .comment hmode hrest⟩
  | pending op hmode hframes hempty hwhole =>
      cases hcompleted : s.mode.completed? c with
      | some op' =>
          have hstep : s.stepChar scope c 0 = (s.inMode .plain).emitOperator op' := by
            unfold Scanner.stepChar
            rw [complete?_of_pending hmode, hcompleted]
            rfl
          obtain ⟨hlegible, hapart⟩ := @completed_apart loose scope _ _ _ _ hmode hcompleted
          rw [hstep]
          exact verbatim_emitOperator rfl hframes hempty (hwhole.replace hlegible hapart)
      | none =>
          have hafter : Verbatim loose scope ((s.inMode .plain).emitOperator op).1
              (tokens ++ ((s.inMode .plain).emitOperator op).2.map Lexeme.token)
              (.char c :: rest) := verbatim_emitOperator rfl hframes hempty hwhole
          have hnone : s.complete? scope c = none := by
            rw [complete?_of_pending hmode, hcompleted]
            rfl
          have hbefore := @settleBefore_of_pending scope _ _ hmode c
          obtain ⟨hsound, hplain⟩ :=
            (hs.settled (ne_escape_of_pending hmode)).emitOperator rfl hframes op
          have hlast := hafter.stepWord hsound (.inl hplain) ?_ ?_
          · rw [stepChar_of_plain hplain, List.append_assoc, ← List.map_append] at hlast
            unfold Scanner.stepChar
            rw [hnone]
            simpa only [hbefore, Step.andThen] using hlast
          · rw [emitOperator_eq (s := s.inMode .plain) hempty]
            simp
          · rw [← hbefore]
            rwa [opensBodyAt_settled hnone (by rw [hbefore]; exact hplain)]

section Body

variable {before : Previous} {t : Scanner} {lexemes lexemes' : List Lexeme}

/-- At a backtick, scanners in the same place of a word have the same body to read. -/
theorem Like.settleBody (h : s.Like before t) (hmode : s.mode.inWord)
    (hopen : s.OpensBodyAt scope '\x60') :
    ∃ u v, s.settleBefore scope '\x60' = (u, []) ∧ t.settleBefore scope '\x60' = (v, []) ∧
      u.Like before v ∧ u.mode = .plain ∧ u.previous = s.previous ∧ u.piece.raw = s.spelled := by
  rcases hmode with hplain | hescape | ⟨place, hdollar⟩
  · refine ⟨s, t, settleBefore_of_plain hplain _, settleBefore_of_plain (h.mode.trans hplain) _, h,
      hplain, rfl, (spelled_of_plain hplain).symm⟩
  · exact absurd hopen (not_opensBodyAt_of_escape hescape)
  · obtain ⟨u, v, -, hs, -, ht, hlike, hplain, -, hprevious, hraw⟩ :=
      @Like.settleDollar scope _ _ '\x60' _ _ h hdollar (by decide)
    refine ⟨u, v, hs, ht, hlike, hplain, hprevious, ?_⟩
    rw [hraw, spelled, hdollar]

theorem Like.stepBody (h : s.Like before t) (hmode : s.mode.inWord)
    (hopen : s.OpensBodyAt scope '\x60') (hfilled : Filled lexemes) (hfilled' : Filled lexemes')
    (htokens : lexemes'.map Lexeme.token = lexemes.map Lexeme.token) :
    ∃ s' t', s.stepBody scope lexemes = (s', []) ∧ t.stepBody scope lexemes' = (t', []) ∧
      s'.Like before t' ∧ s'.mode = .plain ∧ s'.previous = s.previous ∧
        s'.spelled = s.spelled ++
          ('\x60' :: escapeBackticks (plainText (lexemes.map Lexeme.token)) ++ ['\x60']) := by
  obtain ⟨u, v, hs, ht, hlike, hplain, hprevious, hraw⟩ := h.settleBody hmode hopen
  obtain ⟨s', hs', hgrown⟩ := @spliceBody_filled scope u lexemes hfilled hplain
  obtain ⟨t', ht', hgrown'⟩ :=
    @spliceBody_filled scope v lexemes' hfilled' (hlike.mode.trans hplain)
  rw [htokens] at hgrown'
  refine ⟨s', t', ?_, ?_, ?_, hgrown.mode, hgrown.previous.trans hprevious, ?_⟩
  · rw [Scanner.stepBody, hs, Step.andThen, hs']
    rfl
  · rw [Scanner.stepBody, ht, Step.andThen, ht']
    rfl
  · constructor
    · rw [hgrown'.frames, hgrown.frames, hlike.frames]
    · rw [hgrown'.mode, hgrown.mode]
    · refine piece_eq ?_ ?_ ?_
      · rw [hgrown'.raw, hgrown.raw, hlike.piece]
      · rw [hgrown'.text, hgrown.text, hlike.piece]
      · rw [hgrown'.expands, hgrown.expands, hlike.piece]
    · rw [hgrown.previous]
      exact hlike.own
    · rw [hgrown'.previous]
      exact hlike.previous
    · exact hlike.fresh
  · rw [spelled_of_plain hgrown.mode, hgrown.raw, hraw]

/-- A body whose tokens are read back is read back itself, if its operators are apart. -/
theorem Synced.stepBody (h : s.Synced scope) (hmode : s.mode.inWord) (hown : s.previous ≠ .word)
    (hopen : s.OpensBodyAt scope '\x60') (hfilled : Filled lexemes)
    (hinner : Sealed False (s.bodyScope scope) (lexemes.map Lexeme.token))
    (hoperators : (lexemes.map Lexeme.token).IsChain Token.OperatorsApart) :
    ∃ s', s.stepBody scope lexemes = (s', []) ∧ s'.mode = .plain ∧ s'.previous = s.previous ∧
      s'.spelled = s.spelled ++
        ('\x60' :: escapeBackticks (plainText (lexemes.map Lexeme.token)) ++ ['\x60']) ∧
      s'.Synced scope := by
  have hself : s.Like s.previous s := ⟨rfl, rfl, rfl, hown, rfl, hown⟩
  obtain ⟨s', -, hstep, -, -, hplain, hprevious, hspelled⟩ :=
    @Like.stepBody scope _ _ _ _ _ hself hmode hopen hfilled hfilled rfl
  refine ⟨s', hstep, hplain, hprevious, hspelled, fun u hu ↦ ?_⟩
  obtain ⟨t, hreads, hlike⟩ := h u hu
  have hopen' := (@Like.opensBodyAt_iff scope s t '\x60' _ hlike hmode).2 hopen
  obtain ⟨lexemes', hscan, htokens⟩ := scanAll_plainText hinner.legible hinner.apart hoperators
  have hbody := Reads.body hopen' (plainText (lexemes.map Lexeme.token))
  have hscope : t.bodyScope scope = s.bodyScope scope := by
    obtain ⟨v, w, hs, ht, hlike', -⟩ := @Like.settleBody scope _ _ _ hlike hmode hopen
    rw [bodyScope, bodyScope, hs, ht, hlike'.frames]
  obtain ⟨s'', t', hstep', hread, hlike', -⟩ :=
    @Like.stepBody scope _ _ _ _ _ hlike hmode hopen hfilled (filled_of_scanAll hscan) htokens
  obtain rfl : s' = s'' := congrArg Prod.fst (hstep.symm.trans hstep')
  rw [hscope, hscan] at hbody
  simp only [Except.map, hread] at hbody
  refine ⟨t', ?_, hlike'⟩
  rw [hspelled]
  exact hreads.append hbody

theorem Verbatim.stepBodyWord (h : Verbatim loose scope s tokens (.char '\x60' :: rest))
    (hmode : s.mode.inWord) (hown : s.previous ≠ .word) (hopen : s.OpensBodyAt scope '\x60')
    (hfilled : Filled lexemes)
    (hinner : Sealed False (s.bodyScope scope) (lexemes.map Lexeme.token))
    (hoperators : (lexemes.map Lexeme.token).IsChain Token.OperatorsApart)
    (behind : List Symbol) :
    Verbatim loose scope (s.stepBody scope lexemes).1
      (tokens ++ (s.stepBody scope lexemes).2.map Lexeme.token) behind := by
  obtain ⟨hcomplete, htrails, hholds⟩ := h
  cases hholds with
  | hole _ _ _ hprevious => exact absurd hprevious hown
  | comment hcomment => simp [hcomment, Mode.inWord] at hmode
  | pending op hpending =>
      rcases hmode with hmode | hmode | ⟨place, hmode⟩ <;> simp [hmode, Mode.pending?] at hpending
  | word _ _ hsynced hstarts =>
      obtain ⟨s', hstep, hplain, hprevious, hspelled, hsynced'⟩ :=
        hsynced.stepBody hmode hown hopen hfilled hinner hoperators
      rw [hstep, List.map_nil, List.append_nil]
      refine ⟨hcomplete, hprevious ▸ htrails, .word (.inl hplain) (hprevious ▸ hown) hsynced' ?_⟩
      rw [hspelled]
      cases hword : s.spelled with
      | nil =>
          rintro c ⟨⟩
          decide
      | cons d word =>
          rw [hword] at hstarts
          exact hstarts

theorem Verbatim.stepBody (h : Verbatim loose scope s tokens (.char c :: rest)) (hs : s.Sound)
    (hopen : s.OpensBodyAt scope c) (hfilled : Filled lexemes)
    (hinner : Sealed False (s.bodyScope scope) (lexemes.map Lexeme.token))
    (hoperators : (lexemes.map Lexeme.token).IsChain Token.OperatorsApart)
    (behind : List Symbol) :
    Verbatim loose scope (s.stepBody scope lexemes).1
      (tokens ++ (s.stepBody scope lexemes).2.map Lexeme.token) behind := by
  obtain ⟨hnone, rfl, hopens⟩ := hopen
  have hword := h
  obtain ⟨hcomplete, htrails, hholds⟩ := h
  cases hholds with
  | word hmode hown =>
      exact hword.stepBodyWord hmode hown ⟨hnone, rfl, hopens⟩ hfilled hinner hoperators behind
  | hole _ _ _ _ _ hnext =>
      obtain ⟨d, hd, hsymbol⟩ := hnext _ rfl
      cases hsymbol
      exact absurd hd (by decide)
  | comment hmode => exact absurd hmode (plain_of_complete_eq_none hnone).1
  | pending op hmode hframes hempty hwhole =>
      have hbefore := @settleBefore_of_pending scope _ _ hmode '\x60'
      obtain ⟨hsound, hplain⟩ :=
        (hs.settled (ne_escape_of_pending hmode)).emitOperator rfl hframes op
      have hafter : Verbatim loose scope ((s.inMode .plain).emitOperator op).1
          (tokens ++ ((s.inMode .plain).emitOperator op).2.map Lexeme.token)
          (.char '\x60' :: rest) := verbatim_emitOperator rfl hframes hempty hwhole
      have hlast := @Verbatim.stepBodyWord _ _ _ _ _ lexemes hafter (.inl hplain) ?_ ?_ hfilled ?_
        hoperators behind
      · rw [Scanner.stepBody, settleBefore_of_plain hplain, List.append_assoc, ← List.map_append]
          at hlast
        rw [Scanner.stepBody, hbefore]
        exact hlast
      · rw [emitOperator_eq (s := s.inMode .plain) hempty]
        simp
      · refine ⟨complete?_of_plain hplain _, rfl, ?_⟩
        rw [settleBefore_of_plain hplain]
        rwa [hbefore] at hopens
      · rw [bodyScope, settleBefore_of_plain hplain]
        rwa [bodyScope, hbefore] at hinner

end Body

theorem verbatim_start : Verbatim loose scope {} [] rest :=
  Resting.verbatim ⟨rfl, rfl, rfl, by simp⟩ sealed_nil (by rintro _ ⟨⟩)

/-- What is held when the text ends is read back with the rest. -/
theorem Verbatim.finish (h : Verbatim loose scope s tokens []) (hs : s.Sound)
    {final : List Lexeme} (hfinish : s.finish scope = .ok final) :
    Sealed loose scope (tokens ++ final.map Lexeme.token) := by
  unfold Scanner.finish at hfinish
  split at hfinish
  · cases hfinish
  rename_i hframes
  split_ifs at hfinish with hescape
  cases hfinish
  change Sealed loose scope (tokens ++ s.held scope)
  obtain ⟨hcomplete, htrails, hholds⟩ := h
  cases hholds with
  | word hmode hown hsynced hstarts =>
      have hends : s.mode.endsWord := by
        rcases hmode with hplain | hescape' | hdollar
        · exact .inl hplain
        · exact absurd hescape' hescape
        · exact .inr hdollar
      have hu := hsynced.atEnd hs hends hframes hown hstarts
      rw [held, Step.andThen_snd, settle_silent hends, List.nil_append, map_token_flush]
      exact sealed_word hcomplete (by rwa [settle_previous hends]) hu
  | hole hmode _ hpiece =>
      rw [held_of_plain hmode, map_token_flush, hpiece, Piece.tokens, if_pos rfl, List.append_nil]
      exact hcomplete
  | comment hmode hrest =>
      have hsettle : s.settle scope = (s, []) := by simp [Scanner.settle, hmode]
      have hpiece : s.piece = {} := hrest.piece
      rw [held, hsettle, Step.andThen_snd, List.nil_append, map_token_flush, hpiece, Piece.tokens,
        if_pos rfl, List.append_nil]
      exact hcomplete
  | pending op hmode hframes' hempty hwhole =>
      rw [held_of_pending hmode, map_token_flush, ← List.append_assoc]
      exact hwhole

end Scanner

/-- Text without holes, all of it in one place. -/
structure Unspliced (items : List Item) : Prop where
  plain : Plain items
  place : ∀ item ∈ items, item.place = 0

namespace Unspliced

variable {items body behind : List Item} {item : Item}

theorem tail (h : Unspliced (item :: items)) : Unspliced items where
  plain := fun item hitem ↦ h.plain item (List.mem_cons_of_mem _ hitem)
  place := fun item hitem ↦ h.place item (List.mem_cons_of_mem _ hitem)

theorem cut (h : Unspliced items) (hcut : cutBody items = some (body, behind)) :
    Unspliced body ∧ Unspliced behind := by
  constructor
  · exact ⟨fun item hitem ↦ h.plain item (mem_of_cutBody hcut (.inl hitem)),
      fun item hitem ↦ h.place item (mem_of_cutBody hcut (.inl hitem))⟩
  · exact ⟨fun item hitem ↦ h.plain item (mem_of_cutBody hcut (.inr hitem)),
      fun item hitem ↦ h.place item (mem_of_cutBody hcut (.inr hitem))⟩

end Unspliced

open Scanner

/-- Whatever a scanner reads of a text without holes can be read back. -/
theorem Scans.verbatim {cond : HoleCondition} {loose : Prop} {scope : Scope} {s : Scanner}
    {items : List Item} {out : Step} (h : Scans cond scope s items out) {more : List Symbol}
    (hitems : Unspliced items) (hbodies : BodiesApart scope s items) (hs : s.Sound)
    {tokens : List Token}
    (hverbatim : Verbatim loose scope s tokens (items.map Item.symbol ++ more)) :
    Verbatim loose scope out.1 (tokens ++ out.2.map Lexeme.token) more := by
  induction h generalizing loose tokens more with
  | nil => rwa [List.map_nil, List.append_nil]
  | hole =>
      obtain ⟨c, hc⟩ := hitems.plain _ List.mem_cons_self
      cases hc
  | @char scope s c place rest after closed tail ih =>
      obtain rfl : place = 0 := hitems.place _ List.mem_cons_self
      have hlast := ih hitems.tail (hbodies.char closed) (hs.stepChar c 0)
        (hverbatim.stepChar hs closed)
      rwa [List.append_assoc, ← List.map_append] at hlast
  | @body scope s c place rest body behind inner after final opened cut within ended tail ihin ih =>
      obtain ⟨hbody, hbehind⟩ := hitems.tail.cut cut
      obtain ⟨hwithin, hoperators, hafter⟩ :=
        hbodies.body opened cut (scanAll_eq_ok_iff.2 ⟨_, _, within.scan_eq, ended, rfl⟩)
      have hinner := @ihin False [] hbody hwithin sound_empty [] verbatim_start
      have hsealed := hinner.finish (within.sound sound_empty) ended
      rw [List.nil_append, ← List.map_append] at hsealed
      have hfilled : Filled (inner.2 ++ final) :=
        Filled.append_iff.2 ⟨within.filled hbody.plain, .finish ended⟩
      have hstep := hverbatim.stepBody hs opened hfilled hsealed hoperators
        (behind.map Item.symbol ++ more)
      have hlast := ih hbehind hafter (hs.stepBody opened _) hstep
      rwa [List.append_assoc, ← List.map_append] at hlast

/-- The tokens of a text without holes can be read back from the text that they make. -/
theorem sealed_of_scanAll {scope : Scope} {items : List Item} (hitems : Unspliced items)
    (hbodies : BodiesApart scope {} items) {lexemes : List Lexeme}
    (h : scanAll scope items = .ok lexemes) : Sealed False scope (lexemes.map Lexeme.token) := by
  obtain ⟨out, final, hscan, hfinish, rfl⟩ := scanAll_eq_ok_iff.1 h
  have hrun := scans_of_scan hscan
  have hout := @Scans.verbatim _ False _ _ _ _ hrun [] hitems hbodies sound_empty _ verbatim_start
  have hsealed := hout.finish (hrun.sound sound_empty) hfinish
  rwa [List.nil_append, ← List.map_append] at hsealed

end ShellTemplate
