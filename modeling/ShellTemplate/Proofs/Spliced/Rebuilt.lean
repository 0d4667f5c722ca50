import ShellTemplate.Proofs.LineContinuation
import ShellTemplate.Proofs.Spliced.Tokens
import ShellTemplate.Proofs.Standalone

/-!
# The command line of spliced tokens

Pieces that stand next to one another are one word on the command line. Where each of them can be
spliced, and none changes its meaning behind what stands before it, the line is the text of tokens
that are read back: they are rebuilt token by token, with the word that is going on held as the
scanner that has read it.
-/

namespace ShellTemplate

/-- The same shell text and the same value; whether it is expanded may differ where it is no
number. -/
structure Word.Rewritten (w w' : Word) : Prop where
  raw : w'.raw = w.raw
  same : w.SameValue w'

namespace Word.Rewritten

variable {w w' : Word} {p q : Piece}

theorem refl (w : Word) : w.Rewritten w := ⟨rfl, rfl, .inl rfl⟩

/-- The word goes on with a piece, and the piece that it was written as is read with it. -/
theorem push_glued (h : w.Rewritten (({} : Word).push q)) {whole : Piece}
    (hglued : q.Glued p whole) :
    (w.push p).Rewritten (({} : Word).push whole) where
  raw := by
    have hraw : q.raw = w.raw := h.raw
    change whole.raw = w.raw ++ p.raw
    rw [hglued.raw, hraw]
  same := by
    have hpushed := h.same.push (⟨rfl, .inl rfl⟩ : p.SameText p)
    constructor
    · change whole.text = _
      rw [hglued.same.text]
      exact hpushed.value
    · have hvalue : (w.push p).value = (q.append p).text := hpushed.value.symm
      rw [hvalue]
      rcases hglued.same.expands with hexpands | hdigits
      · refine hpushed.expands.imp (fun hsame ↦ Eq.trans ?_ hsame) fun hdigits ↦ ?_
        · exact hexpands
        · rwa [hvalue] at hdigits
      · exact .inr hdigits

end Word.Rewritten

/-- Both have completed the same parts up to the spelling of their words, and both are in the same
word. -/
structure Assembly.Rewritten (a b : Assembly) : Prop where
  parts : List.Forall₂ (Part.Alike Word.Rewritten) a.parts b.parts
  word : Option.Rel Word.Rewritten a.word b.word

namespace Assembly.Rewritten

variable {a b : Assembly}

theorem finish (h : a.Rewritten b) :
    List.Forall₂ (Part.Alike Word.Rewritten) a.finish b.finish := by
  obtain ⟨parts, word⟩ := a
  obtain ⟨parts', word'⟩ := b
  obtain ⟨hparts, hword⟩ := h
  refine List.rel_append hparts ?_
  cases hword with
  | none => exact .nil
  | some hword => exact .cons (.word hword) .nil

theorem add (h : a.Rewritten b) {y : Token} (hy : ∀ p, y ≠ .piece p) :
    (a.add y).Rewritten (b.add y) := by
  cases y with
  | piece p => exact absurd rfl (hy p)
  | hole index => exact h
  | blank => exact ⟨h.finish, .none⟩
  | operator op => exact ⟨List.rel_append h.finish (.cons (.operator op) .nil), .none⟩

end Assembly.Rewritten

/-- Behind the parts and the word that are read, the token keeps its meaning on the command line: it
begins no comment, it opens no expansion with the dollar sign before it, and the number before it
does not become its descriptor. -/
def Assembly.Admits (a : Assembly) : Token → Prop
  | .piece p =>
    match a.word with
    | none => p.raw.head? ≠ some '#'
    | some w => EndsInBareDollar w.raw → p.raw.head? ≠ some '\x7b'
  | .operator (.redirect ⟨none, _⟩) => ∀ w ∈ a.word, readDescriptor? w.raw = none
  | .operator _ | .blank | .hole _ => True

instance (a : Assembly) : DecidablePred a.Admits := fun
  | .piece p =>
    match h : a.word with
    | none => decidable_of_iff (p.raw.head? ≠ some '#') (by simp [Assembly.Admits, h])
    | some w => decidable_of_iff (EndsInBareDollar w.raw → p.raw.head? ≠ some '\x7b')
        (by simp [Assembly.Admits, h])
  | .operator (.redirect ⟨none, _⟩) =>
    match h : a.word with
    | none => isTrue (by simp [Assembly.Admits, h])
    | some w => decidable_of_iff (readDescriptor? w.raw = none) (by simp [Assembly.Admits, h])
  | .operator (.redirect ⟨some _, _⟩) | .blank | .hole _ => instDecidableTrue
  | .operator .pipe | .operator .semicolon | .operator .newline | .operator .background
  | .operator .and | .operator .or | .operator .openParen | .operator .closeParen =>
    instDecidableTrue

/-- Each token keeps its meaning behind those before it. -/
def Assembly.AdmitsAll (a : Assembly) : List Token → Prop
  | [] => True
  | y :: rest => a.Admits y ∧ (a.add y).AdmitsAll rest

instance instDecidableAdmitsAll (a : Assembly) (tokens : List Token) :
    Decidable (a.AdmitsAll tokens) :=
  match tokens with
  | [] => instDecidableTrue
  | y :: rest =>
    have := instDecidableAdmitsAll (a.add y) rest
    inferInstanceAs (Decidable (a.Admits y ∧ (a.add y).AdmitsAll rest))

theorem Assembly.admitsAll_concat {a : Assembly} {tokens : List Token} {y : Token} :
    a.AdmitsAll (tokens ++ [y]) ↔ a.AdmitsAll tokens ∧ (a.addAll tokens).Admits y := by
  induction tokens generalizing a with
  | nil => simp [AdmitsAll]
  | cons token tokens ih => simp [AdmitsAll, ih, and_assoc]

theorem EndsInBareDollar.append {text before : List Char} (h : EndsInBareDollar text)
    (hbefore : ∀ c ∈ before.getLast?, c ≠ '\\') : EndsInBareDollar (before ++ text) := by
  obtain ⟨⟨front, rfl⟩, hquoted⟩ := h
  refine ⟨⟨before ++ front, by simp⟩, fun ⟨other, hother⟩ ↦ ?_⟩
  have hlast : other ++ ['\\'] = before ++ front := by
    have hconcat : (other ++ ['\\']) ++ ['$'] = (before ++ front) ++ ['$'] := by
      simpa using hother
    exact List.append_cancel_right hconcat
  rcases List.eq_nil_or_concat front with rfl | ⟨init, d, rfl⟩
  · rw [List.append_nil] at hlast
    exact hbefore '\\' (by simp [← hlast]) rfl
  · rw [List.concat_eq_append, ← List.append_assoc] at hlast
    obtain ⟨-, hd⟩ := List.append_inj' hlast rfl
    obtain rfl : '\\' = d := by simpa using hd
    exact hquoted ⟨init, by simp⟩

namespace Scanner

variable {scope : Scope} {s u t : Scanner} {c : Char} {p : Piece}

/-- The scanner has read a word that could end here, or none. -/
structure Ending (scope : Scope) (s : Scanner) : Prop where
  synced : s.Synced scope
  frames : s.frames = []
  mode : s.mode.endsWord
  own : s.previous ≠ .word
  empty : s.spelled = [] → s.piece = {}
  starts : ∀ c ∈ s.spelled.head?, c ∉ delimiters
  ends : ∀ c ∈ s.spelled.getLast?, c ≠ ' ' ∧ c ≠ '\n' ∧ c ≠ '\\'
  dollar : s.mode ≠ .plain → EndsInBareDollar s.spelled

/-- The word that is read. -/
def word (scope : Scope) (s : Scanner) : Piece := (s.settle scope).1.piece

theorem ending_empty : ({} : Scanner).Ending scope where
  synced := Resting.synced ⟨rfl, rfl, rfl, by simp⟩
  frames := rfl
  mode := .inl rfl
  own := by simp
  empty := fun _ ↦ rfl
  starts := fun c hc ↦ by simp [spelled] at hc
  ends := fun c hc ↦ by simp [spelled] at hc
  dollar := fun hmode ↦ absurd rfl hmode

namespace Ending

variable (h : s.Ending scope)
include h

theorem raw_word : (s.word scope).raw = s.spelled := raw_settle h.mode

theorem word_eq_empty (hnil : s.spelled = []) : s.word scope = {} := by
  rcases h.mode with hplain | ⟨place, hdollar⟩
  · rw [word, settle_of_plain hplain]
    exact h.empty hnil
  · simp [spelled, hdollar] at hnil

theorem legible (hne : s.spelled ≠ []) : (s.word scope).Legible scope where
  nonempty := by rwa [h.raw_word]
  starts := by
    rw [h.raw_word]
    exact h.starts
  reads := h.synced.readsAs h.frames h.mode h.mode

/-- What is undecided before a character that goes on with the word is decided without changing the
text of the word. -/
theorem exists_receives (hc : s.mode ≠ .plain → c ≠ '\x7b' ∧ c ≠ '(') :
    ∃ u : Scanner, u.piece.raw = s.spelled ∧ (s.word scope).SameText u.piece ∧
      (∀ text : List Char, (s.spelled = [] → text.head? ≠ some '#') → u.Receives text) ∧
        ∀ rest t, u.LeadsTo scope (c :: rest) t → s.LeadsTo scope (c :: rest) t := by
  rcases h.mode with hplain | ⟨place, hdollar⟩
  · have hspelled := spelled_of_plain hplain
    refine ⟨s, hspelled.symm, ?_, fun text hstart ↦ ?_, fun _ _ hleads ↦ hleads⟩
    · rw [word, settle_of_plain hplain]
      exact ⟨rfl, .inl rfl⟩
    · exact ⟨h.frames, hplain, h.own, fun hnil ↦ h.empty (hspelled.trans hnil),
        fun hnil ↦ hstart (hspelled.trans hnil)⟩
  · have hc := hc (by simp [hdollar])
    obtain ⟨-, u, hu, hplain, hframes, hprevious, hpiece⟩ :=
      @exists_settled_of_dollar scope s c place hdollar hc
    have hraw : u.piece.raw = s.piece.raw ++ ['$'] := by rw [hpiece]
    have hne : u.piece.raw ≠ [] := by simp [hraw]
    refine ⟨u, by rw [hraw, spelled, hdollar], ?_, fun text _ ↦ ?_, ?_⟩
    · have hword : s.word scope = s.piece.append ⟨['$'], ['$'], false⟩ := by
        simp [word, settle, hdollar, pushChar, push, Scanner.inMode, Piece.append]
      have hsame : Piece.SameText ⟨['$'], ['$'], false⟩ ⟨['$'], ['$'], startsExpansion c⟩ :=
        ⟨rfl, .inr ⟨'$', by simp, rfl⟩⟩
      rw [hword, hpiece]
      exact Piece.SameText.append₂ ⟨rfl, .inl rfl⟩ hsame
    · exact ⟨hframes.trans h.frames, hplain, hprevious ▸ h.own, fun hnil ↦ absurd hnil hne,
        fun hnil ↦ absurd hnil hne⟩
    · intro rest t hleads previous v hlike
      obtain ⟨u', v', -, hu', hnone, hv', hlike', -⟩ :=
        @Like.settleDollar scope _ _ c _ _ hlike hdollar hc
      obtain rfl : u = u' := congrArg Prod.fst (hu.symm.trans hu')
      obtain ⟨w, hreads, hlike''⟩ := hleads previous v' hlike'
      refine ⟨w, ?_, hlike''⟩
      have hmode : (v.settleBefore scope c).1.mode = .plain := by
        rw [hv']
        exact hlike'.mode.trans hplain
      have hsettled := Reads.of_settled hnone hmode (by rw [hv']; exact hreads)
      rwa [hv'] at hsettled

/-- The word goes on with a piece that can be spliced. -/
theorem glue (hp : p.Spliceable scope) (hhash : s.spelled = [] → p.raw.head? ≠ some '#')
    (hbrace : EndsInBareDollar s.spelled → p.raw.head? ≠ some '\x7b') :
    ∃ t : Scanner, t.Ending scope ∧ t.spelled = s.spelled ++ p.raw ∧
      (s.word scope).Glued p (t.word scope) := by
  obtain ⟨c, rest, hraw⟩ := List.exists_cons_of_ne_nil hp.nonempty
  have hstarts : c ∉ delimiters := hp.starts c (by simp [hraw])
  obtain ⟨u, huraw, hsame, hreceives, hleads⟩ := @exists_receives scope s c h fun hmode ↦ by
    have hhead := hbrace (h.dollar hmode)
    rw [hraw] at hhead
    exact ⟨fun hc ↦ hhead (congrArg some hc), by rintro rfl; exact hstarts (by simp [delimiters])⟩
  have hu := hreceives p.raw hhash
  obtain ⟨t, hreads, hframes, hmode, hdollar, hglued⟩ := hp.reads u hu
  have hspelled : t.spelled = s.spelled ++ p.raw := by
    rw [← @raw_settle scope t hmode, hglued.raw, huraw]
  have hne : t.spelled ≠ [] := by
    rw [hspelled, hraw]
    exact List.append_ne_nil_of_right_ne_nil _ (List.cons_ne_nil _ _)
  -- the new word is read again by reading the old one and then the piece
  refine ⟨t, ⟨fun r hr ↦ ?_, hframes, hmode, hreads.own hu.own, fun hnil ↦ absurd hnil hne, ?_, ?_,
    fun hopen ↦ ?_⟩, hspelled, ?_, ?_⟩
  · obtain ⟨v, hbefore, hlike⟩ := h.synced r hr
    rw [hraw] at hreads hspelled
    obtain ⟨w, hbehind, hlike'⟩ := hleads rest t hreads r.previous v hlike
    rw [hspelled]
    exact ⟨w, hbefore.append hbehind, hlike'⟩
  · rw [hspelled]
    cases hword : s.spelled with
    | nil => exact hp.starts
    | cons d front =>
        have hhead := h.starts
        rw [hword] at hhead
        exact hhead
  · rw [hspelled, List.getLast?_append_of_ne_nil _ hp.nonempty]
    exact hp.ends
  · rw [hspelled]
    exact (hdollar hopen).append fun d hd ↦ (h.ends d hd).2.2
  · change (t.settle scope).1.piece.raw = _
    rw [hglued.raw, huraw, h.raw_word]
  · exact (hsame.append p).trans hglued.same

end Ending

end Scanner

section Line

open Scanner

variable {scope : Scope} {tokens line line' : List Token} {s : Scanner} {y : Token} {p : Piece}

/-- The tokens are written as complete tokens of a line and the word behind them, and these make the
same words and operators. -/
structure Rebuilt (scope : Scope) (tokens line : List Token) (s : Scanner) : Prop where
  sealed : Sealed True scope line
  solid : ∀ token ∈ line, token.Solid
  rest : (assembly line).word = none
  ending : s.Ending scope
  text : written 0 (line ++ (s.word scope).tokens) = written 0 tokens
  assembled : (assembly tokens).Rewritten (assembly (line ++ (s.word scope).tokens))

theorem rebuilt_nil : Rebuilt scope [] [] {} where
  sealed := sealed_nil
  solid := fun _ h ↦ absurd h List.not_mem_nil
  rest := rfl
  ending := ending_empty
  text := rfl
  assembled := ⟨.nil, .none⟩

theorem assembly_tokens (hrest : (assembly line).word = none) (hp : p.raw ≠ []) :
    assembly (line ++ p.tokens) = ⟨(assembly line).parts, some (({} : Word).push p)⟩ := by
  rw [Piece.tokens, if_neg hp, assembly_append]
  simp [Assembly.add, hrest]

theorem written_concat_congr (h : written 0 line = written 0 line') (y : Token) :
    written 0 (line ++ [y]) = written 0 (line' ++ [y]) := by
  cases y with
  | piece p => rw [written_piece, written_piece, h]
  | blank => rw [written_blank, written_blank, h]
  | operator op => rw [written_operator, written_operator, h]
  | hole index =>
      have hhole : ∀ tokens : List Token,
          written 0 (tokens ++ [.hole index]) = written 0 tokens := fun tokens ↦ by
        simp [written, writeToken]
      rw [hhole, hhole, h]

/-- A descriptor is kept apart from what stands before it as by a blank. -/
theorem written_blank_redirect (tokens : List Token) (fd : Nat) (kind : RedirectKind) :
    written 0 (tokens ++ [.blank] ++ [.operator (.redirect ⟨some fd, kind⟩)]) =
      written 0 (tokens ++ [.operator (.redirect ⟨some fd, kind⟩)]) := by
  have hagain : gapAfter (written 0 tokens ++ gapAfter (written 0 tokens)) = [] := by
    rcases gapAfter_eq (written 0 tokens) with hgap | hgap
    · rw [hgap, List.append_nil, hgap]
    · rw [hgap]
      simp [gapAfter]
  rw [written_operator, written_operator, written_blank]
  simp [operatorGap, blankAfter, hagain]

namespace Rebuilt

variable (h : Rebuilt scope tokens line s)
include h

/-- The word that is going on, whether there is one or not. -/
theorem word : ((assembly tokens).word.getD {}).Rewritten (({} : Word).push (s.word scope)) ∧
    (s.spelled = [] ↔ (assembly tokens).word = none) := by
  have hword := h.assembled.word
  by_cases hnil : s.spelled = []
  · have hempty := h.ending.word_eq_empty hnil
    have hline : (assembly (line ++ (s.word scope).tokens)).word = none := by
      rw [hempty, Piece.tokens, if_pos rfl, List.append_nil]
      exact h.rest
    rw [hline] at hword
    generalize (assembly tokens).word = word at hword ⊢
    cases hword
    rw [hempty]
    exact ⟨.refl {}, iff_of_true hnil rfl⟩
  · have hraw : (s.word scope).raw ≠ [] := by rwa [h.ending.raw_word]
    rw [assembly_tokens h.rest hraw] at hword
    generalize (assembly tokens).word = word at hword ⊢
    cases hword with
    | some hsame => exact ⟨hsame, iff_of_false hnil (by simp)⟩

theorem spelled_eq : s.spelled = ((assembly tokens).word.getD {}).raw := by
  rw [← h.word.1.raw, ← h.ending.raw_word]
  rfl

theorem spelled_of_word {w : Word} (hw : w ∈ (assembly tokens).word) : s.spelled = w.raw := by
  rw [h.spelled_eq, Option.mem_def.1 hw]
  rfl

theorem parts : List.Forall₂ (Part.Alike Word.Rewritten) (assembly tokens).parts
    (assembly line).parts := by
  have hparts := h.assembled.parts
  unfold Piece.tokens at hparts
  split_ifs at hparts with hraw
  · rwa [List.append_nil] at hparts
  · rw [assembly_append] at hparts
    exact hparts

theorem last_ne_piece (q : Piece) : line.getLast? ≠ some (.piece q) := by
  intro hlast
  obtain ⟨front, rfl⟩ := List.getLast?_eq_some_iff.1 hlast
  have hrest := h.rest
  rw [assembly_append] at hrest
  simp [Assembly.add] at hrest

/-- The word behind the line is a token of it. -/
theorem sealed_word : Sealed True scope (line ++ (s.word scope).tokens) := by
  unfold Piece.tokens
  split_ifs with hraw
  · rw [List.append_nil]
    exact h.sealed
  · refine h.sealed.concat (h.ending.legible (by rwa [← h.ending.raw_word])) fun x hx ↦ ?_
    exact apart_of_not_piece fun q hq ↦ h.last_ne_piece q (hq ▸ hx)

theorem solid_word : ∀ token ∈ line ++ (s.word scope).tokens, token.Solid := by
  intro token htoken
  rcases List.mem_append.1 htoken with htoken | htoken
  · exact h.solid token htoken
  · unfold Piece.tokens at htoken
    split_ifs at htoken
    · cases htoken
    · rw [List.mem_singleton.1 htoken]
      intro c hc
      rw [h.ending.raw_word] at hc
      obtain ⟨hspace, hnewline, -⟩ := h.ending.ends c hc
      exact decide_eq_false (not_or.2 ⟨hspace, hnewline⟩)

theorem piece (hp : p.Spliceable scope) (hadmits : (assembly tokens).Admits (.piece p)) :
    ∃ t, Rebuilt scope (tokens ++ [.piece p]) line t := by
  obtain ⟨hword, hnone⟩ := h.word
  have hhash : s.spelled = [] → p.raw.head? ≠ some '#' := fun hnil ↦ by
    simpa [Assembly.Admits, hnone.1 hnil] using hadmits
  have hbrace : EndsInBareDollar s.spelled → p.raw.head? ≠ some '\x7b' := fun hdollar ↦ by
    cases hgoing : (assembly tokens).word with
    | none =>
        rw [hnone.2 hgoing] at hdollar
        exact absurd (List.suffix_nil.1 hdollar.1) (by simp)
    | some w =>
        rw [h.spelled_of_word hgoing] at hdollar
        simp only [Assembly.Admits, hgoing] at hadmits
        exact hadmits hdollar
  obtain ⟨t, hending, hspelled, hglued⟩ := h.ending.glue hp hhash hbrace
  have hraw : (t.word scope).raw ≠ [] := by
    rw [hending.raw_word, hspelled]
    exact List.append_ne_nil_of_right_ne_nil _ hp.nonempty
  refine ⟨t, h.sealed, h.solid, h.rest, hending, ?_, ?_⟩
  · have hbefore : written 0 (line ++ (s.word scope).tokens) =
        written 0 line ++ (s.word scope).raw := by
      unfold Piece.tokens
      split_ifs with hnil
      · rw [hnil, List.append_nil, List.append_nil]
      · exact written_piece 0 line _
    rw [Piece.tokens, if_neg hraw, written_piece, written_piece, ← h.text, hbefore, hglued.raw,
      List.append_assoc]
  · rw [assembly_tokens h.rest hraw, assembly_append]
    exact ⟨h.parts, .some (hword.push_glued hglued)⟩

/-- A token that is no piece ends the word. -/
theorem delimit (hy : ∀ q, y ≠ .piece q) (hhole : y.isHole = false)
    (hsealed : Sealed True scope line')
    (hsolid : ∀ token ∈ line', token.Solid)
    (htext : written 0 line' = written 0 (line ++ (s.word scope).tokens ++ [y]))
    (hassembly : assembly line' = (assembly (line ++ (s.word scope).tokens)).add y) :
    Rebuilt scope (tokens ++ [y]) line' {} := by
  have hempty : (({} : Scanner).word scope).tokens = [] := rfl
  refine ⟨hsealed, hsolid, ?_, ending_empty, ?_, ?_⟩
  · rw [hassembly]
    cases y with
    | piece q => exact absurd rfl (hy q)
    | hole index => cases hhole
    | operator | blank => rfl
  · rw [hempty, List.append_nil, htext]
    exact written_concat_congr h.text y
  · rw [hempty, List.append_nil, hassembly, assembly_append]
    exact h.assembled.add hy

theorem blank :
    Rebuilt scope (tokens ++ [.blank]) (line ++ (s.word scope).tokens ++ [.blank]) {} := by
  refine h.delimit (by simp) rfl (h.sealed_word.concat trivial fun x _ ↦ ?_) ?_ rfl ?_
  · cases x <;> trivial
  · intro token htoken
    rcases List.mem_append.1 htoken with htoken | htoken
    · exact h.solid_word token htoken
    · rw [List.mem_singleton.1 htoken]
      trivial
  · rw [assembly_append]
    rfl

/-- An operator that has no descriptor stands directly behind the word. -/
theorem apart_operator {op : Operator} (hparen : op ≠ .openParen)
    (hfd : ∀ r, op = .redirect r → r.fd = none)
    (hadmits : (assembly tokens).Admits (.operator op)) :
    ∀ x ∈ (line ++ (s.word scope).tokens).getLast?, x.Apart True scope (.operator op) := by
  intro x hx
  rw [getLast?_append_tokens] at hx
  split_ifs at hx with hraw
  · exact apart_of_not_piece fun q hq ↦ h.last_ne_piece q (hq ▸ hx)
  · obtain rfl := Option.some.inj hx
    cases op with
    | openParen => exact absurd rfl hparen
    | redirect r =>
        obtain ⟨fd, kind⟩ := r
        obtain rfl : fd = none := hfd _ rfl
        refine ⟨rfl, fun _ ↦ ?_⟩
        rw [h.ending.raw_word]
        cases hgoing : (assembly tokens).word with
        | none => exact absurd (h.ending.raw_word.trans (h.word.2.2 hgoing)) hraw
        | some w =>
            rw [h.spelled_of_word hgoing]
            exact hadmits w hgoing
    | pipe | semicolon | newline | background | and | or | closeParen => trivial

theorem operator {op : Operator} (hlegible : (Token.operator op).Legible scope)
    (hparen : op ≠ .openParen) (hadmits : (assembly tokens).Admits (.operator op)) :
    ∃ line', Rebuilt scope (tokens ++ [.operator op]) line' {} := by
  have hsolid : ∀ line : List Token, (∀ token ∈ line, token.Solid) →
      ∀ token ∈ line ++ [.operator op], token.Solid := fun line hline token htoken ↦ by
    rcases List.mem_append.1 htoken with htoken | htoken
    · exact hline token htoken
    · rw [List.mem_singleton.1 htoken]
      trivial
  by_cases hfd : ∀ r, op = .redirect r → r.fd = none
  · refine ⟨_, h.delimit (by simp) rfl
      (h.sealed_word.concat hlegible (h.apart_operator hparen hfd hadmits))
      (hsolid _ h.solid_word) rfl ?_⟩
    rw [assembly_append]
    rfl
  · -- a descriptor is written apart from the word, so there is a blank between the tokens
    push Not at hfd
    obtain ⟨⟨fd, kind⟩, rfl, hsome⟩ := hfd
    obtain ⟨fd, rfl⟩ := Option.ne_none_iff_exists'.1 hsome
    have hblank := h.blank
    refine ⟨_, h.delimit (by simp) rfl (hblank.sealed.concat hlegible fun x hx ↦ ?_)
      (hsolid _ hblank.solid) (written_blank_redirect _ fd kind) ?_⟩
    · rw [List.getLast?_concat] at hx
      obtain rfl := Option.some.inj hx
      trivial
    · rw [assembly_append, assembly_append]
      simp [Assembly.add, partOfWord]

end Rebuilt

/-- Tokens that keep their meaning are rebuilt from what is written of them. -/
theorem exists_rebuilt (hspliceable : ∀ token ∈ tokens, token.Spliceable scope)
    (hfilled : ∀ token ∈ tokens, token.isHole = false)
    (hparen : ∀ op, .operator op ∈ tokens → op ≠ .openParen)
    (hadmits : ({} : Assembly).AdmitsAll tokens) :
    ∃ line s, Rebuilt scope tokens line s := by
  -- from the right, since what a token means depends on the word before it
  induction tokens using List.reverseRecOn with
  | nil => exact ⟨[], {}, rebuilt_nil⟩
  | append_singleton tokens y ih =>
      obtain ⟨hbefore, hy⟩ := Assembly.admitsAll_concat.1 hadmits
      obtain ⟨line, s, hline⟩ := ih (fun token ht ↦ hspliceable token (by simp [ht]))
        (fun token ht ↦ hfilled token (by simp [ht])) (fun op ht ↦ hparen op (by simp [ht])) hbefore
      have hlast := hspliceable y (by simp)
      cases y with
      | hole index => exact absurd (hfilled (.hole index) (by simp)) (by simp)
      | blank => exact ⟨_, _, hline.blank⟩
      | operator op =>
          obtain ⟨line', hline'⟩ := hline.operator hlast (hparen op (by simp)) hy
          exact ⟨line', {}, hline'⟩
      | piece p =>
          obtain ⟨t, ht⟩ := hline.piece hlast hy
          exact ⟨line, t, ht⟩

end Line

section Compiling

variable {tokens : List Token} {stages : List Stage}

/-- No token changes its meaning on the command line: each of them keeps it behind those before it,
and only spaces are cut off the end. -/
structure KeepsApart (tokens : List Token) : Prop where
  admits : ({} : Assembly).AdmitsAll tokens
  ends : FirmEnd tokens

instance : DecidablePred KeepsApart := fun tokens ↦
  decidable_of_iff (({} : Assembly).AdmitsAll tokens ∧ FirmEnd tokens)
    ⟨fun h ↦ ⟨h.1, h.2⟩, fun h ↦ ⟨h.admits, h.ends⟩⟩

/-- A pipeline has no parentheses. -/
theorem ne_openParen_of_stages (h : stagesOfParts (assembly tokens).finish = .ok stages)
    {op : Operator} (hop : .operator op ∈ tokens) : op ≠ .openParen := by
  rintro rfl
  obtain ⟨before, behind, rfl⟩ := List.append_of_mem hop
  rw [assembly_append, Assembly.addAll_cons, Assembly.finish_addAll] at h
  simp only [Assembly.add, List.append_assoc, List.cons_append, List.nil_append] at h
  rw [← List.append_assoc] at h
  obtain ⟨p, hread⟩ := PartialPipeline.exists_read_operator h
  rw [PartialPipeline.read_cons] at hread
  obtain ⟨next, hstep, -⟩ := bind_eq_ok_iff.1 hread
  cases hstep

/-- The stages of parts that are rewritten have the same words. -/
theorem stages_of_rewritten {parts parts' : List Part}
    (h : List.Forall₂ (Part.Alike Word.Rewritten) parts parts')
    (hstages : stagesOfParts parts = .ok stages) :
    ∃ stages', stagesOfParts parts' = .ok stages' ∧
      List.Forall₂ (Stage.Alike fun w w' ↦ w'.raw = w.raw ∧ w'.value = w.value) stages stages' := by
  have halike : PartialPipeline.PartsAlike (fun w w' ↦ w'.raw = w.raw ∧ w'.value = w.value)
      parts parts' := by
    refine ⟨h.imp fun _ _ hpart ↦ ?_, fun r w w' _ hpair ↦ ?_⟩
    · cases hpart with
      | word hword => exact .word ⟨hword.raw, hword.same.value⟩
      | operator op => exact .operator op
    · have hmem : (Part.word w, Part.word w') ∈ parts.zip parts' := hpair.subset (by simp)
      cases List.forall₂_zip h hmem with
      | word hword => exact hword.same.sameNumber
  exact (stagesOfParts_alike halike).exists_of_ok hstages

/-- The command line of tokens that can be spliced and keep their meaning is compiled to the same
words and redirections, and to itself. -/
theorem compile_commandLine_of_spliceable (hspliceable : ∀ token ∈ tokens, token.Spliceable {})
    (hfilled : ∀ token ∈ tokens, token.isHole = false) (hkeeps : KeepsApart tokens)
    (hstages : stagesOfParts (assembly tokens).finish = .ok stages) (options : FillOptions) :
    ∃ stages', (Template.ofText (commandLine tokens)).compile options =
        .ok ⟨stages', commandLine tokens⟩ ∧
      List.Forall₂ (Stage.Alike fun w w' ↦ w'.raw = w.raw ∧ w'.value = w.value) stages stages' := by
  have hparen : ∀ op, .operator op ∈ tokens → op ≠ .openParen := fun op ↦
    ne_openParen_of_stages hstages
  obtain ⟨line, s, hline⟩ := exists_rebuilt hspliceable hfilled hparen hkeeps.admits
  obtain ⟨stages', hstages', halike⟩ := stages_of_rewritten hline.assembled.finish hstages
  have htext : ∀ token ∈ tokens, token.text ≠ [] := by
    intro token htoken
    have hlast := hspliceable token htoken
    cases token with
    | hole index => exact absurd (hfilled _ htoken) (by simp)
    | piece p => exact hlast.nonempty
    | operator op => exact @text_ne_nil {} (.operator op) hlast
    | blank => simp [Token.text]
  have hends := rdropWhile_written htext hkeeps.ends
  have hwritten : commandLine (line ++ (s.word {}).tokens) = commandLine tokens := by
    rw [commandLine_eq, commandLine_eq, hline.text]
  rw [← hline.text] at hends
  have hcompiled :=
    compile_commandLine_of_solid hline.sealed_word hline.solid_word hends hstages' options
  rw [hwritten] at hcompiled
  exact ⟨stages', hcompiled, halike⟩

end Compiling

end ShellTemplate
