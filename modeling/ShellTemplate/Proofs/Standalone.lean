import ShellTemplate.Proofs.PlainText

/-!
# Holes that stand alone

Where every hole of a template is a word of its own, the tokens of its value do not run into what
stands around them. So the command line is compiled to the same pipeline, whatever the holes hold.
-/

namespace ShellTemplate

open Scanner

/-- In none of the backtick bodies of a raw text does an operator stand directly before one that
makes it longer. -/
def Value.BodiesApart : Value → Prop
  | .raw text => (Template.ofText text).BodiesApart
  | .str _ | .scalar _ | .joined _ _ | .list _ => True

instance : DecidablePred Value.BodiesApart := fun
  | .raw text => inferInstanceAs (Decidable (Template.ofText text).BodiesApart)
  | .str _ | .scalar _ | .joined _ _ | .list _ => instDecidableTrue

section Values

theorem sealed_intersperse {scope : Scope} {pieces : List Piece}
    (h : ∀ p ∈ pieces, p.Legible scope) :
    Sealed False scope ((pieces.map Token.piece).intersperse .blank) := by
  induction pieces with
  | nil => exact sealed_nil
  | cons p rest ih =>
      have hp : (Token.piece p).Legible scope := h p List.mem_cons_self
      have hrest := ih fun q hq ↦ h q (List.mem_cons_of_mem _ hq)
      cases rest with
      | nil => exact ⟨by simpa using hp, .singleton _⟩
      | cons q rest =>
          have hlist : ((p :: q :: rest).map Token.piece).intersperse .blank =
              .piece p :: .blank :: ((q :: rest).map Token.piece).intersperse .blank := rfl
          rw [hlist]
          constructor
          · intro token htoken
            simp only [List.mem_cons] at htoken
            rcases htoken with rfl | rfl | htoken
            · exact hp
            · trivial
            · exact hrest.legible token htoken
          · refine .cons_cons trivial (List.isChain_cons.2 ⟨fun y hy ↦ ?_, hrest.apart⟩)
            cases rest <;>
              · cases hy
                trivial

/-- A text in single quotes is a word of its own. -/
theorem legible_literalPiece (text : List Char) : (literalPiece .bare {} text).Legible {} where
  nonempty := by simp [literalPiece, escapeLevels, Quoting.write, singleQuote]
  starts := by
    rintro c ⟨⟩
    decide
  reads := by
    intro u hu
    obtain ⟨t, hreads, hgrown⟩ :=
      @grows_singleQuote {} u text hu.mode (by rw [hu.frames]; rfl)
    refine ⟨t, hreads, hgrown.frames.trans hu.frames, hgrown.previous, .inl hgrown.mode, ?_⟩
    rw [settle_of_plain hgrown.mode]
    have hquote : quoteText u.frames = [] := by
      rw [hu.frames]
      rfl
    have hsingle : singleText u.frames text = text := by rw [hu.frames, singleText_nil]
    refine piece_eq ?_ ?_ ?_
    · rw [hgrown.raw, hu.piece]
      rfl
    · rw [hgrown.text, hu.piece, hquote, hsingle]
      rfl
    · rw [hgrown.expands, hu.piece]
      rfl

/-- The tokens of a value that stands alone are read back. -/
theorem sealed_of_fillHole {options : FillOptions} {value : Value} {own : List Token}
    (hraw : value.BodiesApart)
    (h : fillHole options .bare {} value = .ok own) : Sealed False {} own := by
  have hpieces : ∀ texts : List (List Char), Sealed False {}
      (((texts.map (literalPiece .bare {})).map Token.piece).intersperse .blank) := by
    intro texts
    refine sealed_intersperse fun p hp ↦ ?_
    obtain ⟨text, -, rfl⟩ := List.mem_map.1 hp
    exact legible_literalPiece text
  cases value with
  | raw text =>
      obtain ⟨-, lexemes, hlex, rfl⟩ := fillHole_raw h
      exact sealed_of_lexemesOfText hraw hlex
  | str | scalar | joined | list =>
      cases h
      exact hpieces _

end Values

section Holes

variable {s u : Scanner} {tokens own : List Token} {index : Nat} {rest : List Symbol}
  {options : FillOptions} {values : List Value}

/-- A hole here is a word of its own, or it is skipped with a comment. -/
def Scanner.Admits (s : Scanner) (behind : List Symbol) : Prop :=
  s.mode = .comment ∨ (s.Resting ∨ s.mode.pending?.isSome = true) ∧
    ∀ symbol ∈ behind.head?, ∃ c ∈ wordEnds, symbol = .char c

instance (s : Scanner) : Decidable s.Resting :=
  decidable_of_iff (s.frames = [] ∧ s.mode = .plain ∧ s.piece = {} ∧ s.previous ≠ .word)
    ⟨fun ⟨hframes, hmode, hpiece, hprevious⟩ ↦ ⟨hframes, hmode, hpiece, hprevious⟩,
      fun h ↦ ⟨h.frames, h.mode, h.piece, h.previous⟩⟩

instance (s : Scanner) (behind : List Symbol) : Decidable (s.Admits behind) :=
  decidable_of_iff (s.mode = .comment ∨ (s.Resting ∨ s.mode.pending?.isSome = true) ∧
    (behind.head?.all fun symbol ↦ wordEnds.any fun c ↦ symbol = .char c) = true)
    (by cases h : behind.head? <;> simp [Scanner.Admits, h])

theorem apart_of_not_piece {scope : Scope} {x y : Token} (hx : ∀ p, x ≠ .piece p) :
    x.Apart True scope y := by
  cases x with
  | piece p => exact absurd rfl (hx p)
  | hole | blank | operator => cases y <;> trivial

theorem Sealed.append {scope : Scope} (h : Sealed True scope tokens) (hown : Sealed False scope own)
    (hlast : ∀ p, tokens.getLast? ≠ some (.piece p)) : Sealed True scope (tokens ++ own) where
  legible := fun token htoken ↦
    (List.mem_append.1 htoken).elim (h.legible token) (hown.legible token)
  apart := by
    refine List.isChain_append.2 ⟨h.apart, hown.apart.imp fun x y hpair ↦ ?_, fun x hx y _ ↦ ?_⟩
    · cases x with
      | hole | blank | operator => exact apart_of_not_piece (by simp)
      | piece p =>
          cases y with
          | operator op => cases op <;> exact hpair
          | piece | hole | blank => exact hpair
    · refine apart_of_not_piece fun p hp ↦ hlast p ?_
      rw [← hp]
      exact hx

/-- A value stands where no word is going on. -/
theorem Scanner.Resting.verbatim_readHole (h : u.Resting) (hcomplete : Sealed True {} tokens)
    (hlast : ∀ p, tokens.getLast? ≠ some (.piece p)) (hraw : ∀ value ∈ values, value.BodiesApart)
    (hnext : ∀ symbol ∈ rest.head?, ∃ c ∈ wordEnds, symbol = .char c)
    (hfill : fill options values (u.readHole {} index).2 = .ok own) :
    Verbatim True {} (u.readHole {} index).1 (tokens ++ own) rest := by
  have hread : u.readHole {} index = ({ u with piece := {}, previous := .word },
      [⟨.hole index, .bare, {}⟩]) := by
    unfold readHole
    rw [emitHole_eq fun _ ↦ h.piece, h.frames]
    simp [flush, h.piece, Scope.quoting, Scope.enclosing, commandFrames]
  rw [hread] at hfill ⊢
  obtain ⟨value, hole, none, hvalue, hhole, hnone, rfl⟩ := fill_hole_eq_ok_iff.1 hfill
  cases hnone
  rw [List.append_nil]
  have hsealed := sealed_of_fillHole (hraw value (List.mem_of_getElem? hvalue)) hhole
  exact ⟨hcomplete.append hsealed hlast, trivial, .hole h.mode h.frames rfl rfl trivial hnext⟩

theorem Scanner.Verbatim.stepHole (h : Verbatim True {} s tokens (.hole index :: rest))
    (hadmits : s.Admits rest) (hraw : ∀ value ∈ values, value.BodiesApart)
    (hfill : fill options values (s.stepHole {} index).2 = .ok own) :
    Verbatim True {} (s.stepHole {} index).1 (tokens ++ own) rest := by
  obtain ⟨hcomplete, htrails, hholds⟩ := h
  have hmove := @stepHole_holeMove {} s index
  generalize s.stepHole {} index = step at hmove hfill ⊢
  rcases hadmits with hcomment | ⟨hresting | hpending, hnext⟩
  · cases hmove with
    | comment =>
        cases hfill
        cases hholds with
        | comment _ hrest =>
            rw [List.append_nil]
            exact ⟨hcomplete, htrails, .comment hcomment hrest⟩
        | word hmode => simp [hcomment, Mode.inWord] at hmode
        | hole hmode => simp [hcomment] at hmode
        | pending op hmode => simp [hcomment, Mode.pending?] at hmode
    | escaped hmode | dollar _ hmode | plain hmode => simp [hcomment] at hmode
    | operator _ hmode => simp [hcomment, Mode.pending?] at hmode
  · cases hmove with
    | plain =>
        exact hresting.verbatim_readHole hcomplete (htrails.ne_piece hresting.previous) hraw hnext
          hfill
    | comment hmode | escaped hmode | dollar _ hmode => simp [hresting.mode] at hmode
    | operator _ hmode => simp [hresting.mode, Mode.pending?] at hmode
  · obtain ⟨op, hop⟩ := Option.isSome_iff_exists.1 hpending
    cases hmove with
    | comment hmode | escaped hmode | dollar _ hmode | plain hmode =>
        simp [hmode, Mode.pending?] at hop
    | operator op' hmode =>
        cases hholds with
        | comment hmode' | hole hmode' => simp [hmode', Mode.pending?] at hop
        | word hmode' =>
            rcases hmode' with hmode' | hmode' | ⟨place, hmode'⟩ <;>
              simp [hmode', Mode.pending?] at hop
        | pending op'' hmode'' hframes hempty hwhole =>
            obtain rfl : op' = op'' := Option.some.inj (hmode.symm.trans hmode'')
            obtain ⟨hresting, -, htokens⟩ :=
              resting_emitOperator (s := s.inMode .plain) hempty hframes rfl op'
            rw [Step.andThen_snd] at hfill
            obtain ⟨more, hmore, rfl⟩ := (Filled.emitOperator op').fill_front_iff.1 hfill
            rw [htokens, map_token_flush, ← List.append_assoc, ← List.append_assoc]
            refine hresting.verbatim_readHole hwhole (fun p hp ↦ ?_) hraw hnext hmore
            rw [List.getLast?_concat] at hp
            cases hp

end Holes

section Run

variable {options : FillOptions} {values : List Value}

/-- A template begins with a text without holes. -/
theorem plain_or_first_hole (symbols : List Symbol) : (∀ symbol ∈ symbols, ∃ c, symbol = .char c) ∨
    ∃ front index behind, symbols = front ++ .hole index :: behind ∧
      ∀ symbol ∈ front, ∃ c, symbol = .char c := by
  induction symbols with
  | nil => exact .inl fun symbol hsymbol ↦ absurd hsymbol List.not_mem_nil
  | cons symbol rest ih =>
      cases symbol with
      | hole index => exact .inr ⟨[], index, rest, rfl, fun _ h ↦ absurd h List.not_mem_nil⟩
      | char c =>
          rcases ih with hplain | ⟨front, index, behind, rfl, hfront⟩
          · exact .inl (List.forall_mem_cons.2 ⟨⟨c, rfl⟩, hplain⟩)
          · exact .inr ⟨.char c :: front, index, behind, rfl,
              List.forall_mem_cons.2 ⟨⟨c, rfl⟩, hfront⟩⟩

theorem unspliced_unplaced {front : List Symbol}
    (hfront : ∀ symbol ∈ front, ∃ c, symbol = .char c) : Unspliced (unplaced front) where
  plain := fun item hitem ↦ by
    obtain ⟨symbol, hsymbol, rfl⟩ := List.mem_map.1 hitem
    exact hfront symbol hsymbol
  place := fun item hitem ↦ by
    obtain ⟨symbol, -, rfl⟩ := List.mem_map.1 hitem
    rfl

theorem scan_through_hole {s : Scanner} {front behind : List Symbol} {index : Nat}
    {first out : Step} (hfirst : scan {} s (unplaced front) = .ok first)
    (h : scan {} s (unplaced (front ++ .hole index :: behind)) = .ok out) :
    ∃ last, scan {} (first.1.stepHole {} index).1 (unplaced behind) = .ok last ∧
      out = first.before ((first.1.stepHole {} index).before last) := by
  have hitems : unplaced (front ++ .hole index :: behind) =
      unplaced front ++ ⟨.hole index, 0⟩ :: unplaced behind := by simp [unplaced]
  rw [hitems, scan_append hfirst, scan_hole] at h
  obtain ⟨middle, hmiddle, rfl⟩ := map_eq_ok_iff.1 h
  obtain ⟨last, hlast, rfl⟩ := map_eq_ok_iff.1 hmiddle
  exact ⟨last, hlast, rfl⟩

/-- Whatever the holes hold, all that is read can be read back. -/
theorem verbatim_of_admits {symbols : List Symbol} {s : Scanner} {tokens own : List Token}
    {out : Step}
    (hstand : ∀ front index behind, symbols = front ++ .hole index :: behind →
      ∃ step, scan {} s (unplaced front) = .ok step ∧ step.1.Admits behind)
    (hbodies : BodiesApart {} s (unplaced symbols)) (hraw : ∀ value ∈ values, value.BodiesApart)
    (hs : s.Sound)
    (hverbatim : Verbatim True {} s tokens symbols)
    (hscan : scan {} s (unplaced symbols) = .ok out)
    (hfill : fill options values out.2 = .ok own) :
    Verbatim True {} out.1 (tokens ++ own) [] := by
  induction hn : symbols.length using Nat.strongRecOn generalizing symbols s tokens own out with
  | ind n ih =>
    subst hn
    have hsymbols : ∀ symbols : List Symbol, (unplaced symbols).map Item.symbol = symbols :=
      fun symbols ↦ (List.map_map).trans (List.map_id symbols)
    rcases plain_or_first_hole symbols with hplain | ⟨front, index, behind, rfl, hfront⟩
    · have hrun := scans_of_scan hscan
      have hunspliced := unspliced_unplaced hplain
      rw [fill_of_not_hole (hrun.filled hunspliced.plain)] at hfill
      cases hfill
      exact hrun.verbatim hunspliced hbodies hs (by rwa [hsymbols, List.append_nil])
    · obtain ⟨first, hfirst, hadmits⟩ := hstand front index behind rfl
      obtain ⟨last, hlast, rfl⟩ := scan_through_hole hfirst hscan
      obtain ⟨before, after, hbefore, hafter, rfl⟩ := fill_append_eq_ok_iff.1 hfill
      obtain ⟨value, more, hvalue, hmore, rfl⟩ := fill_append_eq_ok_iff.1 hafter
      have hrun := scans_of_scan hfirst
      have hunspliced := unspliced_unplaced hfront
      have hitems : unplaced (front ++ .hole index :: behind) =
          unplaced front ++ ⟨.hole index, 0⟩ :: unplaced behind := by simp [unplaced]
      rw [hitems] at hbodies
      obtain ⟨hbefore', hbehind⟩ := hbodies.append hfirst
      rw [fill_of_not_hole (hrun.filled hunspliced.plain)] at hbefore
      cases hbefore
      have hstart := hrun.verbatim hunspliced hbefore' hs (by rwa [hsymbols])
      have hhole := hstart.stepHole hadmits hraw hvalue
      rw [← List.append_assoc, ← List.append_assoc]
      change Verbatim True {} last.1 _ []
      refine ih behind.length (by simp; omega) (fun front' index' behind' hsplit ↦ ?_) hbehind.hole
        ((hrun.sound hs).stepHole index) hhole hlast hmore rfl
      obtain ⟨step, hstep, hadmits'⟩ := hstand (front ++ .hole index :: front') index' behind'
        (by simp [hsplit])
      obtain ⟨step', hstep', rfl⟩ := scan_through_hole hfirst hstep
      exact ⟨step', hstep', hadmits'⟩

end Run

/-- Every hole of the template stands alone. -/
def Template.StandsAlone (t : Template) : Prop :=
  ∀ front index behind, t.symbols = front ++ .hole index :: behind →
    ∃ step, scan {} {} (unplaced front) = .ok step ∧ step.1.Admits behind

section Check

theorem mem_zip_inits_tails {α : Type} {front behind list : List α} :
    (front, behind) ∈ list.inits.zip list.tails ↔ front ++ behind = list := by
  induction list generalizing front with
  | nil => simp
  | cons a list ih =>
      have hzip : (a :: list).inits.zip (a :: list).tails = ([], a :: list) ::
          (list.inits.zip list.tails).map (Prod.map (a :: ·) id) := by
        simp [List.zip_map_left]
      rw [hzip, List.mem_cons, List.mem_map]
      cases front with
      | nil => simp
      | cons b front =>
          simp only [Prod.mk.injEq, reduceCtorEq, false_and, false_or, Prod.exists, Prod.map,
            List.cons.injEq, id, List.cons_append]
          constructor
          · rintro ⟨front', behind', hmem, ⟨rfl, rfl⟩, rfl⟩
            exact ⟨rfl, ih.1 hmem⟩
          · rintro ⟨rfl, hlist⟩
            exact ⟨front, behind, ih.2 hlist, ⟨rfl, rfl⟩, rfl⟩

/-- The hole at the start of the second text, if there is one, stands alone behind the first. -/
def standsAloneAt : List Symbol × List Symbol → Bool
  | (front, .hole _ :: behind) =>
    (scan {} {} (unplaced front)).toOption.any fun step ↦ step.1.Admits behind
  | _ => true

theorem Template.standsAlone_iff {t : Template} : t.StandsAlone ↔
    ∀ split ∈ t.symbols.inits.zip t.symbols.tails, standsAloneAt split = true := by
  have hany : ∀ (front behind : List Symbol),
      (∃ step, scan {} {} (unplaced front) = .ok step ∧ step.1.Admits behind) ↔
        ((scan {} {} (unplaced front)).toOption.any fun step ↦ step.1.Admits behind) = true := by
    intro front behind
    cases scan {} {} (unplaced front) <;> simp [Except.toOption]
  constructor
  · rintro h ⟨front, behind⟩ hsplit
    unfold standsAloneAt
    split
    · rename_i heq
      cases heq
      exact (hany _ _).1 (h _ _ _ (mem_zip_inits_tails.1 hsplit).symm)
    · rfl
  · intro h front index behind hsymbols
    exact (hany front behind).2 (h (front, .hole index :: behind)
      (mem_zip_inits_tails.2 hsymbols.symm))

instance : DecidablePred Template.StandsAlone := fun _ ↦
  decidable_of_iff _ Template.standsAlone_iff.symm

end Check

/-- Where every hole stands alone the command line is compiled to the same pipeline. -/
theorem compile_standsAlone_line {t : Template} {options : FillOptions} {p : Pipeline}
    (hstand : t.StandsAlone) (hbodies : t.BodiesApart)
    (hraw : ∀ value ∈ t.holes, value.BodiesApart)
    (hfirm : t.Firm options) (h : t.compile options = .ok p) (options' : FillOptions) :
    (Template.ofText p.line).compile options' = .ok p := by
  obtain ⟨lexemes, tokens, hlex, hfill, -, hstages, hline⟩ := compile_eq_ok_iff.1 h
  have hall := hfirm tokens (tokens_eq_ok_iff.2 ⟨lexemes, hlex, hfill⟩)
  obtain ⟨out, final, hscan, hfinish, rfl⟩ :=
    scanAll_eq_ok_iff.1 (Template.lexemes_eq_ok_iff.1 hlex)
  obtain ⟨first, hfirst, rfl⟩ := (Filled.finish hfinish).fill_end_iff.1 hfill
  have hverbatim := verbatim_of_admits hstand hbodies hraw sound_empty verbatim_start hscan hfirst
  have hsealed := hverbatim.finish ((scans_of_scan hscan).sound sound_empty) hfinish
  obtain ⟨stages, line⟩ := p
  obtain rfl : line = commandLine _ := hline
  exact compile_commandLine hsealed hall hstages options'

/-- Lists and raw texts between blanks and operators, and one in a comment. -/
def archive : Template :=
  ⟨[.literal "tar -c ".toList, .hole (.list ["a b".toList, "it's".toList]), .literal " 2>".toList,
    .hole (.raw "log".toList), .literal "|".toList, .hole (.raw "gzip -9 >out".toList),
    .literal "; # ".toList, .hole (.list [['x']]), .literal "\n".toList]⟩

def archivePipeline : Pipeline where
  stages := [⟨[⟨"tar".toList, "tar".toList, false⟩, ⟨"-c".toList, "-c".toList, false⟩,
      ⟨"'a b'".toList, "a b".toList, false⟩, ⟨"'it'\\''s'".toList, "it's".toList, false⟩],
      [(2, .file ⟨"log".toList, "log".toList, false⟩ .truncate)]⟩,
    ⟨[⟨"gzip".toList, "gzip".toList, false⟩, ⟨"-9".toList, "-9".toList, false⟩],
      [(1, .file ⟨"out".toList, "out".toList, false⟩ .truncate)]⟩]
  line := "tar -c 'a b' 'it'\\''s' 2>log|gzip -9 >out;".toList

example : archive.StandsAlone ∧ archive.BodiesApart ∧
    (∀ value ∈ archive.holes, value.BodiesApart) ∧ archive.Firm {} ∧
      archive.compile {} = .ok archivePipeline := by decide +kernel

end ShellTemplate
