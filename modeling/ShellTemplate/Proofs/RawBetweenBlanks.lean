import ShellTemplate.Proofs.Lexeme.BehindBlank
import ShellTemplate.Proofs.Lexeme.Ends
import ShellTemplate.Proofs.Lexeme.History
import ShellTemplate.Proofs.Lexeme.Kindred
import ShellTemplate.Proofs.Lexeme.Pending

/-!
# Shell text in a hole between blanks

The text of a raw hole is scanned on its own. Where blanks stand around the hole this comes to
reading the text in its place: the blank before it leaves no word to go on, and the blank behind it
decides what the end of the text decides. What differs is how many blanks are reported in a row,
and neither the words nor the line show that.
-/

namespace ShellTemplate

section Blanks

theorem assembleFrom_blank_blank (word : Option Word) (before after : List Token) :
    assembleFrom word (before ++ .blank :: .blank :: after) =
      assembleFrom word (before ++ .blank :: after) := by
  induction before generalizing word with
  | nil =>
      simp only [List.nil_append, assembleFrom]
      cases assembleFrom none after <;> rfl
  | cons token before ih =>
      cases token with
      | piece p => exact ih _
      | hole index => rfl
      | blank | operator op => simp only [List.cons_append, assembleFrom, ih]

theorem separate_separate (line : List Char) : separate (separate line) = separate line := by
  cases line with
  | nil => rfl
  | cons c line =>
      by_cases h : c = ' ' ∨ c = '\n' <;> simp [separate, h]

theorem commandLine_blank_blank (before after : List Token) :
    commandLine (before ++ .blank :: .blank :: after) =
      commandLine (before ++ .blank :: after) := by
  simp only [commandLine, List.foldl_append, List.foldl_cons, writeToken, separate_separate]

/-- Two blanks in a row are one. -/
theorem parse_blank_blank (before after : List Token) :
    parse (before ++ .blank :: .blank :: after) = parse (before ++ .blank :: after) := by
  simp only [parse, assemble, assembleFrom_blank_blank, commandLine_blank_blank]

end Blanks

open Scanner

/-- Only pieces that are the same are kindred. -/
def Kinship.same : Kinship where
  Kin p p' := p' = p
  empty := rfl
  append h q := congrArg (Piece.append · q) h
  nil_iff h := by rw [h]
  descriptor h := congrArg Piece.descriptor? h
  holes := True
  dropLast _ _ _ h := by rw [h]

theorem tokens_of_kindred {lexemes lexemes' : List Lexeme}
    (h : List.Forall₂ (Lexeme.Kindred .same) lexemes lexemes') :
    lexemes'.map Lexeme.token = lexemes.map Lexeme.token := by
  induction h with
  | nil => rfl
  | cons hkin _ ih =>
      rw [List.map_cons, List.map_cons, ih]
      cases hkin with
      | piece kin => exact congrArg (Token.piece · :: _) kin
      | operator | blank | hole => rfl

/-- The scanner stands behind a blank outside all quotes. -/
abbrev Scanner.AtBlank (s : Scanner) : Prop := ({} : Scanner).behindBlank.Kindred .same s

theorem Scanner.sound_behindBlank : ({} : Scanner).behindBlank.Sound :=
  sound_of_plain rfl .nil (fun _ ↦ rfl) fun h ↦ absurd rfl h

section Text

variable {text : List Char} {lexemes : List Lexeme} {s : Scanner}

theorem stepChar_blank (hframes : s.frames = []) (hcomment : s.mode ≠ .comment)
    (hescape : s.mode ≠ .escape) :
    s.stepChar {} ' ' 0 = (s.settle {}).andThen Scanner.emitBlank := by
  have hnone : s.complete? {} ' ' = none := by
    unfold Scanner.complete?
    split <;> simp_all
  have hsettled := (@settle_settlement {} s hcomment hescape).frames.trans hframes
  rw [Scanner.stepChar, hnone, settleBefore_blank, Step.andThen, Step.andThen,
    readChar_blank hsettled]

/-- A blank is reported unless one has been, and then no word stands between them. -/
theorem emitBlank_lexemes (s : Scanner) :
    s.emitBlank.2 = s.flush.2 ++ [⟨.blank, .bare, {}⟩] ∨
      s.emitBlank.2 = [] ∧ s.flush.2 = [] ∧ s.previous = .blank := by
  unfold Scanner.emitBlank Scanner.flush
  by_cases hraw : s.piece.raw = []
  · by_cases hprevious : s.previous = .blank <;> simp [Step.andThen, hraw, hprevious]
  · simp [Step.andThen, hraw]

/-- A blank behind a text decides what its end decides, and is reported unless the text itself
ends in one. -/
theorem exists_scan_blank (h : lexemesOfText text = .ok lexemes) (hhash : '#' ∉ text) :
    ∃ out before, scan {} {} (charItems (text ++ [' '])) = .ok out ∧ out.1.AtBlank ∧
      out.2.map Lexeme.token = before ++ [.blank] ∧
        (lexemes.map Lexeme.token = before ∨ lexemes.map Lexeme.token = before ++ [.blank]) := by
  obtain ⟨out, hscan, hs, hframes, hescape, rfl⟩ := exists_scan_of_lexemesOfText h
  have hrun := scans_of_scan hscan
  have hcomment := mode_ne_comment_of_scan hhash hscan
  have hsettled := @settle_settlement {} out.1 hcomment hescape
  obtain ⟨hu, hplain⟩ := hs.settlement hsettled
  have hbare := hsettled.frames.trans hframes
  have hstep := stepChar_blank hframes hcomment hescape
  have hblank := @scan_char {} out.1 ' ' 0 [] (not_opensBodyAt_of_ne (by decide))
  have hemit := emitBlank_eq (hu.piece_empty hplain)
  have hscan' : scan {} {} (charItems (text ++ [' '])) =
      .ok ((out.1.settle {}).1.emitBlank.1,
        out.2 ++ ((out.1.settle {}).2 ++ (out.1.settle {}).1.emitBlank.2)) := by
    rw [charItems_append, scan_append hscan, charItems_cons, charItems_nil, hblank, scan_nil, hstep]
    simp [Except.map, Step.before, Step.andThen]
  have hat : (out.1.settle {}).1.emitBlank.1.AtBlank := by
    rw [hemit]
    exact ⟨hbare, hplain, rfl, rfl⟩
  have hremembers := hrun.remembers.before (.settlement hsettled)
  rw [Step.andThen_snd, ← List.append_assoc] at h ⊢
  rcases emitBlank_lexemes (out.1.settle {}).1 with hreported | ⟨hsilent, hflush, hprevious⟩
  · refine ⟨_, _, hscan', hat, ?_, .inl rfl⟩
    simp [hreported]
  · obtain ⟨before, hbefore⟩ := Previous.after_eq_blank
      (hremembers.previous.symm.trans hprevious) (by simp)
    refine ⟨_, before, hscan', hat, ?_, .inr ?_⟩
    · simpa [hsilent, Step.before] using hbefore
    · simpa [hflush, Step.before] using hbefore

/-- From every blank on, a text that is accepted completes the same tokens. -/
theorem exists_scanRest_atBlank (h : lexemesOfText text = .ok lexemes) :
    ∃ tokens, ∀ s : Scanner, s.AtBlank → ∃ rest, scanRest {} s (charItems text) = .ok rest ∧
      rest.map Lexeme.token = tokens := by
  obtain ⟨out, hscan, hs, hframes, hescape, -⟩ := exists_scan_of_lexemesOfText h
  obtain ⟨out', hscan', htrims⟩ :=
    (@scan_behindBlank {} {} rfl (charItems text)).exists_of_ok hscan
  obtain ⟨final, hfinal⟩ : ∃ final, out'.1.finish {} = .ok final :=
    ⟨_, finish_eq_ok_iff.2 ⟨htrims.frames.trans hframes, htrims.mode.trans_ne hescape, rfl⟩⟩
  have hrest : scanRest {} ({} : Scanner).behindBlank (charItems text) = .ok (out'.2 ++ final) := by
    unfold scanRest
    rw [hscan']
    exact map_eq_ok_iff.2 ⟨final, hfinal, rfl⟩
  refine ⟨(out'.2 ++ final).map Lexeme.token, fun s hat ↦ ?_⟩
  obtain ⟨rest, hrest', hkin⟩ := (hat.scanRest sound_behindBlank
    (Kinship.admits_charItems _ text)).exists_of_ok hrest
  exact ⟨rest, hrest', tokens_of_kindred hkin⟩

/-- A hole between blanks, the second of which is read: the scanner is back at a blank. -/
theorem scanRest_hole_blank (hs : s.AtBlank) (items : List Item) :
    scanRest {} s (⟨.hole 0, 0⟩ :: ⟨.char ' ', 0⟩ :: items) =
      (scanRest {} s items).map fun rest ↦
        ⟨.hole 0, .bare, {}⟩ :: ⟨.blank, .bare, {}⟩ :: rest := by
  have hblank : ∀ t : Scanner, ¬ t.OpensBodyAt {} ' ' := fun t ↦
    not_opensBodyAt_of_ne (by decide)
  obtain ⟨frames, mode, piece, start, previous⟩ := s
  obtain ⟨rfl, rfl, rfl, rfl⟩ := hs
  rw [scanRest_of_map (scan_hole _ _ _ _ _), scanRest_char (hblank _), map_map]
  rfl

/-- From every blank on, a text with a blank behind it completes what it completes on its own, but
for a blank at its start. -/
theorem exists_scan_atBlank {out : Step} (hscan : scan {} {} (charItems text) = .ok out)
    (hat : out.1.AtBlank) (hs : s.AtBlank) :
    ∃ out', scan {} s (charItems text) = .ok out' ∧ out'.1.AtBlank ∧
      (out'.2.map Lexeme.token = out.2.map Lexeme.token ∨
        out.2.map Lexeme.token = .blank :: out'.2.map Lexeme.token) := by
  obtain ⟨behind, hbehind, htrims⟩ :=
    (@scan_behindBlank {} {} rfl (charItems text)).exists_of_ok hscan
  obtain ⟨out', hout', hkin⟩ := (hs.scan sound_behindBlank
    (Kinship.admits_charItems _ text)).exists_of_ok hbehind
  have htokens := tokens_of_kindred hkin.lexemes
  have htrans : behind.1.AtBlank → out'.1.AtBlank := fun h ↦
    ⟨hkin.scanner.frames.trans h.frames, hkin.scanner.mode.trans h.mode,
      hkin.scanner.previous.trans h.previous, hkin.scanner.kin.trans h.kin⟩
  refine ⟨out', hout', ?_⟩
  cases htrims with
  | unmoved hprevious =>
      have hblank := hat.previous
      rw [hprevious] at hblank
      cases hblank
  | same => exact ⟨htrans hat, .inl htokens⟩
  | trimmed s lexemes => exact ⟨htrans hat, .inr (congrArg _ htokens.symm)⟩

end Text

section Compile

variable {a r b : List Char} {as rs bs : List Lexeme}

/-- The tokens of the text in its place and of the text in the hole: one of two blanks in a row may
be missing before the text, and one behind it. -/
theorem parse_spliced {before raw own behind : List Token}
    (hraw : raw = own ∨ raw = own ++ [.blank]) {spliced : List Token}
    (hspliced : spliced = own ++ [.blank] ∨ own ++ [.blank] = .blank :: spliced) :
    parse (before ++ [.blank] ++ raw ++ .blank :: behind) =
      parse (before ++ [.blank] ++ spliced ++ behind) := by
  have hbehind : parse (before ++ [.blank] ++ raw ++ .blank :: behind) =
      parse (before ++ [.blank] ++ (own ++ [.blank]) ++ behind) := by
    rcases hraw with rfl | rfl
    · simp
    · simpa using parse_blank_blank (before ++ .blank :: own) behind
  have hbefore : parse (before ++ [.blank] ++ (own ++ [.blank]) ++ behind) =
      parse (before ++ [.blank] ++ spliced ++ behind) := by
    rcases hspliced with rfl | hspliced
    · rfl
    · rw [hspliced]
      simpa using parse_blank_blank before (spliced ++ behind)
  exact hbehind.trans hbefore

theorem lexemes_between_blanks {first spliced : Step} {last : List Lexeme}
    (hfirst : scan {} {} (charItems (a ++ [' '])) = .ok first)
    (hspliced : scan {} first.1 (charItems (r ++ [' '])) = .ok spliced)
    (hlast : scanRest {} spliced.1 (charItems b) = .ok last) :
    lexemesOfText (a ++ ' ' :: r ++ ' ' :: b) = .ok (first.2 ++ (spliced.2 ++ last)) := by
  have hitems : charItems (a ++ ' ' :: r ++ ' ' :: b) =
      charItems (a ++ [' ']) ++ (charItems (r ++ [' ']) ++ charItems b) := by
    simp [charItems]
  rw [lexemesOfText_eq_ok_iff, scanAll_eq_scanRest, hitems, scanRest_append hfirst,
    scanRest_append hspliced, hlast]
  rfl

theorem lexemes_raw_between_blanks {first : Step} {last : List Lexeme}
    (hfirst : scan {} {} (charItems (a ++ [' '])) = .ok first) (hat : first.1.AtBlank)
    (hlast : scanRest {} first.1 (charItems b) = .ok last) :
    Template.lexemes ⟨[.literal (a ++ [' ']), .hole (.raw r), .literal (' ' :: b)]⟩ =
      .ok (first.2 ++ (⟨.hole 0, .bare, {}⟩ :: ⟨.blank, .bare, {}⟩ :: last)) := by
  have hitems : unplaced (Template.symbols
      ⟨[.literal (a ++ [' ']), .hole (.raw r), .literal (' ' :: b)]⟩) =
      charItems (a ++ [' ']) ++ ⟨.hole 0, 0⟩ :: ⟨.char ' ', 0⟩ :: charItems b := by
    simp [Template.symbols, symbolsFrom, unplaced, charItems, Function.comp_def]
  rw [Template.lexemes_eq_ok_iff, hitems, scanAll_eq_scanRest, scanRest_append hfirst,
    scanRest_hole_blank hat, hlast]
  rfl

/-- A raw hole between blanks is its text in that place. -/
theorem compile_raw_between_blanks (ha : lexemesOfText a = .ok as) (hr : lexemesOfText r = .ok rs)
    (hb : lexemesOfText b = .ok bs) (hhash : '#' ∉ a) (hhash' : '#' ∉ r) (options : FillOptions) :
    Template.compile ⟨[.literal (a ++ [' ']), .hole (.raw r), .literal (' ' :: b)]⟩ options =
      (Template.ofText (a ++ ' ' :: r ++ ' ' :: b)).compile options := by
  obtain ⟨first, before, hfirst, hat, hbefore, -⟩ := exists_scan_blank ha hhash
  obtain ⟨inner, own, hinner, hat', hown, hraw⟩ := exists_scan_blank hr hhash'
  obtain ⟨spliced, hspliced, hat'', hcases⟩ := exists_scan_atBlank hinner hat' hat
  obtain ⟨behind, hbehind⟩ := exists_scanRest_atBlank hb
  obtain ⟨last, hlast, hlastTokens⟩ := hbehind first.1 hat
  obtain ⟨last', hlast', hlastTokens'⟩ := hbehind spliced.1 hat''
  have hlexemes := lexemes_between_blanks hfirst hspliced hlast'
  have hfilled : Filled (first.2 ++ (spliced.2 ++ last')) :=
    filled_of_scanAll (lexemesOfText_eq_ok_iff.1 hlexemes)
  have hfill' : fill options [] (first.2 ++ (spliced.2 ++ last')) =
      .ok (before ++ [.blank] ++ spliced.2.map Lexeme.token ++ behind) := by
    rw [fill_of_not_hole hfilled]
    simp [hbefore, hlastTokens']
  have hfill : fill options [.raw r] (first.2 ++
      (⟨.hole 0, .bare, {}⟩ :: ⟨.blank, .bare, {}⟩ :: last)) =
        .ok (before ++ [.blank] ++ rs.map Lexeme.token ++ .blank :: behind) := by
    have hvalue : fillHole options .bare {} (.raw r) = .ok (rs.map Lexeme.token) := by
      rw [fillHole, if_pos rfl, hr]
      rfl
    rw [fill_append, fill_of_not_hole (Filled.append_iff.1 hfilled).1, fill_hole rfl, hvalue,
      fill_cons_of_not_hole rfl, fill_of_not_hole ((plain_charItems b).filled_of_scanRest hlast)]
    simp [hbefore, hlastTokens, bind, Except.bind, Except.map]
  rw [hown] at hcases
  rw [Template.compile_of_fill (lexemes_raw_between_blanks hfirst hat hlast) hfill,
    Template.compile_of_fill hlexemes hfill', parse_spliced hraw hcases]

theorem compile_raw_between_blanks_sorted :
    (∃ lexemes, lexemesOfText "cat <in".toList = .ok lexemes) ∧
      (∃ lexemes, lexemesOfText " 2>&1 | sort '-u ' ".toList = .ok lexemes) ∧
      (∃ lexemes, lexemesOfText ">\"$out\" # done".toList = .ok lexemes) ∧
      '#' ∉ "cat <in".toList ∧ '#' ∉ " 2>&1 | sort '-u ' ".toList ∧
      (Template.compile ⟨[.literal ("cat <in".toList ++ [' ']),
        .hole (.raw " 2>&1 | sort '-u ' ".toList),
        .literal (' ' :: ">\"$out\" # done".toList)]⟩ {}).map
          (fun p ↦ (p.stages.length, p.line)) =
        .ok (2, "cat <in 2>&1 | sort '-u ' >\"$out\"".toList) := by
  have ha : (lexemesOfText "cat <in".toList).map (fun _ ↦ ()) = .ok () := by decide +kernel
  have hr : (lexemesOfText " 2>&1 | sort '-u ' ".toList).map (fun _ ↦ ()) = .ok () := by
    decide +kernel
  have hb : (lexemesOfText ">\"$out\" # done".toList).map (fun _ ↦ ()) = .ok () := by
    decide +kernel
  obtain ⟨as, ha, -⟩ := map_eq_ok_iff.1 ha
  obtain ⟨rs, hr, -⟩ := map_eq_ok_iff.1 hr
  obtain ⟨bs, hb, -⟩ := map_eq_ok_iff.1 hb
  have hhash : '#' ∉ "cat <in".toList := by decide +kernel
  have hhash' : '#' ∉ " 2>&1 | sort '-u ' ".toList := by decide +kernel
  refine ⟨⟨as, ha⟩, ⟨rs, hr⟩, ⟨bs, hb⟩, hhash, hhash', ?_⟩
  rw [compile_raw_between_blanks ha hr hb hhash hhash' {}]
  decide +kernel

end Compile

end ShellTemplate
