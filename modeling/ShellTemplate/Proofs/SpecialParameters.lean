import ShellTemplate.Proofs.Backticked
import ShellTemplate.Proofs.Lexeme.History
import ShellTemplate.Proofs.Lexeme.Kindred
import ShellTemplate.Proofs.Lexeme.Pending

/-!
# Special parameters

Of `$$` only the first dollar sign is read at once, and the second may still open a construct with
a parenthesis or a brace behind it; `$?` is complete. Before anything else the two are read alike,
and the holes behind them stand in the same contexts.
-/

namespace ShellTemplate

open Scanner

/-- Pieces of one length that both expand, or whose text is the same. -/
def Kinship.expanding : Kinship where
  Kin p p' := p'.expands = p.expands ∧ p'.raw.length = p.raw.length ∧
    (p.expands = false → p'.raw = p.raw)
  empty := ⟨rfl, rfl, fun _ ↦ rfl⟩
  append := by
    rintro p p' ⟨hexpands, hlength, hraw⟩ q
    refine ⟨by simp [Piece.append, hexpands], by simp [Piece.append, hlength], fun h ↦ ?_⟩
    simp only [Piece.append, Bool.or_eq_false_iff] at h ⊢
    rw [hraw h.1]
  nil_iff := by
    rintro p p' ⟨-, hlength, -⟩
    rw [← List.length_eq_zero_iff, ← List.length_eq_zero_iff, hlength]
  descriptor := by
    rintro p p' ⟨hexpands, -, hraw⟩
    unfold Piece.descriptor?
    cases h : p.expands with
    | true => simp [hexpands, h]
    | false => simp [hexpands, h, hraw h]
  holes := True
  dropLast := by
    rintro - p p' ⟨hexpands, hlength, hraw⟩
    exact ⟨hexpands, by simp [hlength], fun h ↦ congrArg List.dropLast (hraw h)⟩

theorem holeLexemes_of_kindred {k : Kinship} {lexemes lexemes' : List Lexeme}
    (h : List.Forall₂ (Lexeme.Kindred k) lexemes lexemes') :
    holeLexemes lexemes' = holeLexemes lexemes := by
  induction h with
  | nil => rfl
  | cons hkin _ ih =>
      cases hkin with
      | piece | operator | blank => exact ih
      | hole index quoting enclosing => exact congrArg (_ :: ·) ih

/-- Both texts are well formed up to the end with the same holes, or neither is. -/
abbrev SameHoles : Except LexError (List Lexeme) → Except LexError (List Lexeme) → Prop :=
  SameOutcome fun lexemes lexemes' ↦ holeLexemes lexemes' = holeLexemes lexemes

theorem SameHoles.refl (x : Except LexError (List Lexeme)) : SameHoles x x := by
  cases x with
  | ok lexemes => exact .ok rfl
  | error e => exact .error e

theorem SameHoles.toOption_eq {x y : Except LexError (List Lexeme)} (h : SameHoles x y) :
    x.toOption.map holeLexemes = y.toOption.map holeLexemes := by
  cases h with
  | ok hholes => exact congrArg some hholes.symm
  | error e => rfl

theorem SameHoles.behind {x y : Except LexError (List Lexeme)} {lexemes lexemes' : List Lexeme}
    (h : SameHoles x y) (hbefore : holeLexemes lexemes' = holeLexemes lexemes) :
    SameHoles (x.map (lexemes ++ ·)) (y.map (lexemes' ++ ·)) :=
  h.map fun _ _ hrest ↦ by rw [holeLexemes_append, holeLexemes_append, hbefore, hrest]

section Behind

variable {scope : Scope} {v w : Scanner}

/-- The first scanner is behind the second dollar sign of `$$`, the second one behind `$?`. -/
structure Behind (v w : Scanner) : Prop where
  mode : v.mode = .plain
  expands : v.piece.expands = true
  pushed : ∃ e, Pushed v w '?' e v.frames

theorem Behind.kindred (h : Behind v w) {u : Scanner} (hframes : u.frames = v.frames)
    (hmode : u.mode = .plain) (hprevious : u.previous = v.previous)
    (hraw : u.piece.raw = v.piece.raw ++ ['$']) (hexpands : u.piece.expands = true) :
    u.Kindred .expanding w := by
  obtain ⟨e, hpushed⟩ := h.pushed
  have hexpands' : w.piece.expands = true := by rw [hpushed.expands, h.expands, Bool.true_or]
  refine ⟨hpushed.frames.trans hframes.symm, hpushed.mode.trans hmode.symm,
    hpushed.previous.trans hprevious.symm, hexpands'.trans hexpands.symm, ?_, fun hnot ↦ ?_⟩
  · simp [hpushed.raw, hraw]
  · exact absurd (hexpands.symm.trans hnot) (by simp)

theorem Behind.settled (h : Behind v w) (c : Char) :
    ((v.inMode (.dollar 0)).settleBefore scope c).1.Kindred .expanding w := by
  refine h.kindred ?_ ?_ ?_ ?_ ?_ <;> simp only [settleBefore, inMode]
  all_goals split_ifs
  all_goals first | rfl | exact h.expands

theorem Behind.finish (h : Behind v w) :
    SameHoles ((v.inMode (.dollar 0)).finish scope) (w.finish scope) := by
  have hkin : (v.pushChar scope '$').Kindred .expanding w :=
    h.kindred rfl h.mode rfl rfl h.expands
  rw [finish_dollar h.mode]
  exact hkin.finish.imp_ok fun _ _ _ hlexemes ↦ holeLexemes_of_kindred hlexemes

/-- A hole takes the second dollar sign for a character of the word. -/
theorem Behind.stepHole (h : Behind v w) (index : Nat) :
    ((v.inMode (.dollar 0)).stepHole scope index).1.Kindred .expanding
        (w.stepHole scope index).1 ∧
      holeLexemes (w.stepHole scope index).2 =
        holeLexemes ((v.inMode (.dollar 0)).stepHole scope index).2 := by
  obtain ⟨e, hpushed⟩ := h.pushed
  have hv : (v.inMode (.dollar 0)).stepHole scope index =
      ((v.inMode .plain).push scope ['\\', '$'] ['$']).readHole scope index := rfl
  have hw : w.stepHole scope index = w.readHole scope index := by
    simp [Scanner.stepHole, Scanner.settle, hpushed.mode, Step.andThen]
  rw [hv, hw]
  unfold readHole
  rw [hpushed.frames, holeLexemes_emitHole, holeLexemes_emitHole, emitHole_eq, emitHole_eq]
  · exact ⟨⟨hpushed.frames, hpushed.mode, rfl, Kinship.expanding.empty⟩, rfl⟩
  · exact fun hraw ↦ by simp [hpushed.raw] at hraw
  · exact fun hraw ↦ by simp [Scanner.push] at hraw

/-- What follows is read alike, unless it completes a construct with the second dollar sign. -/
theorem Behind.scanRest (h : Behind v w) (hv : (v.inMode (.dollar 0)).Sound)
    {symbols : List Symbol} (hhead : ∀ c ∈ ['(', '\x7b'], symbols.head? ≠ some (.char c)) :
    SameHoles (scanRest scope (v.inMode (.dollar 0)) (unplaced symbols))
      (scanRest scope w (unplaced symbols)) := by
  have hkindred : ∀ {t t' : Scanner} (symbols : List Symbol), t.Kindred .expanding t' → t.Sound →
      SameHoles (ShellTemplate.scanRest scope t (unplaced symbols))
        (ShellTemplate.scanRest scope t' (unplaced symbols)) := by
    intro t t' symbols hkin ht
    exact (hkin.scanRest ht (Kinship.admits_unplaced trivial symbols)).imp_ok
      fun _ _ _ hlexemes ↦ holeLexemes_of_kindred hlexemes
  cases symbols with
  | nil =>
      change SameHoles (ShellTemplate.scanRest _ _ []) (ShellTemplate.scanRest _ _ [])
      rw [scanRest_nil, scanRest_nil]
      exact h.finish
  | cons symbol rest =>
      cases symbol with
      | hole index =>
          obtain ⟨hkin, hholes⟩ := @Behind.stepHole scope v w h index
          change SameHoles (ShellTemplate.scanRest _ _ (⟨.hole index, 0⟩ :: unplaced rest))
            (ShellTemplate.scanRest _ _ (⟨.hole index, 0⟩ :: unplaced rest))
          rw [scanRest_of_map (scan_hole _ _ index 0 _), scanRest_of_map (scan_hole _ _ index 0 _)]
          exact (hkindred rest hkin (hv.stepHole index)).behind hholes
      | char c =>
          have hbrace : c ≠ '\x7b' := by
            rintro rfl
            exact hhead _ (by simp) rfl
          have hparen : c ≠ '(' := by
            rintro rfl
            exact hhead _ (by simp) rfl
          have hnone : (v.inMode (.dollar 0)).complete? scope c = none := by
            simp [Scanner.complete?, inMode, hbrace, hparen]
          obtain ⟨hsound, hplain⟩ := hv.settlement (settleBefore_settlement hnone)
          change SameHoles (ShellTemplate.scanRest _ _ (⟨.char c, 0⟩ :: unplaced rest)) _
          have hsilent : ((v.inMode (.dollar 0)).settleBefore scope c).2 = [] := rfl
          rw [scanRest_of_map (scan_settled hnone hplain 0 (unplaced rest)), hsilent,
            map_nil_append]
          exact hkindred (.char c :: rest) (@Behind.settled scope v w h c) hsound

end Behind

section Opening

variable {scope : Scope} {s : Scanner}

theorem stepChar_of_settled {c : Char} (hnone : s.complete? scope c = none) (place : Nat) :
    s.stepChar scope c place = (s.settleBefore scope c).andThen (·.readChar scope c place) := by
  rw [Scanner.stepChar, hnone]

/-- Outside comments and escapes a dollar sign is read on its own. -/
theorem stepChar_dollar_of_bare (hs : s.Sound) (hcomment : s.mode ≠ .comment)
    (hescape : s.mode ≠ .escape) (hsingle : s.inSingle = false) :
    ∃ u : Scanner, u.mode = .plain ∧ u.inSingle = false ∧
      (s.stepChar scope '$' 0).1 = u.inMode (.dollar 0) := by
  have hnone : s.complete? scope '$' = none := by
    unfold Scanner.complete?
    cases hmode : s.mode <;> simp_all
  obtain ⟨hsound, hplain⟩ := hs.settlement (settleBefore_settlement hnone)
  have hframes := (settleBefore_settlement hnone).frames
  have hsingle' : (s.settleBefore scope '$').1.inSingle = false := by
    unfold inSingle at hsingle ⊢
    rwa [hframes]
  refine ⟨_, hplain, hsingle', ?_⟩
  rw [stepChar_of_settled hnone, Step.andThen_fst, readChar_dollar hsingle']

/-- The question mark is a character of the word. -/
theorem exists_readChar_question (hmode : s.mode = .plain) (hsingle : s.inSingle = false) :
    ∃ w e, s.readChar scope '?' 0 = (w, []) ∧ Pushed s w '?' e s.frames := by
  have hplain := @Pushed.of_pushChar scope '?' s hmode
  have hmarked := @Pushed.of_markExpands scope '?' s hmode
  unfold Scanner.readChar
  cases hframes : s.frames with
  | nil => exact ⟨_, _, by simp [readBare], hframes ▸ hmarked⟩
  | cons frame rest =>
      cases frame with
      | single => simp [inSingle, hframes] at hsingle
      | double => exact ⟨_, _, by simp, hframes ▸ hplain⟩
      | substitution => exact ⟨_, _, by simp [Scanner.readSubstitution], hframes ▸ hplain⟩
      | parameter => exact ⟨_, _, by simp [readParameter], hframes ▸ hplain⟩

theorem stepChar_of_comment (hcomment : s.mode = .comment) {c : Char} (hc : c ≠ '\n') :
    s.stepChar scope c 0 = (s, []) := by
  simp [Scanner.stepChar, Scanner.complete?, hcomment, hc]

/-- A dollar sign before a special parameter is decided when the parameter is read. -/
theorem behind_dollars {u : Scanner} (hmode : u.mode = .plain) (hsingle : u.inSingle = false) :
    ∃ v w, Behind v w ∧
      (u.inMode (.dollar 0)).stepChar scope '$' 0 = (v.inMode (.dollar 0), []) ∧
      (u.inMode (.dollar 0)).stepChar scope '?' 0 = (w, []) := by
  have hstep : ∀ c ∈ ['$', '?'], (u.inMode (.dollar 0)).stepChar scope c 0 =
      (u.pushChar scope '$').markExpands.readChar scope c 0 := by
    intro c hc
    obtain ⟨frames, mode, piece, start, previous⟩ := u
    obtain rfl : mode = .plain := hmode
    rcases List.mem_pair.1 hc with rfl | rfl <;> rfl
  obtain ⟨w, e, hread, hpushed⟩ :=
    @exists_readChar_question scope (u.pushChar scope '$').markExpands hmode hsingle
  refine ⟨(u.pushChar scope '$').markExpands, w, ⟨hmode, rfl, e, hpushed⟩, ?_, ?_⟩
  · rw [hstep _ (by simp)]
    exact @readChar_dollar scope (u.pushChar scope '$').markExpands hsingle 0
  · rw [hstep _ (by simp), hread]

/-- Both parameters are read alike, wherever they are not quoted. -/
theorem scanRest_dollars (hs : s.Sound) (hescape : s.mode ≠ .escape) (hsingle : s.inSingle = false)
    {symbols : List Symbol} (hhead : ∀ c ∈ ['(', '\x7b'], symbols.head? ≠ some (.char c)) :
    SameHoles (scanRest scope s (⟨.char '$', 0⟩ :: ⟨.char '$', 0⟩ :: unplaced symbols))
      (scanRest scope s (⟨.char '$', 0⟩ :: ⟨.char '?', 0⟩ :: unplaced symbols)) := by
  have hclosed : ∀ {t : Scanner} {c : Char}, c ≠ '\x60' → ∀ rest : List Item,
      scanRest scope t (⟨.char c, 0⟩ :: rest) =
        (scanRest scope (t.stepChar scope c 0).1 rest).map ((t.stepChar scope c 0).2 ++ ·) :=
    fun hc rest ↦ scanRest_char (not_opensBodyAt_of_ne hc) 0 rest
  rw [hclosed (by decide) (⟨.char '$', 0⟩ :: unplaced symbols),
    hclosed (by decide) (⟨.char '?', 0⟩ :: unplaced symbols)]
  refine SameHoles.behind ?_ rfl
  rw [hclosed (by decide), hclosed (by decide)]
  -- the text before may end in a comment, which skips both parameters
  by_cases hcomment : s.mode = .comment
  · simp only [stepChar_of_comment hcomment (by decide : '$' ≠ '\n'),
      stepChar_of_comment hcomment (by decide : '?' ≠ '\n'), map_nil_append]
    exact .refl _
  · obtain ⟨u, hmode, hsingle', hstep⟩ :=
      @stepChar_dollar_of_bare scope s hs hcomment hescape hsingle
    obtain ⟨v, w, hbehind, hdollar, hquestion⟩ := @behind_dollars scope u hmode hsingle'
    have hsound : (v.inMode (.dollar 0)).Sound := by
      have htwice := @Sound.stepChar scope _ (@Sound.stepChar scope _ hs '$' 0) '$' 0
      rwa [hstep, hdollar] at htwice
    rw [hstep, hdollar, hquestion, map_nil_append, map_nil_append]
    exact hbehind.scanRest hsound hhead

end Opening

/-- Where a text may end, a double quote may open. -/
theorem exists_scan_opening {a opening : List Char} {lexemes : List Lexeme}
    (ha : lexemesOfText a = .ok lexemes) (hopening : opening = [] ∨ opening = ['"']) :
    ∃ out, scan {} {} (charItems (a ++ opening)) = .ok out ∧ out.1.Sound ∧
      out.1.mode ≠ .escape ∧ out.1.inSingle = false := by
  obtain ⟨out, hscan, hs, hframes, hescape, -⟩ := exists_scan_of_lexemesOfText ha
  have hsingle : out.1.inSingle = false := by simp [inSingle, hframes]
  rcases hopening with rfl | rfl
  · rw [List.append_nil]
    exact ⟨out, hscan, hs, hescape, hsingle⟩
  · have hstep : (out.1.stepChar {} '"' 0).1.mode ≠ .escape ∧
        (out.1.stepChar {} '"' 0).1.inSingle = false := by
      by_cases hcomment : out.1.mode = .comment
      · rw [stepChar_of_comment hcomment (by decide)]
        exact ⟨hescape, hsingle⟩
      · have hnone : out.1.complete? {} '"' = none := by
          unfold Scanner.complete?
          cases hmode : out.1.mode <;> simp_all
        have hsettled := settleBefore_settlement hnone
        have hplain := (hs.settlement hsettled).2
        have hbare := hsettled.frames.trans hframes
        rw [stepChar_of_settled hnone, Step.andThen_fst]
        simp [Scanner.readChar, readBare, inSingle, enter, pushSyntax, Scanner.push, hbare, hplain]
    have hquote := @scan_char {} out.1 '"' 0 [] (not_opensBodyAt_of_ne (by decide))
    rw [scan_nil] at hquote
    refine ⟨out.before ((out.1.stepChar {} '"' 0).before (_, [])), ?_, hs.stepChar '"' 0,
      hstep.1, hstep.2⟩
    rw [charItems_append, scan_append hscan, charItems_cons, charItems_nil, hquote]
    rfl

theorem toOption_lexemes_literal (text : List Char) (r : List Segment) :
    (Template.lexemes ⟨.literal text :: r⟩).toOption =
      (scanRest {} {} (charItems text ++ unplaced (symbolsFrom 0 r))).toOption := by
  have hitems : unplaced (Template.symbols ⟨.literal text :: r⟩) =
      charItems text ++ unplaced (symbolsFrom 0 r) := by
    simp [Template.symbols, symbolsFrom, unplaced, charItems, Function.comp_def]
  have htoOption : ∀ (x : Except LexError (List Lexeme)) lexemes,
      x.toOption = some lexemes ↔ x = .ok lexemes := by
    intro x lexemes
    cases x <;> simp [Except.toOption]
  refine Option.ext fun lexemes ↦ ?_
  rw [htoOption, htoOption, Template.lexemes_eq_ok_iff, hitems, scanAll_eq_scanRest]

/-- Behind `$$` and behind `$?` the holes stand in the same contexts, unless a parenthesis or a
brace follows. -/
theorem special_parameters_alike {a opening : List Char} {lexemes : List Lexeme}
    (ha : lexemesOfText a = .ok lexemes) (hopening : opening = [] ∨ opening = ['"'])
    {r : List Segment} (hr : ∀ c ∈ ['(', '\x7b'], (symbolsFrom 0 r).head? ≠ some (.char c)) :
    (Template.lexemes ⟨.literal (a ++ opening ++ "$$".toList) :: r⟩).toOption.map holeLexemes =
      (Template.lexemes ⟨.literal (a ++ opening ++ "$?".toList) :: r⟩).toOption.map
        holeLexemes := by
  obtain ⟨out, hscan, hs, hescape, hsingle⟩ := exists_scan_opening ha hopening
  have hsame : SameHoles
      (scanRest {} {} (charItems (a ++ opening ++ "$$".toList) ++ unplaced (symbolsFrom 0 r)))
      (scanRest {} {} (charItems (a ++ opening ++ "$?".toList) ++ unplaced (symbolsFrom 0 r))) := by
    rw [charItems_append _ "$$".toList, charItems_append _ "$?".toList, List.append_assoc,
      List.append_assoc, scanRest_append hscan, scanRest_append hscan]
    exact (scanRest_dollars hs hescape hsingle hr).behind rfl
  rw [toOption_lexemes_literal, toOption_lexemes_literal]
  exact hsame.toOption_eq

/-- The end of a file name in double quotes. -/
def quotedEnd : List Segment :=
  [.literal "-$(id ".toList, .hole (.str ['x']), .literal ")\"".toList]

theorem special_parameters_alike_fileName :
    (∃ lexemes, lexemesOfText "tee > ".toList = .ok lexemes) ∧
      (∀ c ∈ ['(', '\x7b'], (symbolsFrom 0 quotedEnd).head? ≠ some (.char c)) ∧
      (Template.lexemes ⟨.literal ("tee > ".toList ++ ['"'] ++ "$$".toList) ::
        quotedEnd⟩).toOption.map holeLexemes = some [⟨.hole 0, .substitution 1, {}⟩] := by
  have hhead : ∀ c ∈ ['(', '\x7b'], (symbolsFrom 0 quotedEnd).head? ≠ some (.char c) := by
    intro c hc
    rcases List.mem_pair.1 hc with rfl | rfl <;> decide +kernel
  have htext : (lexemesOfText "tee > ".toList).map (fun _ ↦ ()) = .ok () := by decide +kernel
  obtain ⟨lexemes, hlexemes, -⟩ := map_eq_ok_iff.1 htext
  refine ⟨⟨lexemes, hlexemes⟩, hhead, ?_⟩
  exact (special_parameters_alike hlexemes (.inr rfl) hhead).trans (by decide +kernel)

/-- Inside double quotes a parenthesis behind `$$` opens a substitution, behind `$?` it does not. -/
theorem substitution_opens_behind_dollars :
    (∃ lexemes, lexemesOfText "echo ".toList = .ok lexemes) ∧
      (Template.lexemes ⟨[.literal ("echo ".toList ++ ['"'] ++ "$$".toList),
        .literal "(cat ".toList, .hole (.str ['x']), .literal ")\"".toList]⟩).map holeLexemes =
          .ok [⟨.hole 0, .substitution 1, {}⟩] ∧
      (Template.lexemes ⟨[.literal ("echo ".toList ++ ['"'] ++ "$?".toList),
        .literal "(cat ".toList, .hole (.str ['x']), .literal ")\"".toList]⟩).map holeLexemes =
          .ok [⟨.hole 0, .double, {}⟩] := by
  refine ⟨?_, by decide +kernel, by decide +kernel⟩
  have hlexemes : (lexemesOfText "echo ".toList).map (fun _ ↦ ()) = .ok () := by decide +kernel
  exact (map_eq_ok_iff.1 hlexemes).imp fun _ h ↦ h.1

end ShellTemplate
