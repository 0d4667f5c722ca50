import ShellTemplate.Proofs.HoleNumbers
import ShellTemplate.Proofs.Lexeme.Retold

/-!
# One hole and several

A hole leaves the scanner in the state in which more holes leave it that follow with a blank before
each. Outside all constructs such a blank stands between words; inside one it is text, and so it is
once the body of a backtick substitution is spliced.
-/

namespace ShellTemplate

/-- More holes with a blank before each, numbered from `next` on. -/
def spreadSymbols (next : Nat) : Nat → List Symbol
  | 0 => []
  | count + 1 => .char ' ' :: .hole next :: spreadSymbols (next + 1) count

/-- The lexemes of more holes, with the same separator before each. -/
def spreadLexemes (separator : Lexeme) (quoting : Quoting) (enclosing : Enclosing) (next : Nat) :
    Nat → List Lexeme
  | 0 => []
  | count + 1 => separator :: ⟨.hole next, quoting, enclosing⟩ ::
      spreadLexemes separator quoting enclosing (next + 1) count

/-- A blank between words, or a space in the text of a word. -/
def Lexeme.IsSpace (lexeme : Lexeme) : Prop :=
  lexeme.token = .blank ∨ ∃ text, lexeme.token = .piece ⟨[' '], text, false⟩

/-- What a blank behind a hole completes where these frames are open. -/
def Scope.separator (scope : Scope) (frames : List Frame) : Lexeme :=
  if frames = [] then ⟨.blank, .bare, {}⟩
  else ⟨.piece ⟨[' '], [' '], false⟩, scope.quoting frames, {}⟩

theorem Scope.isSpace_separator (scope : Scope) (frames : List Frame) :
    (scope.separator frames).IsSpace := by
  unfold separator
  split_ifs
  · exact .inl rfl
  · exact .inr ⟨_, rfl⟩

/-- A context in which a value is written as in the other. A backslash only counts for the hole
that it stands before. -/
def Quoting.Alike (enclosing : Enclosing) (quoting quoting' : Quoting) : Prop :=
  quoting' = quoting ∨
    quoting = .escaped ∧ quoting'.isQuoted = false ∧
      (quoting' = .parameter → enclosing.parameter = true)

namespace Scanner

/-- A hole has just been read. -/
structure BehindHole (s : Scanner) : Prop where
  mode : s.mode = .plain
  piece : s.piece = {}
  previous : s.previous = .word

variable {scope : Scope} {s t : Scanner}

theorem emitHole_behindHole (hmode : s.mode = .plain) (empty : s.piece.raw = [] → s.piece = {})
    (index : Nat) (quoting : Quoting) (enclosing : Enclosing) :
    (s.emitHole index quoting enclosing).1.BehindHole := by
  unfold Scanner.emitHole
  rw [flush_eq empty]
  exact ⟨hmode, rfl, rfl⟩

theorem emitHole_lexemes (index : Nat) (quoting : Quoting) (enclosing : Enclosing) (s : Scanner) :
    (s.emitHole index quoting enclosing).2 = s.flush.2 ++ [⟨.hole index, quoting, enclosing⟩] := rfl

theorem Sound.stepHole_behindHole (hs : s.Sound) (hcomment : s.mode ≠ .comment) (scope : Scope)
    (index : Nat) :
    (s.stepHole scope index).1.BehindHole ∧ (s.stepHole scope index).1.frames = s.frames := by
  have hmove : HoleMove scope index s (s.stepHole scope index) := stepHole_holeMove
  generalize s.stepHole scope index = step at hmove
  cases hmove with
  | comment hmode => exact absurd hmode hcomment
  | escaped =>
      have hbehind := emitHole_behindHole
        (s := { s with mode := .plain, piece := s.core }) rfl hs.empty
      exact ⟨hbehind _ _ _, (emitHole_frames _ _ _ _).1⟩
  | dollar =>
      exact ⟨emitHole_behindHole (s := (s.inMode .plain).push scope ['\\', '$'] ['$']) rfl
        (by simp [push]) _ _ _, (emitHole_frames _ _ _ _).1⟩
  | plain hmode =>
      exact ⟨emitHole_behindHole hmode (hs.piece_empty hmode) _ _ _, (emitHole_frames _ _ _ _).1⟩
  | operator pending hmode =>
      have hsettled := hs.settled (ne_escape_of_pending hmode)
      obtain ⟨hsound, hplain⟩ := hsettled.emitOperator rfl (hs.bare_of_pending hmode) pending
      rw [Step.andThen_fst, readHole]
      exact ⟨emitHole_behindHole hplain (hsound.piece_empty hplain) _ _ _,
        (emitHole_frames _ _ _ _).1.trans (emitOperator_frames _ _).1⟩

theorem parameter_of_quoting {frames : List Frame} (h : scope.quoting frames = .parameter) :
    (scope.enclosing frames).parameter = true := by
  cases frames with
  | nil =>
      unfold Scope.quoting at h
      split_ifs at h
  | cons frame rest =>
      cases frame with
      | parameter => rfl
      | single | double | substitution => cases h

theorem Sound.alike_escapedQuoting (hs : s.Sound) (hmode : s.mode = .escape) (scope : Scope) :
    s.escapedQuoting.Alike (scope.enclosing s.frames) (scope.quoting s.frames) := by
  have hsingle := (hs.escape hmode).2
  unfold escapedQuoting
  unfold inSingle at hsingle
  cases hframes : s.frames with
  | nil =>
      refine .inr ⟨rfl, ?_, fun h ↦ parameter_of_quoting h⟩
      unfold Scope.quoting
      split_ifs <;> rfl
  | cons frame rest =>
      cases frame with
      | single => simp [hframes] at hsingle
      | double => exact .inl rfl
      | substitution | parameter =>
          exact .inr ⟨rfl, rfl, fun h ↦ parameter_of_quoting h⟩

/-- The lexemes of a hole: what was undecided, then the hole in its context. -/
theorem Sound.exists_stepHole_lexemes (hs : s.Sound) (hcomment : s.mode ≠ .comment) (scope : Scope)
    (index : Nat) : ∃ pending quoting, Filled pending ∧
      quoting.Alike (scope.enclosing s.frames) (scope.quoting s.frames) ∧
        (s.stepHole scope index).2 =
          pending ++ [⟨.hole index, quoting, scope.enclosing s.frames⟩] := by
  have hmove : HoleMove scope index s (s.stepHole scope index) := stepHole_holeMove
  generalize s.stepHole scope index = step at hmove
  cases hmove with
  | comment hmode => exact absurd hmode hcomment
  | escaped hmode =>
      exact ⟨_, _, .flush, hs.alike_escapedQuoting hmode scope, emitHole_lexemes _ _ _ _⟩
  | dollar | plain => exact ⟨_, _, .flush, .inl rfl, emitHole_lexemes _ _ _ _⟩
  | operator pending hmode =>
      have hframes := (emitOperator_frames pending (s.inMode .plain)).1
      refine ⟨((s.inMode .plain).emitOperator pending).2 ++
        ((s.inMode .plain).emitOperator pending).1.flush.2, _, ?_, .inl rfl, ?_⟩
      · exact Filled.append_iff.2 ⟨.emitOperator pending, .flush⟩
      · rw [Step.andThen_snd, readHole, emitHole_lexemes, hframes, List.append_assoc]
        rfl

end Scanner

open Scanner

section Spreading

variable {scope : Scope} {s : Scanner}

theorem not_opensBodyAt_blank : ¬ s.OpensBodyAt scope ' ' :=
  not_opensBodyAt_of_ne (by decide)

/-- A blank and a hole behind a hole. -/
theorem Scanner.BehindHole.step (h : s.BehindHole) (scope : Scope) (index place : Nat) :
    ∃ start, ((s.stepChar scope ' ' place).andThen (·.stepHole scope index)) =
      ({ s with start := start }, [scope.separator s.frames,
        ⟨.hole index, scope.quoting s.frames, scope.enclosing s.frames⟩]) := by
  obtain ⟨hmode, hpiece, hprevious⟩ := h
  rw [stepChar_of_plain hmode]
  obtain ⟨frames, mode, piece, start, previous⟩ := s
  subst hmode hpiece hprevious
  cases frames with
  | nil => exact ⟨start, rfl⟩
  | cons frame rest => cases frame <;> exact ⟨_, rfl⟩

theorem Scanner.BehindHole.scan_blank_hole (h : s.BehindHole) (scope : Scope)
    (next place place' : Nat) (rest : List Item) :
    ∃ start, scan scope s (⟨.char ' ', place⟩ :: ⟨.hole next, place'⟩ :: rest) =
      (scan scope { s with start := start } rest).map (Step.before (s, [scope.separator s.frames,
        ⟨.hole next, scope.quoting s.frames, scope.enclosing s.frames⟩])) := by
  obtain ⟨start, hstep⟩ := h.step scope next place
  have hscanner := congrArg Prod.fst hstep
  have hlexemes := congrArg Prod.snd hstep
  rw [Step.andThen_fst] at hscanner
  rw [Step.andThen_snd] at hlexemes
  refine ⟨start, ?_⟩
  rw [scan_char _ _ not_opensBodyAt_blank, scan_hole, hscanner, map_before_map]
  cases scan scope { s with start := start } rest with
  | error e => rfl
  | ok after =>
      simp only [Except.map, Step.before, hlexemes]

/-- More holes behind a hole leave the scanner where it is, but for a context that is not known
yet. -/
theorem Scanner.BehindHole.scan_spread (h : s.BehindHole) (scope : Scope)
    (next count place : Nat) (rest : List Item) :
    ∃ start, scan scope s (placeFrom place (spreadSymbols next count) ++ rest) =
      (scan scope { s with start := start } rest).map (Step.before (s, spreadLexemes
        (scope.separator s.frames) (scope.quoting s.frames) (scope.enclosing s.frames) next
          count)) := by
  induction count generalizing s next place with
  | zero =>
      refine ⟨s.start, ?_⟩
      change scan scope s rest = (scan scope s rest).map _
      cases scan scope s rest <;> rfl
  | succ count ih =>
      obtain ⟨start, hfirst⟩ := h.scan_blank_hole scope next place (place + 1)
        (placeFrom (place + 1 + 1) (spreadSymbols (next + 1) count) ++ rest)
      have hnext : BehindHole { s with start := start } := ⟨h.mode, h.piece, h.previous⟩
      obtain ⟨start', htail⟩ := ih hnext (next + 1) (place + 1 + 1)
      refine ⟨start', ?_⟩
      simp only [spreadSymbols, placeFrom, List.cons_append]
      rw [hfirst, htail, map_before_map]
      rfl

/-- In a comment more holes are skipped. -/
theorem scan_spread_of_comment (h : s.mode = .comment) (scope : Scope) (next count place : Nat)
    (rest : List Item) :
    scan scope s (placeFrom place (spreadSymbols next count) ++ rest) = scan scope s rest := by
  induction count generalizing next place with
  | zero => rfl
  | succ count ih =>
      have hblank : s.stepChar scope ' ' place = (s, []) := by simp [Scanner.stepChar, complete?, h]
      have hhole : s.stepHole scope next = (s, []) := by simp [Scanner.stepHole, h]
      simp only [spreadSymbols, placeFrom, List.cons_append]
      rw [scan_char _ _ not_opensBodyAt_blank, hblank, scan_hole, hhole, ih]
      cases scan scope s rest <;> rfl

/-- A space is pushed as text when a body is spliced. -/
theorem Scanner.BehindHole.splice (h : s.BehindHole) (scope : Scope) {separator : Lexeme}
    (hspace : separator.IsSpace) (quoting : Quoting) (enclosing : Enclosing) (next count : Nat) :
    ∃ start, spliceLexemes scope (spreadLexemes separator quoting enclosing next count) s =
      ({ s with start := start }, spreadLexemes
        ⟨.piece ⟨[' '], [], false⟩, scope.quoting s.frames, {}⟩ quoting enclosing next count) := by
  induction count generalizing s next with
  | zero => exact ⟨s.start, rfl⟩
  | succ count ih =>
      have hnext : BehindHole { s with start := scope.quoting s.frames } :=
        ⟨h.mode, h.piece, h.previous⟩
      obtain ⟨start, htail⟩ := ih hnext (next + 1)
      refine ⟨start, ?_⟩
      have hpush : spliceLexemes scope
            (spreadLexemes separator quoting enclosing next (count + 1)) s =
          ((s.push scope [' '] []).emitHole next quoting enclosing).andThen
            (spliceLexemes scope (spreadLexemes separator quoting enclosing (next + 1) count)) := by
        obtain ⟨token, quoting', enclosing'⟩ := separator
        rcases hspace with rfl | ⟨text, rfl⟩ <;> rfl
      have hemit : (s.push scope [' '] []).emitHole next quoting enclosing =
          ({ s with start := scope.quoting s.frames },
            [⟨.piece ⟨[' '], [], false⟩, scope.quoting s.frames, {}⟩,
              ⟨.hole next, quoting, enclosing⟩]) := by
        obtain ⟨hmode, hpiece, hprevious⟩ := h
        obtain ⟨frames, mode, piece, start, previous⟩ := s
        subst hmode hpiece hprevious
        rfl
      rw [hpush, hemit, Step.andThen, htail]
      rfl

end Spreading

/-- The text behind a hole, with more holes before it. -/
def Retelling.behind (hole place count : Nat) : Retelling :=
  .renumbered (fun p ↦ if p ≤ place then p else p + 2 * count)
    (fun i ↦ if i ≤ hole then i else i + count) False

/-- A condition on a hole's context and on what separates the holes behind it. -/
abbrev SeparatorCondition := Quoting → Enclosing → Lexeme → Prop

/-- The lexemes of a text, and those of the text with more holes behind one of its holes. -/
inductive Spread (cond : SeparatorCondition) (hole place count : Nat) :
    List Lexeme → List Lexeme → Prop
  | skipped {lexemes : List Lexeme} (others : hole ∉ holeIndices lexemes) :
      Spread cond hole place count lexemes (lexemes.map (Retelling.behind hole place count).lexeme)
  | spread {before after : List Lexeme} (hbefore : hole ∉ holeIndices before)
      (hafter : hole ∉ holeIndices after) {quoting quoting' : Quoting} {enclosing : Enclosing}
      {separator : Lexeme} (alike : quoting.Alike enclosing quoting')
      (space : separator.IsSpace) (apart : cond quoting enclosing separator) :
      Spread cond hole place count (before ++ ⟨.hole hole, quoting, enclosing⟩ :: after)
        (before.map (Retelling.behind hole place count).lexeme ++
          ⟨.hole hole, quoting, enclosing⟩ ::
            (spreadLexemes separator quoting' enclosing (hole + 1) count ++
              after.map (Retelling.behind hole place count).lexeme))

/-- Both steps completed the same, the second one with more holes behind one of them. -/
structure Scanner.Step.Spread (cond : SeparatorCondition) (hole place count : Nat)
    (step step' : Step) : Prop where
  scanner : step.1.Retold (.behind hole place count) step'.1
  lexemes : ShellTemplate.Spread cond hole place count step.2 step'.2

section Relation

variable {cond : SeparatorCondition} {hole place count : Nat} {lexemes lexemes' : List Lexeme}

theorem Retelling.index_behind : (Retelling.behind hole place count).index hole = hole :=
  if_pos (Nat.le_refl _)

theorem Spread.before (h : Spread cond hole place count lexemes lexemes') {first : List Lexeme}
    (hfirst : hole ∉ holeIndices first) :
    Spread cond hole place count (first ++ lexemes)
      (first.map (Retelling.behind hole place count).lexeme ++ lexemes') := by
  cases h with
  | skipped others =>
      rw [← List.map_append]
      refine .skipped ?_
      rw [holeIndices_append, List.mem_append]
      exact fun hmem ↦ hmem.elim hfirst others
  | @spread before after hbefore hafter q q' e separator alike space apart =>
      rw [← List.append_assoc, ← List.append_assoc, ← List.map_append]
      refine .spread ?_ hafter alike space apart
      rw [holeIndices_append, List.mem_append]
      exact fun hmem ↦ hmem.elim hfirst hbefore

theorem Spread.behind (h : Spread cond hole place count lexemes lexemes') {last : List Lexeme}
    (hlast : hole ∉ holeIndices last) :
    Spread cond hole place count (lexemes ++ last)
      (lexemes' ++ last.map (Retelling.behind hole place count).lexeme) := by
  cases h with
  | skipped others =>
      rw [← List.map_append]
      refine .skipped ?_
      rw [holeIndices_append, List.mem_append]
      exact fun hmem ↦ hmem.elim others hlast
  | @spread before after hbefore hafter q q' e separator alike space apart =>
      rw [List.append_assoc, List.append_assoc, List.cons_append, List.cons_append,
        List.append_assoc, ← List.map_append]
      refine .spread hbefore ?_ alike space apart
      rw [holeIndices_append, List.mem_append]
      exact fun hmem ↦ hmem.elim hafter hlast

variable {scope : Scope} {s t : Scanner}

theorem splice_empty (scope : Scope) (lexemes : List Lexeme) {s : Scanner} (hmode : s.mode = .plain)
    (empty : s.piece.raw = [] → s.piece = {}) :
    (spliceLexemes scope lexemes s).1.piece.raw = [] →
      (spliceLexemes scope lexemes s).1.piece = {} := by
  induction lexemes generalizing s with
  | nil => exact empty
  | cons lexeme rest ih =>
      have hpush : ∀ raw, (s.push scope raw []).piece.raw = [] →
          (s.push scope raw []).piece = {} := by
        intro raw hraw
        obtain ⟨hnil, rfl⟩ := List.append_eq_nil_iff.1 hraw
        simp [push, empty hnil]
      obtain ⟨token, quoting, enclosing⟩ := lexeme
      cases token with
      | piece p => exact ih hmode (hpush _)
      | operator op => exact ih hmode (hpush _)
      | blank => exact ih hmode (hpush _)
      | hole index =>
          have hbehind := emitHole_behindHole hmode empty index quoting enclosing
          exact ih hbehind.mode fun _ ↦ hbehind.piece

theorem not_mem_of_filled (h : Filled lexemes) : hole ∉ holeIndices lexemes := by
  simp [h.holeIndices_eq_nil]

theorem Scanner.Retold.withStart (h : s.Retold (.behind hole place count) t) (hs : s.piece = {})
    (start : Quoting) : s.Retold (.behind hole place count) { t with start := start } :=
  ⟨h.frames, h.mode, h.piece, h.previous, fun hknown ↦
    hknown.elim False.elim fun hraw ↦ absurd (congrArg Piece.raw hs) hraw⟩

/-- A hole of a body, with more holes behind it in the second one. -/
theorem Scanner.Retold.spliceHole (h : s.Retold (.behind hole place count) t)
    (hmode : s.mode = .plain) (empty : s.piece.raw = [] → s.piece = {}) (scope : Scope)
    {quoting quoting' : Quoting} {enclosing : Enclosing} {separator : Lexeme}
    (alike : quoting.Alike enclosing quoting') (space : separator.IsSpace) {after : List Lexeme}
    (hafter : hole ∉ holeIndices after) :
    Scanner.Step.Spread (fun _ _ _ ↦ True) hole place count
      ((s.emitHole hole quoting enclosing).andThen (Scanner.spliceLexemes scope after))
      ((t.emitHole hole quoting enclosing).andThen (Scanner.spliceLexemes scope
        (spreadLexemes separator quoting' enclosing (hole + 1) count ++
          after.map (Retelling.behind hole place count).lexeme))) := by
  have hemit := h.emitHole hole quoting enclosing
  rw [Retelling.index_behind] at hemit
  have hs := emitHole_behindHole hmode empty hole quoting enclosing
  have ht : (t.emitHole hole quoting enclosing).1.BehindHole := by
    refine emitHole_behindHole ?_ (by rwa [h.piece]) hole quoting enclosing
    rw [h.mode, hmode]
    rfl
  obtain ⟨start, hsplice⟩ := ht.splice scope space quoting' enclosing (hole + 1) count
  have hrest : Step.Retold (.behind hole place count)
      (Scanner.spliceLexemes scope after (s.emitHole hole quoting enclosing).1)
      (Scanner.spliceLexemes scope (after.map (Retelling.behind hole place count).lexeme)
        { (t.emitHole hole quoting enclosing).1 with start := start }) :=
    @Retold.spliceLexemes _ scope _ _ after (hemit.scanner.withStart hs.piece start)
  have hflush := h.flush.lexemes
  have hothers : hole ∉ holeIndices
      (Scanner.spliceLexemes scope after (s.emitHole hole quoting enclosing).1).2 := by
    rwa [holeIndices_spliceLexemes]
  refine ⟨?_, ?_⟩
  · rw [Step.andThen_fst, Step.andThen_fst, spliceLexemes_append, Step.andThen_fst, hsplice]
    exact hrest.scanner
  · rw [Step.andThen_snd, Step.andThen_snd, spliceLexemes_append, Step.andThen_snd, hsplice,
      hrest.lexemes, emitHole_lexemes, emitHole_lexemes, hflush, List.append_assoc,
      List.append_assoc]
    exact .spread (not_mem_of_filled .flush) hothers alike (.inr ⟨_, rfl⟩) trivial

/-- A body that is spliced shows more holes behind one of its own. -/
theorem Scanner.Retold.spliceSpread (h : s.Retold (.behind hole place count) t)
    (hmode : s.mode = .plain) (empty : s.piece.raw = [] → s.piece = {})
    (hspread : Spread cond hole place count lexemes lexemes') (scope : Scope) :
    Scanner.Step.Spread (fun _ _ _ ↦ True) hole place count (s.spliceLexemes scope lexemes)
      (t.spliceLexemes scope lexemes') := by
  cases hspread with
  | skipped others =>
      have hstep : Step.Retold (.behind hole place count) (s.spliceLexemes scope lexemes)
          (t.spliceLexemes scope (lexemes.map _)) := @Retold.spliceLexemes _ scope s t lexemes h
      refine ⟨hstep.scanner, ?_⟩
      rw [hstep.lexemes]
      exact .skipped (by rwa [holeIndices_spliceLexemes])
  | @spread before after hbefore hafter q q' e separator alike space apart =>
      have hfirst : Step.Retold (.behind hole place count) (s.spliceLexemes scope before)
          (t.spliceLexemes scope (before.map _)) := @Retold.spliceLexemes _ scope s t before h
      have hhole := hfirst.scanner.spliceHole
        ((spliceLexemes_frames scope before s).2.trans hmode)
        (splice_empty scope before hmode empty) scope alike space hafter
      rw [spliceLexemes_append, spliceLexemes_append]
      refine ⟨hhole.scanner, ?_⟩
      rw [Step.andThen_snd, Step.andThen_snd, hfirst.lexemes]
      exact hhole.lexemes.before (by rwa [holeIndices_spliceLexemes])

end Relation

end ShellTemplate
