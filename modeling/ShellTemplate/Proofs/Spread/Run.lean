import ShellTemplate.Proofs.Spread.Steps

/-!
# Scanning a hole and several in its place

Up to the hole both texts are the same, and behind it the second one is the first, told with later
places and higher numbers. A body that is open at the hole is scanned like a text of its own, so the
relation between the lexemes goes from the inside outwards.
-/

namespace ShellTemplate

open Scanner

/-- A hole and more holes in its place, before the text behind it. -/
def spreadItems (hole place count : Nat) (rest : List Item) : List Item :=
  ⟨.hole hole, place⟩ :: (placeFrom (place + 1) (spreadSymbols (hole + 1) count) ++
    rest.map (Retelling.behind hole place count).item)

variable {cond : SeparatorCondition} {hole place count : Nat} {scope : Scope} {s t : Scanner}
  {front rest : List Item}

section Text

theorem openBody_retold (r : Retelling) (items : List Item) :
    openBody (items.map r.item) = (openBody items).map r.item := by
  fun_induction openBody items with
  | case1 => simp [openBody]
  | case2 p c q tail hc ih =>
      simp only [List.map_cons, Retelling.item, Retelling.symbol]
      rw [openBody, if_pos hc, ih]
  | case3 p c q tail hc ih =>
      simp only [List.map_cons, Retelling.item, Retelling.symbol] at ih ⊢
      rw [openBody, if_neg hc, ih]
  | case4 item tail hnot ih =>
      rw [List.map_cons, openBody, ih, List.map_cons]
      intro p c q behind hfirst htail
      obtain ⟨second, rest', rfl, hsecond, -⟩ := List.map_eq_cons_iff.1 htail
      have hitem : item = ⟨.char '\\', item.place⟩ := by
        rw [← r.symbol_eq_char_iff.1 (congrArg Item.symbol hfirst)]
      have hnext : second = ⟨.char c, second.place⟩ := by
        rw [← r.symbol_eq_char_iff.1 (congrArg Item.symbol hsecond)]
      exact hnot _ _ _ rest' hitem (congrArg (· :: rest') hnext)

theorem cutBody_spreadSymbols (next count start : Nat) (rest : List Item) :
    cutBody (placeFrom start (spreadSymbols next count) ++ rest) =
      (cutBody rest).map fun cut ↦
        (placeFrom start (spreadSymbols next count) ++ cut.1, cut.2) := by
  induction count generalizing next start with
  | zero => exact Option.map_id'.symm
  | succ count ih =>
      simp only [spreadSymbols, placeFrom, List.cons_append]
      rw [cutBody, if_neg (by simp), cutBody_hole, ih, Option.map_map, Option.map_map]
      · rfl
      · simp

/-- A body that is open at the hole goes on behind more holes as behind one. -/
theorem cutBody_append_spreadItems (h : cutBody front = none) :
    cutBody (front.map (Retelling.behind hole place count).item ++
        spreadItems hole place count rest) =
      (cutBody rest).map fun cut ↦
        ((openBody front).map (Retelling.behind hole place count).item ++
            spreadItems hole place count cut.1,
          cut.2.map (Retelling.behind hole place count).item) := by
  have hfront : cutBody (front.map (Retelling.behind hole place count).item) = none := by
    rw [cutBody_retold, h]
    rfl
  rw [spreadItems, cutBody_append_hole hfront, cutBody_spreadSymbols, cutBody_retold,
    openBody_retold, Option.map_map, Option.map_map]
  rfl

end Text

section Scan

/-- A text without the hole completes the same lexemes, told as the text behind it. -/
theorem scan_others (h : s.Retold (.behind hole place count) t) (hrest : hole ∉ holesOf rest) :
    SameOutcome (fun after after' ↦
        Step.Retold (.behind hole place count) after after' ∧ hole ∉ holeIndices after.2)
      ((scan scope s rest).mapError (Retelling.behind hole place count).error)
      (scan scope t (rest.map (Retelling.behind hole place count).item)) := by
  have hretold := @scan_retold (.behind hole place count) scope s t rest h
  refine hretold.imp_ok fun after after' hafter hstep ↦ ⟨hstep, fun hmem ↦ hrest ?_⟩
  exact (scans_of_scan (mapError_eq_ok_iff.1 hafter)).holeIndices_sublist.subset hmem

theorem scanAll_others (hrest : hole ∉ holesOf rest) :
    SameOutcome (fun lexemes lexemes' ↦
        lexemes' = lexemes.map (Retelling.behind hole place count).lexeme ∧
          hole ∉ holeIndices lexemes)
      ((scanAll scope rest).mapError (Retelling.behind hole place count).error)
      (scanAll scope (rest.map (Retelling.behind hole place count).item)) := by
  have hretold : scanAll scope (rest.map (Retelling.behind hole place count).item) = _ :=
    scanAll_retold (.behind hole place count) scope rest
  rw [hretold]
  cases hscan : scanAll scope rest with
  | error e => exact .error _
  | ok lexemes =>
      exact .ok ⟨rfl, fun hmem ↦ hrest ((holeIndices_sublist_of_scanAll hscan).subset hmem)⟩

theorem Scanner.Retold.behindHole (h : s.Retold (.behind hole place count) t)
    (hs : s.BehindHole) : t.BehindHole where
  mode := by rw [h.mode, hs.mode]; rfl
  piece := h.piece.trans hs.piece
  previous := h.previous.trans hs.previous

theorem Scope.separator_moved (scope : Scope) (place : Nat → Nat) (frames : List Frame) :
    scope.separator (frames.map (Frame.moved place)) = scope.separator frames := by
  simp [Scope.separator]

/-- From here on both texts are scanned in the same way up to the hole, and more holes in its place
complete more lexemes. -/
def ScansSpread (cond : SeparatorCondition) (hole place count : Nat) (scope : Scope)
    (s t : Scanner) (front rest : List Item) : Prop :=
  SameOutcome (Step.Spread cond hole place count)
    ((scan scope s (front ++ ⟨.hole hole, place⟩ :: rest)).mapError
      (Retelling.behind hole place count).error)
    (scan scope t (front.map (Retelling.behind hole place count).item ++
      spreadItems hole place count rest))

/-- What more holes complete before the text behind them is scanned. -/
theorem Scanner.Retold.scan_spreadItems (hs : s.Sound)
    (h : s.Retold (.behind hole place count) t) (hcomment : s.mode ≠ .comment) (scope : Scope)
    (rest : List Item) : ∃ pending quoting t', Filled pending ∧
      quoting.Alike (scope.enclosing s.frames) (scope.quoting s.frames) ∧
      (s.stepHole scope hole).2 = pending ++ [⟨.hole hole, quoting, scope.enclosing s.frames⟩] ∧
      (s.stepHole scope hole).1.Retold (.behind hole place count) t' ∧
      scan scope t (spreadItems hole place count rest) =
        (scan scope t' (rest.map (Retelling.behind hole place count).item)).map (Step.before
          (t', pending.map (Retelling.behind hole place count).lexeme ++
            ⟨.hole hole, quoting, scope.enclosing s.frames⟩ ::
              spreadLexemes (scope.separator s.frames) (scope.quoting s.frames)
                (scope.enclosing s.frames) (hole + 1) count)) := by
  have hindex := @Retelling.index_behind hole place count
  have hstep : Step.Retold (.behind hole place count) (s.stepHole scope hole)
      (t.stepHole scope ((Retelling.behind hole place count).index hole)) :=
    @Retold.stepHole _ scope s t h hole
  rw [hindex] at hstep
  obtain ⟨pending, quoting, hpending, alike, hlexemes⟩ :=
    hs.exists_stepHole_lexemes hcomment scope hole
  obtain ⟨hbehind, hframes⟩ := hs.stepHole_behindHole hcomment scope hole
  have hframes' : (t.stepHole scope hole).1.frames = s.frames.map (Frame.moved _) :=
    hstep.scanner.frames.trans (congrArg _ hframes)
  obtain ⟨start, hspread⟩ := (hstep.scanner.behindHole hbehind).scan_spread scope (hole + 1) count
    (place + 1) (rest.map (Retelling.behind hole place count).item)
  refine ⟨pending, quoting, _, hpending, alike, hlexemes,
    hstep.scanner.withStart hbehind.piece start, ?_⟩
  rw [spreadItems, scan_hole, hspread, map_before_map, Step.before, hstep.lexemes, hlexemes]
  simp only [hframes', Scope.separator_moved, Scope.quoting_moved, Scope.enclosing_moved,
    List.map_append, List.map_cons, Retelling.lexeme, hindex, List.append_assoc]
  rfl

/-- At the hole, more holes complete their own lexemes with a separator before each. -/
theorem scansSpread_nil (hs : s.Sound) (h : s.Retold (.behind hole place count) t)
    (hcond : ∀ quoting : Quoting,
      quoting.Alike (scope.enclosing s.frames) (scope.quoting s.frames) →
        cond quoting (scope.enclosing s.frames) (scope.separator s.frames))
    (hrest : hole ∉ holesOf rest) : ScansSpread cond hole place count scope s t [] rest := by
  change SameOutcome _ ((scan scope s (⟨.hole hole, place⟩ :: rest)).mapError _)
    (scan scope t (spreadItems hole place count rest))
  rw [scan_hole, mapError_map]
  by_cases hcomment : s.mode = .comment
  -- A comment skips the hole and all that stand in its place.
  · have hskip : s.stepHole scope hole = (s, []) := by simp [Scanner.stepHole, hcomment]
    have hskip' : t.stepHole scope hole = (t, []) := by
      simp [Scanner.stepHole, h.mode, hcomment, Mode.moved]
    rw [spreadItems, scan_hole, hskip, hskip',
      scan_spread_of_comment (by rw [h.mode, hcomment]; rfl)]
    refine (scan_others h hrest).map ?_
    rintro after after' ⟨hafter, hothers⟩
    refine ⟨hafter.scanner, ?_⟩
    change Spread _ _ _ _ after.2 after'.2
    rw [hafter.lexemes]
    exact .skipped hothers
  · obtain ⟨pending, quoting, t', hpending, alike, hlexemes, hretold, hscan⟩ :=
      h.scan_spreadItems hs hcomment scope rest
    rw [hscan]
    refine (scan_others hretold hrest).map ?_
    rintro after after' ⟨hafter, hothers⟩
    refine ⟨hafter.scanner, ?_⟩
    change Spread _ _ _ _ ((s.stepHole scope hole).2 ++ after.2) (_ ++ after'.2)
    rw [hlexemes, hafter.lexemes, List.append_assoc, List.append_assoc, List.cons_append]
    exact .spread (not_mem_of_filled hpending) hothers alike (scope.isSpace_separator _)
      (hcond _ alike)

theorem Scanner.Step.Spread.after {step step' after after' : Step}
    (h : Step.Spread cond hole place count after after')
    (hstep : Step.Retold (.behind hole place count) step step')
    (hothers : hole ∉ holeIndices step.2) :
    Step.Spread cond hole place count (step.before after) (step'.before after') where
  scanner := h.scanner
  lexemes := by
    change ShellTemplate.Spread _ _ _ _ (step.2 ++ after.2) (step'.2 ++ after'.2)
    rw [hstep.lexemes]
    exact h.lexemes.before hothers

theorem Scanner.Step.Spread.before {step step' after after' : Step}
    (h : Step.Spread cond hole place count step step')
    (hafter : Step.Retold (.behind hole place count) after after')
    (hothers : hole ∉ holeIndices after.2) :
    Step.Spread cond hole place count (step.before after) (step'.before after') where
  scanner := hafter.scanner
  lexemes := by
    change ShellTemplate.Spread _ _ _ _ (step.2 ++ after.2) (step'.2 ++ after'.2)
    rw [hafter.lexemes]
    exact h.lexemes.behind hothers

/-- A substitution whose body shows more holes. -/
theorem Scanner.Retold.stepBodySpread (hs : s.Sound) (h : s.Retold (.behind hole place count) t)
    {c : Char} (hopen : s.OpensBodyAt scope c) {lexemes lexemes' : List Lexeme}
    (hspread : Spread cond hole place count lexemes lexemes') :
    Step.Spread (fun _ _ _ ↦ True) hole place count (s.stepBody scope lexemes)
      (t.stepBody scope lexemes') := by
  obtain ⟨hnone, rfl, -⟩ := hopen
  have hsettle := settleBefore_settlement hnone
  have hplain := (hs.settlement hsettle).2
  have hsettled : Step.Retold (.behind hole place count) (s.settleBefore scope '\x60')
      (t.settleBefore scope '\x60') := @Retold.settleBefore _ scope s t h '\x60'
  have hopened := (@Retold.pushSyntax _ scope _ _ hsettled.scanner '\x60').markExpands
  have hraw :
      ((s.settleBefore scope '\x60').1.pushSyntax scope '\x60').markExpands.piece.raw ≠ [] := by
    simp [Scanner.markExpands, Scanner.pushSyntax, Scanner.push]
  have hinner := hopened.spliceSpread hplain (fun hnil ↦ absurd hnil hraw) hspread scope
  have hclosed := @Retold.pushSyntax _ scope _ _ hinner.scanner '\x60'
  exact (hinner.before hclosed.silent (by simp [holeIndices])).after hsettled
    (not_mem_of_filled (.settlement hsettle))

theorem scanAll_spread_of_scan {items items' : List Item}
    (h : SameOutcome (Step.Spread cond hole place count)
      ((scan scope {} items).mapError (Retelling.behind hole place count).error)
      (scan scope {} items')) :
    SameOutcome (Spread cond hole place count)
      ((scanAll scope items).mapError (Retelling.behind hole place count).error)
      (scanAll scope items') := by
  unfold scanAll
  generalize scan scope {} items = first at h
  generalize scan scope {} items' = second at h
  cases first with
  | error e => cases h; exact .error _
  | ok out =>
      cases h with
      | @ok _ out' hout =>
          have hfinish : out'.1.finish scope = _ := @Retold.finish _ scope out.1 _ hout.scanner
          change SameOutcome _ ((out.1.finish scope >>= _).mapError _) (out'.1.finish scope >>= _)
          rw [hfinish]
          cases hend : out.1.finish scope with
          | error e => exact .error _
          | ok final => exact .ok (hout.lexemes.behind (not_mem_of_filled (.finish hend)))

/-- A body that is closed before the hole is a step. -/
theorem scansSpread_closed (h : s.Retold (.behind hole place count) t) {c : Char} {place' : Nat}
    {body behind : List Item} (hopen : s.OpensBodyAt scope c)
    (hcut : cutBody front = some (body, behind)) (hbody : hole ∉ holesOf body)
    (hnext : ∀ lexemes t', (s.stepBody scope lexemes).1.Retold (.behind hole place count) t' →
      ScansSpread cond hole place count scope (s.stepBody scope lexemes).1 t' behind rest) :
    ScansSpread cond hole place count scope s t (⟨.char c, place'⟩ :: front) rest := by
  have hopen' : t.OpensBodyAt scope c := (@Retold.opensBodyAt_iff _ scope s t h c).2 hopen
  have hscope : t.bodyScope scope = s.bodyScope scope := @Retold.bodyScope _ scope s t h
  have hcut' := cutBody_retold (.behind hole place count) front
  rw [hcut] at hcut'
  simp only [ScansSpread, List.cons_append, List.map_cons, Retelling.item, Retelling.symbol]
  rw [scan_body _ _ hopen (cutBody_append hcut _),
    scan_body _ _ hopen' (cutBody_append hcut' _), hscope, mapError_bind]
  refine (scanAll_others hbody).bind ?_
  rintro lexemes lexemes' ⟨rfl, hothers⟩
  have hstep : Step.Retold (.behind hole place count) (s.stepBody scope lexemes)
      (t.stepBody scope (lexemes.map (Retelling.behind hole place count).lexeme)) :=
    @Retold.stepBody _ scope s t h lexemes
  rw [mapError_map]
  exact (hnext lexemes _ hstep.scanner).map fun _ _ hafter ↦
    hafter.after hstep (by rwa [holeIndices_stepBody hopen])

/-- The body that is open at the hole ends behind it, and shows more holes as its text does. -/
theorem scansSpread_opened (hs : s.Sound) (h : s.Retold (.behind hole place count) t) {c : Char}
    {place' : Nat} (hopen : s.OpensBodyAt scope c) (hcut : cutBody front = none)
    (hrest : hole ∉ holesOf rest)
    (hbody : ∀ body, hole ∉ holesOf body → ScansSpread (fun _ _ _ ↦ True) hole place count
      (s.bodyScope scope) {} {} (openBody front) body) :
    ScansSpread (fun _ _ _ ↦ True) hole place count scope s t (⟨.char c, place'⟩ :: front)
      rest := by
  have hopen' : t.OpensBodyAt scope c := (@Retold.opensBodyAt_iff _ scope s t h c).2 hopen
  have hscope : t.bodyScope scope = s.bodyScope scope := @Retold.bodyScope _ scope s t h
  have hcut₁ := cutBody_append_hole hcut hole place rest
  have hcut₂ := @cutBody_append_spreadItems hole place count front rest hcut
  simp only [ScansSpread, List.cons_append, List.map_cons, Retelling.item, Retelling.symbol]
  cases hcutRest : cutBody rest with
  | none =>
      rw [hcutRest] at hcut₁ hcut₂
      rw [scan_open _ _ hopen hcut₁, scan_open _ _ hopen' hcut₂, hscope]
      exact .error _
  | some cut =>
      obtain ⟨body, behind⟩ := cut
      rw [hcutRest] at hcut₁ hcut₂
      have hholes : hole ∉ holesOf body ++ holesOf behind := (holesOf_cutBody hcutRest).symm ▸ hrest
      rw [List.mem_append, not_or] at hholes
      have hinner := scanAll_spread_of_scan (hbody body hholes.1)
      rw [scan_body _ _ hopen hcut₁, scan_body _ _ hopen' hcut₂, hscope, mapError_bind]
      refine hinner.bind fun lexemes lexemes' hspread ↦ ?_
      have hstep := h.stepBodySpread hs hopen hspread
      rw [mapError_map]
      exact (scan_others hstep.scanner hholes.2).map fun _ _ hafter ↦
        hstep.before hafter.1 hafter.2

/-- The texts up to a hole are the same, and the one with more holes completes more lexemes. -/
theorem scansSpread_of_front (hs : s.Sound) (h : s.Retold (.behind hole place count) t)
    (hfront : hole ∉ holesOf front) (hrest : hole ∉ holesOf rest) :
    ScansSpread (fun _ _ _ ↦ True) hole place count scope s t front rest := by
  induction scope, s, front using front_induction generalizing t rest with
  | nil scope s => exact scansSpread_nil hs h (fun _ _ ↦ trivial) hrest
  | hole scope s index place' front ih =>
      have hstep : Step.Retold (.behind hole place count) (s.stepHole scope index)
          (t.stepHole scope ((Retelling.behind hole place count).index index)) :=
        @Retold.stepHole _ scope s t h index
      have hne : hole ≠ index ∧ hole ∉ holesOf front := by
        simpa [holesOf, Symbol.hole?] using hfront
      have hothers : hole ∉ holeIndices (s.stepHole scope index).2 := by
        rw [holeIndices_stepHole]
        split_ifs <;> simp [hne.1]
      simp only [ScansSpread, List.cons_append, List.map_cons, Retelling.item, Retelling.symbol]
      rw [scan_hole, scan_hole, mapError_map]
      exact (ih (hs.stepHole index) hstep.scanner hne.2 hrest).map fun _ _ hafter ↦
        hafter.after hstep hothers
  | char scope s c place' front hclosed ih =>
      have hstep : Step.Retold (.behind hole place count) (s.stepChar scope c place')
          (t.stepChar scope c ((Retelling.behind hole place count).place place')) :=
        @Retold.stepChar _ scope s t h c place'
      have hclosed' : ¬ t.OpensBodyAt scope c := fun hopen ↦
        hclosed ((@Retold.opensBodyAt_iff _ scope s t h c).1 hopen)
      simp only [ScansSpread, List.cons_append, List.map_cons, Retelling.item, Retelling.symbol]
      rw [scan_char _ _ hclosed, scan_char _ _ hclosed', mapError_map]
      exact (ih (hs.stepChar c place') hstep.scanner hfront hrest).map fun _ _ hafter ↦
        hafter.after hstep (not_mem_of_filled (.stepChar c place'))
  | closed scope s c place' front body behind hopen hcut ih =>
      have hholes : hole ∉ holesOf body ++ holesOf behind := (holesOf_cutBody hcut).symm ▸ hfront
      rw [List.mem_append, not_or] at hholes
      exact scansSpread_closed h hopen hcut hholes.1 fun lexemes t' ht' ↦
        ih lexemes (hs.stepBody hopen lexemes) ht' hholes.2 hrest
  | opened scope s c place' front hopen hcut ih =>
      exact scansSpread_opened hs h hopen hcut hrest fun body hbody ↦
        ih sound_empty retold_empty (by rwa [holesOf_openBody]) hbody

/-- What is asked of the words of a list that stands outside all substitutions: a blank is between
them unless no list is accepted there. -/
def apartUnlessRefused : SeparatorCondition := fun quoting enclosing separator ↦
  separator.token = .blank ∨ enclosing.parameter = true ∨ quoting.isQuoted = true

theorem apartUnlessRefused_of_outside {frames : List Frame}
    (hframes : ∀ frame ∈ frames, frame.isSubstitution = false) {quoting : Quoting}
    (alike : quoting.Alike (scope.enclosing frames) (scope.quoting frames)) :
    apartUnlessRefused quoting (scope.enclosing frames) (scope.separator frames) := by
  cases frames with
  | nil => exact .inl rfl
  | cons frame outer =>
      cases frame with
      | substitution => exact absurd (hframes _ List.mem_cons_self) (by simp [Frame.isSubstitution])
      | parameter => exact .inr (.inl rfl)
      | single | double =>
          refine .inr (.inr ?_)
          obtain rfl | ⟨-, hquoting, -⟩ := alike
          · rfl
          · cases hquoting

/-- Behind a text that leaves no substitution open, blanks separate the words of a list. -/
theorem scansSpread_of_outside {out : Step} (hfront : scan scope {} front = .ok out)
    (hframes : ∀ frame ∈ out.1.frames, frame.isSubstitution = false)
    (hrest : hole ∉ holesOf rest) (hothers : hole ∉ holesOf front) :
    ScansSpread apartUnlessRefused hole place count scope {} {} front rest := by
  have hretold := @scan_others hole place count scope {} {} front retold_empty hothers
  rw [hfront] at hretold
  obtain ⟨out', hfront', hout, hholes⟩ := hretold.exists_of_ok rfl
  have hsound := (scans_of_scan hfront).sound sound_empty
  have hhole : ScansSpread apartUnlessRefused hole place count scope out.1 out'.1 [] rest :=
    scansSpread_nil hsound hout.scanner (fun _ ↦ apartUnlessRefused_of_outside hframes) hrest
  rw [ScansSpread, scan_append hfront, scan_append hfront', mapError_map]
  exact SameOutcome.map hhole fun _ _ hafter ↦ hafter.after hout hholes

end Scan

end ShellTemplate
