import ShellTemplate.Proofs.Exchanged.Holes
import ShellTemplate.Proofs.HoleNumbers
import ShellTemplate.Proofs.Reread.Run

/-!
# The two lines of a whole run

Symbol by symbol and body by body, two lines of one template are read alike, whatever texts stand
in its holes. Both texts of a backtick body can be read by scanners of their own.
-/

namespace ShellTemplate

namespace Scanner

variable {free loose loose' : Prop} {b : Nat} {scope : Scope} {s : Scanner}
  {tokens tokens' : List Token}

theorem Along.settled (h : Along loose b scope s tokens tokens') (hs : s.Sound)
    (hpaired : s.Paired) (hescape : s.mode ≠ .escape) :
    Tied False loose b scope (s.settle scope).1 (tokens ++ (s.settle scope).2.map Lexeme.token)
      (tokens' ++ (s.settle scope).2.map Lexeme.token) := by
  by_cases hcomment : s.mode = .comment
  · have hsettle : s.settle scope = (s, []) := by simp [Scanner.settle, hcomment]
    rw [hsettle, List.map_nil, List.append_nil, List.append_nil]
    exact h.tied.of_same rfl rfl rfl False.elim id
  · have hnone : s.complete? scope ' ' = none := by
      unfold complete?
      split <;> simp_all
    have hsettled := (h.settle hs hpaired hnone).1
    rw [settleBefore_blank] at hsettled
    exact hsettled.of_same rfl rfl rfl False.elim And.left

/-- Where the template ends without an error, both lines have been read outside all constructs. -/
theorem Along.finish (h : Along loose b scope s tokens tokens') (hs : s.Sound)
    (hpaired : s.Paired) {final : List Lexeme} (hfinish : s.finish scope = .ok final) :
    (∃ t t', ReadAlike scope (written b (tokens ++ final.map Lexeme.token))
        (written b (tokens' ++ final.map Lexeme.token)) t t' ∧ t.Bare) ∧
      Ends b scope (written b (tokens ++ final.map Lexeme.token))
        (written b (tokens' ++ final.map Lexeme.token)) := by
  unfold Scanner.finish at hfinish
  split at hfinish
  · cases hfinish
  rename_i hbare
  split_ifs at hfinish with hescape
  cases hfinish
  have hframes : (s.settle scope).1.frames = [] := by
    by_cases hcomment : s.mode = .comment
    · simp [Scanner.settle, hcomment, hbare]
    · exact (settle_settlement hcomment hescape).frames.trans hbare
  have hmode : (s.settle scope).1.mode ≠ .escape := by
    by_cases hcomment : s.mode = .comment
    · simp [Scanner.settle, hcomment]
    · have hsettled := (hs.settlement (@settle_settlement scope s hcomment hescape)).2
      simp [hsettled]
  have htied := h.settled hs hpaired hescape
  have hline : ∀ tokens : List Token,
      written b (tokens ++ ((s.settle scope).andThen flush).2.map Lexeme.token) =
        (s.settle scope).1.decided b (tokens ++ (s.settle scope).2.map Lexeme.token) := by
    intro tokens
    rw [Step.andThen_snd, List.map_append, ← List.append_assoc, written_flush,
      decided_eq_line hmode]
  rw [hline, hline]
  obtain ⟨t, t', hread, hguides⟩ := htied.reads
  exact ⟨⟨t, t', hread, hguides.bare hframes⟩, htied.ends hframes⟩

theorem Bare.exists_finish {t : Scanner} (h : t.Bare) : ∃ final, t.finish scope = .ok final := by
  unfold Scanner.finish
  rw [h.frames]
  exact ⟨_, if_neg h.escape⟩

theorem Guides.readBody {t t' : Scanner} {line line' text text' : List Char}
    {read read' : List Lexeme} (hguides : Guides free loose s t)
    (h : ReadAlike scope line line' t t') (hopen : s.opensBody = true)
    (hscan : scanAll (scope.body s.frames) (charItems text) = .ok read)
    (hscan' : scanAll (scope.body s.frames) (charItems text') = .ok read') :
    ReadToWord scope s.frames (line ++ ('\x60' :: escapeBackticks text ++ ['\x60']))
      (line' ++ ('\x60' :: escapeBackticks text' ++ ['\x60'])) := by
  obtain ⟨hnone, hplain, hu⟩ :=
    @Guides.settle _ _ scope s t '\x60' hguides h.sound (by simp) (by simp)
  have hopened : t.OpensBodyAt scope '\x60' :=
    ⟨hnone, rfl, (opensBody_of_frames hu.frames).trans hopen⟩
  have hopened' := (@Kindred.opensBodyAt_iff _ scope _ _ h.twin.kindred '\x60').2 hopened
  have hscope : t.bodyScope scope = scope.body s.frames := by rw [bodyScope, hu.frames]
  have hreads := Reads.body hopened text
  have hreads' := Reads.body hopened' text'
  rw [hscope, hscan, Except.map] at hreads
  rw [h.twin.kindred.bodyScope, hscope, hscan', Except.map] at hreads'
  have htwin := h.twin.stepBody h.sound hopened (filled_of_scanAll hscan) (filled_of_scanAll hscan')
  obtain ⟨v, hsplice, hgrown⟩ := @spliceBody_filled scope _ _ (filled_of_scanAll hscan) hplain
  have hstep : (t.stepBody scope read).1 = v := by rw [stepBody, Step.andThen_fst, hsplice]
  rw [← hstep] at hgrown
  exact ⟨_, _, h.append hreads hreads' htwin, hgrown.mode, hgrown.frames.trans hu.frames,
    hgrown.previous ▸ hu.previous, hgrown.raw ▸ ⟨'\x60', by simp, rfl⟩⟩

section Body

variable {options : FillOptions} {values values' : List Value} {own own' : List Token}
  {lexemes : List Lexeme} (hholds : HoldTexts values lexemes) (hholds' : HoldTexts values' lexemes)
  (hdeep : Deep (b + 1) lexemes) (hunbare : Unbare lexemes)
include hholds hholds' hdeep hunbare

/-- A body is written with different texts in its holes. -/
theorem Tied.spliceBody (h : Tied free loose b scope s tokens tokens') (hs : s.Sound)
    (hmode : s.mode = .plain) (hopen : s.opensBody = true)
    (hfill : fill options values ((s.spliceBody scope lexemes).2.map (Lexeme.lower b)) = .ok own)
    (hfill' : fill options values' ((s.spliceBody scope lexemes).2.map (Lexeme.lower b)) = .ok own')
    (hread : ∀ inner inner', fill options values (lexemes.map (Lexeme.lower (b + 1))) = .ok inner →
      fill options values' (lexemes.map (Lexeme.lower (b + 1))) = .ok inner' →
      (∃ read, scanAll (scope.body s.frames) (charItems (plainText inner)) = .ok read) ∧
        ∃ read, scanAll (scope.body s.frames) (charItems (plainText inner')) = .ok read) :
    Along loose' b scope (s.spliceBody scope lexemes).1 (tokens ++ own) (tokens' ++ own') := by
  obtain ⟨inner, hinner, hcontinues⟩ :=
    @continues_spliceBody _ scope s tokens _ _ _ lexemes hs hmode hdeep hunbare hholds hfill
  obtain ⟨inner', hinner', hcontinues'⟩ :=
    @continues_spliceBody _ scope s tokens' _ _ _ lexemes hs hmode hdeep hunbare hholds' hfill'
  obtain ⟨⟨read, hscan⟩, read', hscan'⟩ := hread inner inner' hinner hinner'
  obtain ⟨t, t', hlines, hguides⟩ := h.reads
  have hbody := hguides.readBody hlines hopen hscan hscan'
  obtain ⟨hframes, hplain⟩ := spliceBody_frames scope lexemes s
  have hescape : s.mode ≠ .escape := by simp [hmode]
  have hescape' : (s.spliceBody scope lexemes).1.mode ≠ .escape := by simp [hplain, hmode]
  rw [decided_eq_line hescape, decided_eq_line hescape, ← hcontinues.line, ← hcontinues'.line,
    ← decided_eq_line hescape', ← decided_eq_line hescape', ← hframes] at hbody
  refine (ReadToWord.tied hbody fun _ ↦ ⟨'\x60', ?_, ?_, rfl⟩).along fun _ ↦
    tiedDigits_of_notDigits ⟨'\x60', by simp [Scanner.spliceBody, pushSyntax, Scanner.push], rfl⟩
  · rw [decided_eq_line hescape', hcontinues.line]
    simp [List.getLast?_append, List.getLast?_cons]
  · rw [decided_eq_line hescape', hcontinues'.line]
    simp [List.getLast?_append, List.getLast?_cons]

theorem Along.stepBody (h : Along loose b scope s tokens tokens') (hs : s.Sound)
    (hpaired : s.Paired) {c : Char} (hopen : s.OpensBodyAt scope c)
    (hfill : fill options values ((s.stepBody scope lexemes).2.map (Lexeme.lower b)) = .ok own)
    (hfill' : fill options values' ((s.stepBody scope lexemes).2.map (Lexeme.lower b)) = .ok own')
    (hread : ∀ inner inner', fill options values (lexemes.map (Lexeme.lower (b + 1))) = .ok inner →
      fill options values' (lexemes.map (Lexeme.lower (b + 1))) = .ok inner' →
      (∃ read, scanAll (s.bodyScope scope) (charItems (plainText inner)) = .ok read) ∧
        ∃ read, scanAll (s.bodyScope scope) (charItems (plainText inner')) = .ok read) :
    Along loose' b scope (s.stepBody scope lexemes).1 (tokens ++ own) (tokens' ++ own') := by
  obtain ⟨hnone, rfl, hbody⟩ := hopen
  have htied := (h.settle hs hpaired hnone).1
  have hsettlement := settleBefore_settlement hnone
  obtain ⟨hsound, hplain⟩ := hs.settlement hsettlement
  obtain ⟨more, hmore, rfl⟩ := (Filled.settlement hsettlement).fill_front_lower_iff.1 hfill
  obtain ⟨more', hmore', rfl⟩ := (Filled.settlement hsettlement).fill_front_lower_iff.1 hfill'
  rw [Scanner.stepBody, Step.andThen_fst, ← List.append_assoc, ← List.append_assoc]
  exact htied.spliceBody hholds hholds' hdeep hunbare hsound hplain hbody hmore hmore' hread

end Body

theorem along_start (b : Nat) (scope : Scope) : Along loose b scope {} [] [] := by
  have hline : ({} : Scanner).decided b [] = [] := by simp [decided, core]
  have hscan : scanAll scope [] = .ok [] :=
    scanAll_eq_ok_iff.2 ⟨_, [], scan_nil _ _, rfl, rfl⟩
  have htied : Tied True False b scope {} [] [] := by
    constructor
    · rw [hline]
      exact ⟨{}, {}, .nil, guides_of_plain rfl rfl (by simp) (by simp [MidWord, core]) (by simp)⟩
    · intro _
      rw [hline]
      refine ⟨rfl, ?_⟩
      rw [List.rdropWhile_nil, charItems_nil, hscan]
      exact .ok .nil
  exact htied.along_of_empty rfl fun _ ↦ rfl

/-- Lines whose readers are outside all constructs can be read to their ends. -/
theorem Bare.exists_scanAll {line line' : List Char} {t t' : Scanner} (hbare : t.Bare)
    (h : ReadAlike scope line line' t t') :
    (∃ read, scanAll scope (charItems line) = .ok read) ∧
      ∃ read, scanAll scope (charItems line') = .ok read := by
  obtain ⟨final, hfinish⟩ := @Bare.exists_finish scope t hbare
  obtain ⟨final', hfinish', -⟩ := (@Twin.finish scope _ _ h.twin).exists_of_ok hfinish
  obtain ⟨lexemes, lexemes', hreads, hreads', -⟩ := h.reads
  exact ⟨⟨_, scanAll_eq_ok_iff.2 ⟨_, _, hreads.scan_eq, hfinish, rfl⟩⟩,
    ⟨_, scanAll_eq_ok_iff.2 ⟨_, _, hreads'.scan_eq, hfinish', rfl⟩⟩⟩

/-- In a backtick body both texts can be read to their ends where the template ends. -/
theorem Along.exists_scanAll (h : Along loose b scope s tokens tokens') (hs : s.Sound)
    (hpaired : s.Paired) (hb : b ≠ 0) {final : List Lexeme}
    (hfinish : s.finish scope = .ok final) :
    (∃ read, scanAll scope (charItems (plainText (tokens ++ final.map Lexeme.token))) =
        .ok read) ∧
      ∃ read, scanAll scope (charItems (plainText (tokens' ++ final.map Lexeme.token))) =
        .ok read := by
  have hplain : ∀ tokens, written b tokens = plainText tokens := fun tokens ↦ if_neg hb
  obtain ⟨⟨t, t', hread, hbare⟩, -⟩ := h.finish hs hpaired hfinish
  rw [hplain, hplain] at hread
  exact hbare.exists_scanAll hread

end Scanner

open Scanner

/-- A backslash that is taken back before a hole in double quotes stands behind no dollar sign that
would be undecided without it. -/
def Undollared : HoleCondition := fun _ s _ _ ↦
  s.mode = .escape → s.escapedQuoting = .double → ¬ EndsInUnescapedDollar s.core.raw

instance (scope : Scope) (s : Scanner) (index : Nat) (rest : List Item) :
    Decidable (Undollared scope s index rest) :=
  inferInstanceAs (Decidable (_ → _ → _))

/-- Directly behind a hole that holds no text the symbol does not change what the hole has left on
the line. -/
def Symbol.Inert (values : List Value) : Symbol → Prop
  | .char c => c ∉ ['#', '\x7b', '(']
  | .hole index => HoldsText values index

instance (values : List Value) : DecidablePred (Symbol.Inert values) := fun
  | .char c => inferInstanceAs (Decidable (c ∉ _))
  | .hole index => inferInstanceAs (Decidable (HoldsText values index))

/-- A hole that holds no text stands outside all constructs and before an inert symbol, or it is
skipped with a comment. -/
def OthersApart (values : List Value) : HoleCondition := fun scope s index rest ↦
  HoldsText values index ∨ s.mode = .comment ∨
    scope = {} ∧ s.frames = [] ∧ s.mode ≠ .escape ∧
      ∀ item ∈ rest.head?, item.symbol.Inert values

instance (values : List Value) (scope : Scope) (s : Scanner) (index : Nat) (rest : List Item) :
    Decidable (OthersApart values scope s index rest) :=
  decidable_of_iff (HoldsText values index ∨ s.mode = .comment ∨
    scope = {} ∧ s.frames = [] ∧ s.mode ≠ .escape ∧
      (rest.head?.all fun item ↦ item.symbol.Inert values) = true)
    (by cases h : rest.head? <;> simp [OthersApart, h])

variable {options : FillOptions} {values values' : List Value}

/-- In a backtick body only holes that hold texts are reported. -/
theorem Scans.holdsText {cond : HoleCondition} {scope : Scope} {s : Scanner} {items : List Item}
    {out : Step} (h : Scans cond scope s items out)
    (hcond : ∀ scope s index rest, cond scope s index rest → OthersApart values scope s index rest)
    (hscope : scope.backticks ≠ 0) : ∀ index ∈ holeIndices out.2, HoldsText values index := by
  induction h with
  | nil => simp [holeIndices]
  | @hole scope s index place rest after met _ ih =>
      rw [Step.before, holeIndices_append, holeIndices_stepHole, List.forall_mem_append]
      refine ⟨fun i hi ↦ ?_, ih hscope⟩
      split_ifs at hi with hcomment
      · cases hi
      · obtain rfl := List.mem_singleton.1 hi
        rcases hcond _ _ _ _ met with htext | hskipped | ⟨hscope', -⟩
        · exact htext
        · exact absurd hskipped hcomment
        · exact absurd (congrArg Scope.backticks hscope') hscope
  | char closed _ ih =>
      rw [Step.before, holeIndices_append, (Filled.stepChar _ _).holeIndices_eq_nil,
        List.nil_append]
      exact ih hscope
  | body opened _ _ ended _ ihin ih =>
      rw [Step.before, holeIndices_append, holeIndices_stepBody opened, holeIndices_append,
        (Filled.finish ended).holeIndices_eq_nil, List.append_nil, List.forall_mem_append]
      exact ⟨ihin (Nat.succ_ne_zero _), ih hscope⟩

theorem holdTexts_of_holeIndices {lexemes : List Lexeme}
    (h : ∀ index ∈ holeIndices lexemes, HoldsText values index) : HoldTexts values lexemes :=
  fun lexeme hlexeme index hindex ↦
    h index (List.mem_filterMap.2 ⟨lexeme, hlexeme, by rw [hindex]; rfl⟩)

/-- Where a hole that holds no text stands outside all constructs, both lines are read alike behind
it. -/
def OthersAlong (options : FillOptions) (values values' : List Value) : Prop :=
  ∀ {s : Scanner} {index : Nat} {tokens tokens' own own' : List Token}, s.Sound → s.erase = s →
    ¬ HoldsText values index → s.frames = [] → s.mode ≠ .comment → s.mode ≠ .escape →
    Along (s.mode ≠ .plain) 0 {} s tokens tokens' →
    fill options values ((s.stepHole {} index).2.map (Lexeme.lower 0)) = .ok own →
    fill options values' ((s.stepHole {} index).2.map (Lexeme.lower 0)) = .ok own' →
    Along True 0 {} (s.stepHole {} index).1 (tokens ++ own) (tokens' ++ own')

section Run

variable (hholds : ∀ index, HoldsText values index → HoldsText values' index)
  (hothers : OthersAlong options values values')
include hholds hothers

/-- A hole is written on both lines. Behind one that holds no text what comes next is inert. -/
theorem Scanner.Along.hole {scope : Scope} {s : Scanner} {index : Nat} {rest : List Item}
    {tokens tokens' own own' : List Token} {loose : Prop}
    (h : Along loose scope.backticks scope s tokens tokens') (hs : s.Sound) (herase : s.erase = s)
    (hguard : Undollared scope s index rest) (hapart : OthersApart values scope s index rest)
    (hnext : loose → s.mode = .plain → HoldsText values index)
    (hfill : fill options values ((s.stepHole scope index).2.map
      (Lexeme.lower scope.backticks)) = .ok own)
    (hfill' : fill options values' ((s.stepHole scope index).2.map
      (Lexeme.lower scope.backticks)) = .ok own') :
    ∃ loose', Along loose' scope.backticks scope (s.stepHole scope index).1 (tokens ++ own)
        (tokens' ++ own') ∧
      (loose' → (s.stepHole scope index).1.mode = .plain →
        ∀ item ∈ rest.head?, item.symbol.Inert values) := by
  by_cases htext : HoldsText values index
  · exact ⟨_, h.stepHole htext (hholds index htext) hs herase rfl hguard hfill hfill',
      fun hloose hplain ↦ absurd hplain hloose.2⟩
  by_cases hcomment : s.mode = .comment
  · have hskip : s.stepHole scope index = (s, []) := by simp [Scanner.stepHole, hcomment]
    rw [hskip] at hfill hfill' ⊢
    cases hfill
    cases hfill'
    rw [List.append_nil, List.append_nil]
    exact ⟨_, h, fun _ hplain ↦ by simp [hcomment] at hplain⟩
  · obtain ⟨rfl, hframes, hescape, hinert⟩ := (hapart.resolve_left htext).resolve_left hcomment
    -- two such holes never stand side by side
    have hstrict : loose → s.mode ≠ .plain := fun hloose hplain ↦ htext (hnext hloose hplain)
    exact ⟨_, hothers hs herase htext hframes hcomment hescape (h.imp hstrict) hfill hfill',
      fun _ _ ↦ hinert⟩

/-- Along a run of the scanner two lines are read alike. -/
theorem Scans.along {cond : HoleCondition} {scope : Scope} {s : Scanner} {items : List Item}
    {out : Step} (h : Scans cond scope s items out)
    (hcond : ∀ scope s index rest, cond scope s index rest →
      Undollared scope s index rest ∧ OthersApart values scope s index rest)
    (hs : s.Sound) (hpaired : s.Paired) (herase : s.erase = s)
    (hplaces : ∀ item ∈ items, item.place = 0) {loose : Prop}
    (hnext : loose → s.mode = .plain → ∀ item ∈ items.head?, item.symbol.Inert values)
    {tokens tokens' own own' : List Token}
    (halong : Along loose scope.backticks scope s tokens tokens')
    (hfill : fill options values (out.2.map (Lexeme.lower scope.backticks)) = .ok own)
    (hfill' : fill options values' (out.2.map (Lexeme.lower scope.backticks)) = .ok own') :
    Along True scope.backticks scope out.1 (tokens ++ own) (tokens' ++ own') := by
  induction h generalizing loose tokens tokens' own own' with
  | nil =>
      cases hfill
      cases hfill'
      rw [List.append_nil, List.append_nil]
      exact halong.imp fun _ ↦ trivial
  | @hole scope s index place rest after met tail ih =>
      obtain ⟨hguard, hapart⟩ := hcond _ _ _ _ met
      rw [Step.before, List.map_append] at hfill hfill'
      obtain ⟨first, second, hfirst, hsecond, rfl⟩ := fill_append_eq_ok_iff.1 hfill
      obtain ⟨first', second', hfirst', hsecond', rfl⟩ := fill_append_eq_ok_iff.1 hfill'
      obtain ⟨loose', hafter, hinert⟩ := halong.hole hholds hothers hs herase hguard hapart
        (fun hloose hplain ↦ hnext hloose hplain _ rfl) hfirst hfirst'
      have hrest := ih (hs.stepHole index) (hpaired.stepHole index) (erase_stepHole herase index)
        (fun item hitem ↦ hplaces item (List.mem_cons_of_mem _ hitem)) hinert hafter hsecond
        hsecond'
      rwa [List.append_assoc, List.append_assoc] at hrest
  | @char scope s c place rest after closed tail ih =>
      obtain rfl : place = 0 := hplaces _ List.mem_cons_self
      obtain ⟨more, hmore, rfl⟩ := (Filled.stepChar c 0).fill_front_lower_iff.1 hfill
      obtain ⟨more', hmore', rfl⟩ := (Filled.stepChar c 0).fill_front_lower_iff.1 hfill'
      have hafter := halong.stepChar hs hpaired herase closed fun hloose hplain ↦
        hnext hloose hplain _ rfl
      have hrest := ih (hs.stepChar c 0) (hpaired.stepChar hs c 0) (erase_stepChar herase)
        (fun item hitem ↦ hplaces item (List.mem_cons_of_mem _ hitem))
        (fun hloose hplain ↦ absurd hplain hloose.2) hafter hmore hmore'
      rwa [List.append_assoc, List.append_assoc] at hrest
  | @body scope s c place rest body behind inner after final opened cut within ended tail ihin ih =>
      have hplace : ∀ item, item ∈ body ∨ item ∈ behind → item.place = 0 := fun item hitem ↦
        hplaces item (List.mem_cons_of_mem _ (mem_of_cutBody cut hitem))
      have hinside : HoldTexts values (inner.2 ++ final) := by
        refine holdTexts_of_holeIndices ?_
        rw [holeIndices_append, (Filled.finish ended).holeIndices_eq_nil, List.append_nil]
        exact within.holdsText (fun scope s index rest hmet ↦ (hcond scope s index rest hmet).2)
          (Nat.succ_ne_zero _)
      have hinside' : HoldTexts values' (inner.2 ++ final) := fun lexeme hlexeme index hindex ↦
        hholds index (hinside lexeme hlexeme index hindex)
      rw [Step.before, List.map_append] at hfill hfill'
      obtain ⟨first, second, hfirst, hsecond, rfl⟩ := fill_append_eq_ok_iff.1 hfill
      obtain ⟨first', second', hfirst', hsecond', rfl⟩ := fill_append_eq_ok_iff.1 hfill'
      have hafter : Along False scope.backticks scope _ _ _ :=
        halong.stepBody hinside hinside' (within.deep_body ended) (within.unbare_body ended) hs
          hpaired opened hfirst hfirst' fun filled filled' hfilled hfilled' ↦ by
            obtain ⟨before, hbefore, rfl⟩ :=
              (Filled.finish ended).fill_end_lower_iff.1 hfilled
            obtain ⟨before', hbefore', rfl⟩ :=
              (Filled.finish ended).fill_end_lower_iff.1 hfilled'
            have hinner := ihin sound_empty paired_empty rfl
              (fun item hitem ↦ hplace item (.inl hitem)) False.elim (along_start _ _) hbefore
              hbefore'
            exact hinner.exists_scanAll (within.sound sound_empty)
              (within.paired sound_empty paired_empty) (Nat.succ_ne_zero _) ended
      have hrest := ih (hs.stepBody opened _) (paired_stepBody hs opened _)
        (erase_stepBody herase _) (fun item hitem ↦ hplace item (.inr hitem)) False.elim hafter
        hsecond hsecond'
      rwa [List.append_assoc, List.append_assoc] at hrest

end Run

end ShellTemplate
