import ShellTemplate.Proofs.Lexeme.Holes
import ShellTemplate.Proofs.Lexeme.Reads

/-!
# Where an unterminated construct begins

An item keeps its place when a body is cut off around it, so that a construct that is left open is
reported with the place of its opener in the whole template, however deep it lies. That it is the
opener is said by cutting the text: right behind it, the text or body in which it stands fails with
the same error already.
-/

namespace ShellTemplate

open Scanner

/-- A construct with this context inside begins at a place of the text. -/
def Quoting.BeginsAt (symbols : List Symbol) (place : Nat) : Quoting → Prop
  | .single => symbols[place]? = some (.char '\'')
  | .double => symbols[place]? = some (.char '"')
  | .parameter =>
    symbols[place]? = some (.char '$') ∧ symbols[place + 1]? = some (.char '\x7b')
  | .substitution _ => symbols[place]? = some (.char '\x60') ∨
    symbols[place]? = some (.char '$') ∧ symbols[place + 1]? = some (.char '(')
  | .bare | .escaped => False

theorem Quoting.BeginsAt.lt_length {symbols : List Symbol} {place : Nat} {quoting : Quoting}
    (h : quoting.BeginsAt symbols place) : place < symbols.length := by
  have hsome : ∀ {symbol : Symbol}, symbols[place]? = some symbol → place < symbols.length :=
    fun hplace ↦ (List.getElem?_eq_some_iff.1 hplace).1
  cases quoting with
  | bare | escaped => exact h.elim
  | single | double => exact hsome h
  | parameter => exact hsome h.1
  | substitution depth => exact h.elim hsome fun h ↦ hsome h.1

/-- The text ends in what opens a construct with this context inside. -/
def Quoting.OpensEnd (text : List Item) (place : Nat) : Quoting → Prop
  | .single => [⟨.char '\'', place⟩] <:+ text
  | .double => [⟨.char '"', place⟩] <:+ text
  | .parameter => [⟨.char '$', place⟩, ⟨.char '\x7b', place + 1⟩] <:+ text
  | .substitution _ => [⟨.char '\x60', place⟩] <:+ text ∨
    [⟨.char '$', place⟩, ⟨.char '(', place + 1⟩] <:+ text
  | .bare | .escaped => False

/-- The texts that are scanned for a template: its own, and the bodies that open in one of them. -/
inductive Template.Scanned (t : Template) : Scope → List Item → Prop
  | whole : Scanned t {} t.items
  | body {scope : Scope} {before rest body behind : List Item} {c : Char} {place : Nat} {out : Step}
      (outer : Scanned t scope (before ++ ⟨.char c, place⟩ :: rest))
      (read : scan scope {} before = .ok out) (opened : out.1.OpensBodyAt scope c)
      (cut : cutBody rest = some (body, behind)) : Scanned t (out.1.bodyScope scope) body

/-- A text that is scanned is unterminated, and so it is where it is cut off right behind the opener
of the construct. -/
def Template.OpenedAt (t : Template) (quoting : Quoting) (place : Nat) : Prop :=
  ∃ scope text behind, t.Scanned scope (text ++ behind) ∧ quoting.OpensEnd text place ∧
    scanAll scope text = .error (.unterminated quoting place) ∧
    scanAll scope (text ++ behind) = .error (.unterminated quoting place)

section Located

/-- A brace or a parenthesis stands directly behind the item before it. -/
def Item.Adjoins (first next : Item) : Prop :=
  next.symbol = .char '\x7b' ∨ next.symbol = .char '(' → next.place = first.place + 1

/-- Items of a text, each at its place there. -/
structure Located (symbols : List Symbol) (items : List Item) : Prop where
  there : ∀ item ∈ items, symbols[item.place]? = some item.symbol
  adjoining : items.IsChain Item.Adjoins

variable {symbols : List Symbol} {items body behind : List Item} {item : Item}

theorem Located.of_infix (h : Located symbols items) (hbody : body <:+: items) :
    Located symbols body where
  there := fun other hother ↦ h.there other (hbody.subset hother)
  adjoining := List.IsChain.infix h.adjoining hbody

/-- No special character of a body comes to stand next to a brace or a parenthesis. -/
theorem Located.cutBody (h : Located symbols (item :: items))
    (hcut : cutBody items = some (body, behind)) : Located symbols body := by
  have hspecial : ∀ first next : Item, (∃ c ∈ ['\\', '\x60', '$'], next.symbol = .char c) →
      first.Adjoins next := by
    rintro first next ⟨c, hc, hnext⟩ (hbrace | hbrace) <;>
      · obtain rfl : c = _ := Symbol.char.inj (hnext.symm.trans hbrace)
        exact absurd hc (by decide)
  exact ⟨fun other hother ↦
      h.there other (List.mem_cons_of_mem _ (mem_of_cutBody hcut (.inl hother))),
    (isChain_of_cutBody hspecial h.adjoining hcut).1.tail⟩

theorem located_placeFrom (before symbols : List Symbol) :
    Located (before ++ symbols) (placeFrom before.length symbols) := by
  induction symbols generalizing before with
  | nil => exact ⟨by simp [placeFrom], .nil⟩
  | cons symbol rest ih =>
      have hrest := ih (before ++ [symbol])
      rw [List.append_assoc, List.singleton_append, List.length_append, List.length_singleton]
        at hrest
      refine ⟨List.forall_mem_cons.2 ⟨by simp, hrest.there⟩,
        List.isChain_cons.2 ⟨fun next hnext _ ↦ ?_, hrest.adjoining⟩⟩
      cases rest with
      | nil => cases hnext
      | cons => cases hnext; rfl

theorem Template.Scanned.located {t : Template} {scope : Scope} (h : t.Scanned scope items) :
    Located t.symbols items := by
  induction h with
  | whole => exact located_placeFrom [] t.symbols
  | body _ _ _ cut ih => exact (ih.of_infix (List.suffix_append _ _).isInfix).cutBody cut

theorem Quoting.OpensEnd.beginsAt {text : List Item} {place : Nat} {quoting : Quoting}
    (h : quoting.OpensEnd text place) (hlocated : Located symbols text) :
    quoting.BeginsAt symbols place := by
  have hone : ∀ {c}, [⟨.char c, place⟩] <:+ text → symbols[place]? = some (.char c) :=
    fun hsuffix ↦ hlocated.there _ (hsuffix.subset List.mem_cons_self)
  have htwo : ∀ {c d}, [⟨.char c, place⟩, ⟨.char d, place + 1⟩] <:+ text →
      symbols[place]? = some (.char c) ∧ symbols[place + 1]? = some (.char d) :=
    fun hsuffix ↦ ⟨hlocated.there _ (hsuffix.subset List.mem_cons_self),
      hlocated.there _ (hsuffix.subset (List.mem_cons_of_mem _ List.mem_cons_self))⟩
  cases quoting with
  | bare | escaped => exact h.elim
  | single | double => exact hone h
  | parameter => exact htwo h
  | substitution depth => exact h.imp hone htwo

end Located

/-- Part of what has been read ends in the opener of the construct, and is unterminated for it. -/
def OpenedBy (scope : Scope) (read : List Item) (quoting : Quoting) (place : Nat) : Prop :=
  ∃ text, text <+: read ∧ quoting.OpensEnd text place ∧
    scanAll scope text = .error (.unterminated quoting place)

/-- The scanner has read these items: every open construct has been opened at its place, and the
dollar sign that may begin an expansion is the last item. -/
structure Scanner.HasRead (scope : Scope) (read : List Item) (s : Scanner) : Prop where
  scanned : ∃ lexemes, scan scope {} read = .ok (s, lexemes)
  frames : ∀ frame outer, frame :: outer <:+ s.frames →
    OpenedBy scope read (scope.quoting (frame :: outer)) frame.opened
  dollar : ∀ place, s.mode = .dollar place → [⟨.char '$', place⟩] <:+ read

/-- What a step does to the open constructs, with the text up to there. -/
inductive Framed (scope : Scope) (text : List Item) (frames : List Frame) : List Frame → Prop
  | kept : Framed scope text frames frames
  | left : Framed scope text frames frames.tail
  | entered (frame : Frame)
      (h : (scope.quoting (frame :: frames)).OpensEnd text frame.opened) :
      Framed scope text frames (frame :: frames)
  | nested {place parens parens' : Nat} {outer : List Frame}
      (h : frames = .substitution place parens :: outer) :
      Framed scope text frames (.substitution place parens' :: outer)

namespace Scanner

variable {scope : Scope} {s : Scanner} {read more rest : List Item} {c : Char} {place : Nat}

theorem HasRead.sound (h : HasRead scope read s) : s.Sound := by
  obtain ⟨lexemes, hscan⟩ := h.scanned
  exact (scans_of_scan hscan).sound sound_empty

theorem HasRead.empty : HasRead scope [] {} :=
  ⟨⟨[], scan_nil _ _⟩, by simp, by simp⟩

/-- Reading on keeps what is known of the constructs that stay open. -/
theorem HasRead.extend (h : HasRead scope read s) {t : Scanner} {lexemes : List Lexeme}
    (hscan : scan scope s more = .ok (t, lexemes))
    (hframed : Framed scope (read ++ more) s.frames t.frames)
    (hdollar : ∀ place, t.mode = .dollar place → [⟨.char '$', place⟩] <:+ read ++ more) :
    HasRead scope (read ++ more) t := by
  obtain ⟨first, hread⟩ := h.scanned
  have hall : scan scope {} (read ++ more) = .ok (t, first ++ lexemes) := by
    rw [scan_append hread, hscan]
    rfl
  have hold : ∀ frame outer, frame :: outer <:+ s.frames →
      OpenedBy scope (read ++ more) (scope.quoting (frame :: outer)) frame.opened := by
    intro frame outer hsuffix
    obtain ⟨text, hprefix, hopens, herror⟩ := h.frames frame outer hsuffix
    exact ⟨text, hprefix.trans (List.prefix_append _ _), hopens, herror⟩
  refine ⟨⟨_, hall⟩, fun frame outer hsuffix ↦ ?_, hdollar⟩
  generalize hframes : t.frames = frames at hframed hsuffix
  cases hframed with
  | kept => exact hold frame outer hsuffix
  | left => exact hold frame outer (hsuffix.trans (List.tail_suffix _))
  | entered frame' hopens =>
      rcases List.suffix_cons_iff.1 hsuffix with heq | hsuffix
      · cases heq
        refine ⟨read ++ more, List.prefix_rfl, hopens, ?_⟩
        rw [scanAll, hall]
        simp only [bind, Except.bind, finish, hframes]
      · exact hold frame outer hsuffix
  | @nested opened parens parens' outer' hnested =>
      rcases List.suffix_cons_iff.1 hsuffix with heq | hsuffix
      · cases heq
        exact hold (.substitution opened parens) outer (hnested ▸ List.suffix_rfl)
      · exact hold frame outer (hnested ▸ hsuffix.trans (List.suffix_cons _ _))

/-- What a quote opens. -/
theorem framed_quote {frame : Frame} (hframe : QuoteFrame c frame) (hplace : frame.opened = place) :
    Framed scope (read ++ [⟨.char c, place⟩]) s.frames (frame :: s.frames) := by
  have hsuffix : [⟨.char c, frame.opened⟩] <:+ read ++ [⟨.char c, place⟩] :=
    hplace ▸ List.suffix_append _ _
  refine .entered frame ?_
  rcases hframe with ⟨rfl, p, rfl⟩ | ⟨rfl, p, rfl⟩ <;> exact hsuffix

/-- With nothing undecided, a construct is opened by the character that is read. -/
theorem framed_move {step : Step} (hmove : Move scope place c s step) :
    Framed scope (read ++ [⟨.char c, place⟩]) s.frames step.1.frames := by
  cases hmove with
  | blank => exact (emitBlank_frames s).1 ▸ .kept
  | operator _ op => exact (emitOperator_frames op s).1 ▸ .kept
  | angle _ mode => exact (readAngle_frames mode s).1 ▸ .kept
  | comment | begin | keep | glob | backslash | dollar => exact .kept
  | openQuote _ frame hframe hplace => exact framed_quote hframe hplace
  | openInner _ _ _ _ frame hframe hplace => exact framed_quote hframe hplace
  | closeQuote | closeExpansion => exact .left
  | nest opened parens parens' outer hframes =>
      have hnested : (s.leave.enter (.substitution opened parens')).frames =
          .substitution opened parens' :: outer := by
        simp [leave, enter, hframes]
      exact hnested ▸ .nested hframes

theorem dollar_of_move {step : Step} (hmode : s.mode = .plain) (hmove : Move scope place c s step)
    {opened : Nat} (hdollar : step.1.mode = .dollar opened) : c = '$' ∧ place = opened := by
  have hplain : s.mode ≠ .dollar opened := by simp [hmode]
  cases hmove with
  | blank => exact absurd ((emitBlank_frames s).2.symm.trans hdollar) hplain
  | operator _ op => exact absurd ((emitOperator_frames op s).2.symm.trans hdollar) hplain
  | angle _ mode hangle =>
      obtain ⟨-, fd, hfd⟩ := readAngle_frames mode s
      rcases hangle with ⟨-, rfl⟩ | ⟨-, rfl⟩ <;> exact Mode.noConfusion (hfd.symm.trans hdollar)
  | begin _ mode hbegin =>
      rcases hbegin with ⟨-, rfl⟩ | ⟨-, rfl⟩ <;> exact Mode.noConfusion hdollar
  | comment | backslash => exact Mode.noConfusion hdollar
  | keep | glob | openQuote | closeQuote | openInner | closeExpansion | nest =>
      exact absurd hdollar hplain
  | dollar _ hc => exact ⟨hc, Mode.dollar.inj hdollar⟩

/-- A character that completes what stands before it opens the expansion whose dollar sign that
is. -/
theorem HasRead.framed_completion (h : HasRead scope read s)
    (hadjoins : ∀ opened, [⟨.char '$', opened⟩] <:+ read → c = '\x7b' ∨ c = '(' →
      place = opened + 1) {step : Step} (hstep : Completion scope c s step) :
    Framed scope (read ++ [⟨.char c, place⟩]) s.frames step.1.frames ∧
      ∀ opened, step.1.mode ≠ .dollar opened := by
  have hopener : ∀ opened, s.mode = .dollar opened → c = '\x7b' ∨ c = '(' →
      [⟨.char '$', opened⟩, ⟨.char c, opened + 1⟩] <:+ read ++ [⟨.char c, place⟩] := by
    intro opened hmode hc
    obtain rfl := hadjoins opened (h.dollar opened hmode) hc
    obtain ⟨before, rfl⟩ := h.dollar opened hmode
    exact ⟨before, by simp⟩
  cases hstep with
  | commentOn hmode => exact ⟨.kept, by simp [hmode]⟩
  | commentEnd | operator =>
      have hemit := fun op ↦ emitOperator_frames op (s.inMode .plain)
      refine ⟨(hemit _).1 ▸ .kept, fun opened ↦ ?_⟩
      rw [(hemit _).2]
      exact Mode.noConfusion
  | escaped =>
      have hfields := @readEscaped_fields scope s c
      exact ⟨hfields.frames ▸ .kept, by simp [hfields.mode]⟩
  | openParameter opened hmode hc =>
      subst hc
      exact ⟨.entered (.parameter opened) (hopener opened hmode (.inl rfl)),
        fun _ ↦ Mode.noConfusion⟩
  | openSubstitution opened hmode hc =>
      subst hc
      exact ⟨.entered (.substitution opened 0) (.inr (hopener opened hmode (.inr rfl))),
        fun _ ↦ Mode.noConfusion⟩

theorem HasRead.stepChar (h : HasRead scope read s) (hclosed : ¬ s.OpensBodyAt scope c)
    {symbols : List Symbol} (hlocated : Located symbols (read ++ [⟨.char c, place⟩])) :
    HasRead scope (read ++ [⟨.char c, place⟩]) (s.stepChar scope c place).1 := by
  have hscan : scan scope s [⟨.char c, place⟩] =
      .ok ((s.stepChar scope c place).1, (s.stepChar scope c place).2 ++ []) := by
    rw [scan_char _ _ hclosed, scan_nil]
    rfl
  have hadjoins : ∀ opened, [⟨.char '$', opened⟩] <:+ read → c = '\x7b' ∨ c = '(' →
      place = opened + 1 := by
    rintro opened ⟨before, rfl⟩ hc
    rw [List.append_assoc] at hlocated
    have hchain := (hlocated.of_infix (List.suffix_append _ _).isInfix).adjoining
    exact (List.isChain_cons_cons.1 hchain).1 (by simpa using hc)
  have hstep : Framed scope (read ++ [⟨.char c, place⟩]) s.frames
      (s.stepChar scope c place).1.frames ∧ ∀ opened,
        (s.stepChar scope c place).1.mode = .dollar opened → c = '$' ∧ place = opened := by
    unfold Scanner.stepChar
    cases hc : s.complete? scope c with
    | some step =>
        obtain ⟨hframed, hdollar⟩ := h.framed_completion hadjoins (complete_completion hc)
        exact ⟨hframed, fun opened hmode ↦ absurd hmode (hdollar opened)⟩
    | none =>
        dsimp only [Step.andThen_fst]
        have hsettled := settleBefore_settlement hc
        have hmove : Move scope place c (s.settleBefore scope c).1
            ((s.settleBefore scope c).1.readChar scope c place) := readChar_move
        exact ⟨hsettled.frames ▸ framed_move hmove, fun opened hmode ↦
          dollar_of_move (h.sound.settlement hsettled).2 hmove hmode⟩
  refine h.extend hscan hstep.1 fun opened hmode ↦ ?_
  obtain ⟨rfl, rfl⟩ := hstep.2 opened hmode
  exact List.suffix_append _ _

theorem HasRead.stepHole (h : HasRead scope read s) (index : Nat) :
    HasRead scope (read ++ [⟨.hole index, place⟩]) (s.stepHole scope index).1 := by
  have hscan : scan scope s [⟨.hole index, place⟩] =
      .ok ((s.stepHole scope index).1, (s.stepHole scope index).2 ++ []) := by
    rw [scan_hole, scan_nil]
    rfl
  have hframes : (s.stepHole scope index).1.frames = s.frames := by
    have hmove : HoleMove scope index s (s.stepHole scope index) := stepHole_holeMove
    generalize s.stepHole scope index = step at hmove
    cases hmove with
    | comment => rfl
    | escaped | dollar | plain => exact (emitHole_frames _ _ _ _).1
    | operator pending =>
        rw [Step.andThen_fst, readHole, (emitHole_frames _ _ _ _).1]
        exact (emitOperator_frames pending _).1
  have hkept : Framed scope (read ++ [⟨.hole index, place⟩]) s.frames
      (s.stepHole scope index).1.frames := hframes ▸ .kept
  refine h.extend hscan hkept fun opened hdollar ↦ ?_
  rcases @stepHole_mode scope s index with hmode | hmode <;>
    exact Mode.noConfusion (hmode.symm.trans hdollar)

theorem HasRead.stepBody (h : HasRead scope read s) (hopen : s.OpensBodyAt scope c)
    {front body : List Item} (hcut : cutBody front = some (body, [])) {lexemes : List Lexeme}
    (hbody : scanAll (s.bodyScope scope) body = .ok lexemes) :
    HasRead scope (read ++ ⟨.char c, place⟩ :: front) (s.stepBody scope lexemes).1 := by
  have hscan : scan scope s (⟨.char c, place⟩ :: front) =
      .ok ((s.stepBody scope lexemes).1, (s.stepBody scope lexemes).2 ++ []) := by
    rw [scan_body _ _ hopen hcut, hbody]
    exact map_eq_ok_iff.2 ⟨_, scan_nil _ _, rfl⟩
  have hframes : (s.stepBody scope lexemes).1.frames = s.frames := by
    obtain ⟨hnone, rfl, -⟩ := hopen
    exact (spliceBody_frames scope lexemes _).1.trans (settleBefore_settlement hnone).frames
  have hkept : Framed scope (read ++ ⟨.char c, place⟩ :: front) s.frames
      (s.stepBody scope lexemes).1.frames := hframes ▸ .kept
  refine h.extend hscan hkept fun opened hdollar ↦ ?_
  exact Mode.noConfusion ((stepBody_mode h.sound hopen lexemes).symm.trans hdollar)

/-- What is open at the end of a text has been opened at its place. -/
theorem HasRead.openedAt_of_finish (h : HasRead scope read s) {t : Template}
    (hscanned : t.Scanned scope read) {quoting : Quoting}
    (herror : s.finish scope = .error (.unterminated quoting place)) :
    t.OpenedAt quoting place := by
  obtain ⟨lexemes, hread⟩ := h.scanned
  have hall : scanAll scope read = .error (.unterminated quoting place) := by
    rw [scanAll, hread]
    simp only [bind, Except.bind, herror]
  unfold finish at herror
  cases hframes : s.frames with
  | nil =>
      rw [hframes] at herror
      split_ifs at herror
      cases herror
  | cons frame outer =>
      rw [hframes] at herror
      cases herror
      obtain ⟨text, ⟨behind, rfl⟩, hopens, htext⟩ := h.frames frame outer (hframes ▸ List.suffix_rfl)
      exact ⟨scope, text, behind, hscanned, hopens, htext, hall⟩

/-- A backtick that nothing closes has been opened at its place. -/
theorem HasRead.openedAt_of_open (h : HasRead scope read s) {t : Template}
    (hscanned : t.Scanned scope (read ++ ⟨.char c, place⟩ :: rest)) (hopen : s.OpensBodyAt scope c)
    (hcut : cutBody rest = none) :
    t.OpenedAt (.substitution (s.bodyScope scope).depth) place := by
  obtain ⟨lexemes, hread⟩ := h.scanned
  have herror : ∀ {rest}, cutBody rest = none → scanAll scope (read ++ ⟨.char c, place⟩ :: rest) =
      .error (.unterminated (.substitution (s.bodyScope scope).depth) place) := by
    intro rest hcut
    rw [scanAll_eq_scanRest, scanRest_append hread, scanRest, scan_open _ _ hopen hcut]
    rfl
  have hopens : (Quoting.substitution (s.bodyScope scope).depth).OpensEnd
      (read ++ [⟨.char c, place⟩]) place := by
    obtain ⟨-, rfl, -⟩ := hopen
    exact .inl (List.suffix_append _ _)
  have hsplit : read ++ ⟨.char c, place⟩ :: rest = (read ++ [⟨.char c, place⟩]) ++ rest := by simp
  exact ⟨scope, _, rest, hsplit ▸ hscanned, hopens, herror (by simp [cutBody]),
    hsplit ▸ herror hcut⟩

end Scanner

/-- Whatever a text that is being scanned fails with, also inside its bodies, was opened there. -/
theorem openedAt_of_scanRest {t : Template} {scope : Scope} {s : Scanner} {items : List Item}
    {e : LexError} (h : scanRest scope s items = .error e) :
    ∀ read, t.Scanned scope (read ++ items) → HasRead scope read s →
      ∀ quoting place, e = .unterminated quoting place → t.OpenedAt quoting place := by
  refine scanRest_error_induction (motive := fun scope s items e ↦
    ∀ read, t.Scanned scope (read ++ items) → HasRead scope read s →
      ∀ quoting place, e = .unterminated quoting place → t.OpenedAt quoting place)
    ?ended ?hole ?char ?opened ?within ?behind h
  case ended =>
    rintro scope s e hfinish read hscanned hread quoting place rfl
    exact hread.openedAt_of_finish (by simpa using hscanned) hfinish
  case hole =>
    intro scope s index place rest e ih read hscanned hread
    exact ih (read ++ [⟨.hole index, place⟩]) (by simpa using hscanned) (hread.stepHole index)
  case char =>
    intro scope s c place rest e hclosed ih read hscanned hread
    have hsplit : read ++ ⟨.char c, place⟩ :: rest = (read ++ [⟨.char c, place⟩]) ++ rest := by simp
    rw [hsplit] at hscanned
    have hlocated := hscanned.located.of_infix (List.prefix_append _ _).isInfix
    exact ih _ hscanned (hread.stepChar hclosed hlocated)
  case opened =>
    rintro scope s c place rest hopen hcut read hscanned hread quoting place' ⟨⟩
    exact hread.openedAt_of_open hscanned hopen hcut
  case within =>
    intro scope s c place rest body behind e hopen hcut ih read hscanned hread
    obtain ⟨lexemes, hscan⟩ := hread.scanned
    exact ih [] (.body hscanned hscan hopen hcut) .empty
  case behind =>
    intro scope s c place rest body behind lexemes e hopen hcut hbody ih read hscanned hread
    obtain ⟨front, rfl, hfront⟩ := exists_front_of_cutBody hcut
    exact ih (read ++ ⟨.char c, place⟩ :: front) (by simpa using hscanned)
      (hread.stepBody hopen hfront hbody)

/-- An unterminated construct is reported with the place of its opener among the symbols of the
template, also from within any number of nested backtick bodies. -/
theorem unterminated_at_opener {t : Template} {quoting : Quoting} {place : Nat}
    (h : t.lexemes = .error (.unterminated quoting place)) :
    place < t.symbols.length ∧ quoting.BeginsAt t.symbols place ∧ t.OpenedAt quoting place := by
  rw [Template.lexemes, scanAll_eq_scanRest] at h
  have hopened : t.OpenedAt quoting place :=
    openedAt_of_scanRest h [] .whole .empty quoting place rfl
  obtain ⟨scope, text, behind, hscanned, hopens, -⟩ := id hopened
  have hbegins := hopens.beginsAt (hscanned.located.of_infix (List.prefix_append _ _).isInfix)
  exact ⟨hbegins.lt_length, hbegins, hopened⟩

/-- An expansion left open in a body within a body, where its dollar sign is written with three
backslashes. -/
def nestedOpening : Template :=
  ⟨[.literal "ls \x60cat \\\x60echo ".toList, .hole (.str ['x']),
    .literal " \"\\\\\\$\x7bdir\\\x60 b\x60".toList]⟩

theorem unterminated_at_opener_nestedOpening :
    nestedOpening.lexemes = .error (.unterminated .parameter 21) ∧
      21 < nestedOpening.symbols.length ∧
      Quoting.BeginsAt nestedOpening.symbols 21 .parameter ∧
      nestedOpening.OpenedAt .parameter 21 := by
  have herror : nestedOpening.lexemes = .error (.unterminated .parameter 21) := by decide +kernel
  exact ⟨herror, unterminated_at_opener herror⟩

end ShellTemplate
