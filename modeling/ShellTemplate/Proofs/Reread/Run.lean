import ShellTemplate.Proofs.Reread.Bodies

/-!
# Reading the line of a whole run

Symbol by symbol and body by body, the line that is written while a template is
scanned is read with it. The text of the template holds no backslash, no white
space but the usual, and no bar that forces a redirection.
-/

namespace ShellTemplate

/-- Items whose characters are written as they stand. -/
structure Clear (items : List Item) : Prop where
  place : ∀ item ∈ items, item.place = 0
  backslash : ∀ item ∈ items, item.symbol ≠ .char '\\'
  blank : ∀ item ∈ items, ∀ c, item.symbol = .char c → isBlank c = true → c ∈ [' ', '\t', '\r', '\n']
  forced : ¬ [Symbol.char '>', .char '|'] <:+: items.map Item.symbol

namespace Clear

variable {items : List Item}

theorem infix_of {part : List Item} (h : Clear items) (hpart : part <:+: items) : Clear part where
  place := fun item hitem ↦ h.place item (hpart.subset hitem)
  backslash := fun item hitem ↦ h.backslash item (hpart.subset hitem)
  blank := fun item hitem ↦ h.blank item (hpart.subset hitem)
  forced := fun hforced ↦ h.forced (hforced.trans (hpart.map _))

theorem tail {item : Item} (h : Clear (item :: items)) : Clear items :=
  h.infix_of (List.suffix_cons _ _).isInfix

theorem cutBody_eq (h : Clear items) {body behind : List Item}
    (hcut : cutBody items = some (body, behind)) :
    ∃ place, items = body ++ ⟨.char '\x60', place⟩ :: behind := by
  fun_induction cutBody items generalizing body behind with
  | case1 => cases hcut
  | case2 p c q tail _ ih => exact absurd rfl (h.backslash ⟨.char '\\', p⟩ List.mem_cons_self)
  | case3 p c q tail _ ih => exact absurd rfl (h.backslash ⟨.char '\\', p⟩ List.mem_cons_self)
  | case4 item tail _ hs =>
      cases hcut
      obtain ⟨symbol, place⟩ := item
      obtain rfl : symbol = .char '\x60' := hs
      exact ⟨place, rfl⟩
  | case5 item tail _ hs ih =>
      obtain ⟨⟨body', behind'⟩, hcut', heq⟩ := Option.map_eq_some_iff.1 hcut
      cases heq
      obtain ⟨place, rfl⟩ := ih h.tail hcut'
      exact ⟨place, rfl⟩

end Clear

/-- The character that puts a scanner in a mode. -/
def Mode.beginning? : Mode → Option Char
  | .plain => none
  | .comment => some '#'
  | .escape => some '\\'
  | .dollar _ => some '$'
  | .pipe => some '|'
  | .ampersand => some '&'
  | .greater _ => some '>'
  | .less _ => some '<'

namespace Scanner

variable {strict : Prop} {b : Nat} {scope : Scope} {s : Scanner} {c : Char}

/-- A redirection is not forced by the items behind it. -/
def Unforced (s : Scanner) (items : List Item) : Prop :=
  ∀ fd, s.mode = .greater fd → (items.map Item.symbol).head? ≠ some (.char '|')

theorem unforced_of_plain (h : s.mode = .plain) (items : List Item) : s.Unforced items :=
  fun fd hfd ↦ by simp [h] at hfd

theorem Move.beginning {place : Nat} {step : Step} (h : Move scope place c s step)
    (hmode : s.mode = .plain) : ∀ d ∈ step.1.mode.beginning?, c = d := by
  have hplain : ∀ {mode : Mode}, mode = .plain → ∀ d ∈ mode.beginning?, c = d := by
    rintro _ rfl d hd
    cases hd
  cases h with
  | blank => exact hplain ((emitBlank_frames s).2.trans hmode)
  | operator _ op => exact hplain ((emitOperator_frames op s).2.trans hmode)
  | begin _ _ hc => rcases hc with ⟨rfl, rfl⟩ | ⟨rfl, rfl⟩ <;> simp [inMode, Mode.beginning?]
  | angle _ mode hc =>
      obtain ⟨-, fd, hfd⟩ := readAngle_frames mode s
      dsimp only
      rw [hfd]
      rcases hc with ⟨rfl, rfl⟩ | ⟨rfl, rfl⟩ <;> simp [Mode.beginning?]
  | comment _ hc | backslash _ hc | dollar _ hc =>
      subst hc
      simp [inMode, readBackslash, Mode.beginning?]
  | keep | glob | openQuote | closeQuote | openInner | closeExpansion | nest => exact hplain hmode

/-- What is undecided behind a character was begun by it, if it is no comment. -/
theorem stepChar_beginning (hs : s.Sound) {place : Nat}
    (hcomment : (s.stepChar scope c place).1.mode ≠ .comment) :
    ∀ d ∈ (s.stepChar scope c place).1.mode.beginning?, c = d := by
  have hplain : ∀ {mode : Mode}, mode = .plain → ∀ d ∈ mode.beginning?, c = d := by
    rintro _ rfl d hd
    cases hd
  unfold stepChar at hcomment ⊢
  cases hc : s.complete? scope c with
  | some step =>
      rw [hc] at hcomment
      dsimp only at hcomment ⊢
      cases complete_completion hc with
      | commentOn hmode _ => exact absurd hmode hcomment
      | commentEnd => exact hplain (emitOperator_frames _ (s.inMode .plain)).2
      | escaped => exact hplain (readEscaped_fields s c).mode
      | openParameter | openSubstitution => exact hplain rfl
      | operator _ op => exact hplain (emitOperator_frames op (s.inMode .plain)).2
  | none => exact readChar_move.beginning (hs.settlement (settleBefore_settlement hc)).2

theorem erase_stepChar (h : s.erase = s) :
    (s.stepChar scope c 0).1.erase = (s.stepChar scope c 0).1 := by
  have hstep := @stepChar_erase scope s c 0
  rw [h] at hstep
  exact (congrArg Prod.fst hstep).symm

theorem erase_stepHole (h : s.erase = s) (index : Nat) :
    (s.stepHole scope index).1.erase = (s.stepHole scope index).1 := by
  have hstep := @stepHole_erase scope s index
  rw [h] at hstep
  exact (congrArg Prod.fst hstep).symm

theorem erase_stepBody (h : s.erase = s) (lexemes : List Lexeme) :
    (s.stepBody scope lexemes).1.erase = (s.stepBody scope lexemes).1 := by
  have hstep := @stepBody_erase scope s lexemes
  rw [h] at hstep
  exact (congrArg Prod.fst hstep).symm

theorem keeps_start (strict : Prop) (b : Nat) (scope : Scope) : Keeps strict b scope {} [] := by
  have haligned : Aligned strict b {} [] {} [] := {
    frames := rfl
    mode := rfl
    sound := sound_empty
    previous := by simp
    fresh := rfl
    parts := .nil
    word := ⟨rfl, .refl _⟩
    empty := fun _ ↦ rfl
    started := fun w hw ↦ by cases hw
    going := by simp [assembly]
    inside := by simp [assembly, Assembly.wordWith, Word.push]
    ends := fun _ hraw ↦ absurd rfl hraw
    spelled := fun _ ↦ rfl
    blank := fun _ _ ↦ rfl }
  have hline : ({} : Scanner).line b [] = [] := by simp [line]
  refine keeps_of_plain rfl ⟨{}, [], ?_, haligned.alignedFor _⟩ (fun _ _ hraw ↦ absurd rfl hraw)
    fun _ _ ↦ ⟨[], 0, ?_, .nil⟩
  · rw [hline]
    exact .nil
  · rw [written_nil, List.rdropWhile_nil, charItems_nil]
    exact scanAll_eq_ok_iff.2 ⟨_, [], scan_nil _ _, rfl, rfl⟩

end Scanner

open Scanner

/-- No dollar sign that has marked the word stands directly before a dollar sign that stands
directly before the hole. -/
def Unmarked : HoleCondition := fun _ s _ _ ↦
  (∃ opened, s.mode = .dollar opened) → s.piece.raw.getLast? ≠ some '$'

/-- Along a run of the scanner the line that is written can be read. -/
theorem Scans.keeps {cond : HoleCondition} {strict : Prop} {options : FillOptions}
    {values : List Value} {scope : Scope} {s : Scanner} {items : List Item} {out : Step}
    (h : Scans cond scope s items out)
    (hcond : ∀ scope s index rest, cond scope s index rest → strict → Unmarked scope s index rest)
    (hvalues : ∀ value ∈ values, value.literalText?.isSome = true)
    (hscope : scope.backticks = 0 → scope = {}) (hs : s.Sound) (herase : s.erase = s)
    (hclear : Clear items) (hunforced : s.Unforced items) {tokens own : List Token}
    (hkeeps : Keeps strict scope.backticks scope s tokens)
    (hfill : fill options values (out.2.map (Lexeme.lower scope.backticks)) = .ok own) :
    Keeps strict scope.backticks scope out.1 (tokens ++ own) := by
  induction h generalizing tokens own with
  | nil =>
      cases hfill
      rwa [List.append_nil]
  | @hole scope s index place rest after met tail ih =>
      rw [Step.before, List.map_append] at hfill
      obtain ⟨first, second, hfirst, hsecond, rfl⟩ := fill_append_eq_ok_iff.1 hfill
      have hnext := hkeeps.stepHole hs herase rfl hvalues (hcond _ _ _ _ met) hfirst
      have hrest := ih hscope (hs.stepHole index) (erase_stepHole herase index) hclear.tail
        (fun fd hfd ↦ by
          rcases @stepHole_mode scope s index with hmode | hmode <;> simp [hmode] at hfd)
        hnext hsecond
      rwa [List.append_assoc] at hrest
  | @char scope s c place rest after closed tail ih =>
      obtain rfl : place = 0 := hclear.place _ List.mem_cons_self
      have hwritten : Written s c := {
        backslash := fun hc ↦ hclear.backslash _ List.mem_cons_self (congrArg Symbol.char hc)
        blank := hclear.blank _ List.mem_cons_self c rfl
        forced := fun fd hfd hc ↦ hunforced fd hfd (by rw [hc]; rfl) }
      obtain ⟨more, hmore, rfl⟩ := (Filled.stepChar c 0).fill_front_lower_iff.1 hfill
      have hnext := hkeeps.stepChar hs herase hscope hwritten closed
      have hrest := ih hscope (hs.stepChar c 0) (erase_stepChar herase) hclear.tail
        (fun fd hfd hhead ↦ ?_) hnext hmore
      · rwa [List.append_assoc] at hrest
      · have hcomment : (s.stepChar scope c 0).1.mode ≠ .comment := by simp [hfd]
        obtain rfl := stepChar_beginning hs hcomment '>' (by rw [hfd]; rfl)
        obtain ⟨symbols, hsymbols⟩ := List.head?_eq_some_iff.1 hhead
        refine hclear.forced (List.IsPrefix.isInfix ⟨symbols, ?_⟩)
        simp [hsymbols]
  | @body scope s c place rest body behind inner after final opened cut within ended tail ihin ih =>
      obtain ⟨close, hrest⟩ := hclear.tail.cutBody_eq cut
      have hbody : Clear body := hclear.tail.infix_of ⟨[], _, by rw [hrest]; rfl⟩
      have hbehind : Clear behind := hclear.tail.infix_of
        (List.IsSuffix.isInfix ⟨body ++ [⟨.char '\x60', close⟩], by simp [hrest]⟩)
      rw [Step.before, List.map_append] at hfill
      obtain ⟨first, second, hfirst, hsecond, rfl⟩ := fill_append_eq_ok_iff.1 hfill
      have hdeeper : (s.bodyScope scope).backticks ≠ 0 := Nat.succ_ne_zero _
      have hread : ∀ filled,
          fill options values ((inner.2 ++ final).map (Lexeme.lower (scope.backticks + 1))) =
            .ok filled →
          ∃ read, scanAll (s.bodyScope scope) (charItems (plainText filled)) = .ok read ∧
            plainText (read.map Lexeme.token) = plainText filled := by
        intro filled hfilled
        obtain ⟨before, hbefore, rfl⟩ := (Filled.finish ended).fill_end_lower_iff.1 hfilled
        have hinner := ihin (fun hzero ↦ absurd hzero hdeeper) sound_empty rfl hbody
          (unforced_of_plain rfl _) (keeps_start strict _ _) hbefore
        rw [List.nil_append] at hinner
        obtain ⟨⟨read, hscan, htext⟩, _⟩ := hinner.finish (within.sound sound_empty)
          (fun hzero ↦ absurd hzero hdeeper) ended
        have hplain : ∀ tokens, written (s.bodyScope scope).backticks tokens = plainText tokens :=
          fun tokens ↦ if_neg hdeeper
        rw [hplain] at hscan htext
        exact ⟨read, hscan, htext hdeeper⟩
      have hnext := hkeeps.stepBody hs hscope opened (within.deep_body ended)
        (within.unbare_body ended) hvalues hfirst hread
      have hrest := ih hscope (hs.stepBody opened _) (erase_stepBody herase _) hbehind
        (unforced_of_plain (stepBody_mode hs opened _) _) hnext hsecond
      rwa [List.append_assoc] at hrest

end ShellTemplate
