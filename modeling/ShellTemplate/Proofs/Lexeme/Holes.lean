import Mathlib.Tactic.Tauto
import ShellTemplate.Proofs.Lexeme.Sound
import ShellTemplate.Proofs.Words

/-!
# Holes among the lexemes

Reading characters completes no hole, so a text without holes gives lexemes
without holes. A hole is reported as it is read, in the text or in a body that
opens there: what holds where it is read holds of all the holes of a run. So
inside backticks no hole stands in plain text.
-/

namespace ShellTemplate

/-- No lexeme is a hole. -/
def Filled (lexemes : List Lexeme) : Prop := ∀ lexeme ∈ lexemes, lexeme.token.isHole = false

namespace Filled

@[simp] theorem nil : Filled [] := by simp [Filled]

@[simp] theorem append_iff {lexemes more : List Lexeme} :
    Filled (lexemes ++ more) ↔ Filled lexemes ∧ Filled more := List.forall_mem_append

@[simp] theorem cons_iff {lexeme : Lexeme} {more : List Lexeme} :
    Filled (lexeme :: more) ↔ lexeme.token.isHole = false ∧ Filled more := List.forall_mem_cons

variable {scope : Scope} {s : Scanner}

theorem flush : Filled s.flush.2 := by
  unfold Scanner.flush
  split_ifs <;> simp

theorem emitOperator (op : Operator) : Filled (s.emitOperator op).2 := by
  unfold Scanner.emitOperator
  simp [flush]

theorem emitBlank : Filled s.emitBlank.2 := by
  unfold Scanner.emitBlank
  rw [Step.andThen_snd, append_iff]
  refine ⟨flush, ?_⟩
  split_ifs <;> simp

theorem move {c : Char} {place : Nat} {step : Step} (h : Scanner.Move scope place c s step) :
    Filled step.2 := by
  cases h with
  | blank => exact emitBlank
  | operator => exact emitOperator _
  | _ => exact nil

theorem completion {c : Char} {step : Step} (h : Scanner.Completion scope c s step) :
    Filled step.2 := by
  cases h with
  | commentEnd => exact emitOperator _
  | operator => exact emitOperator _
  | _ => exact nil

theorem settlement {c : Char} {step : Step} (h : Scanner.Settlement scope c s step) :
    Filled step.2 := by
  cases h with
  | operator => exact emitOperator _
  | _ => exact nil

theorem stepChar (c : Char) (place : Nat) : Filled (s.stepChar scope c place).2 := by
  unfold Scanner.stepChar
  cases hc : s.complete? scope c with
  | some step => exact completion (Scanner.complete_completion hc)
  | none =>
      rw [Step.andThen_snd, append_iff]
      exact ⟨settlement (Scanner.settleBefore_settlement hc), move Scanner.readChar_move⟩

theorem spliceLexemes {lexemes : List Lexeme} (h : Filled lexemes) (s : Scanner) :
    Filled (Scanner.spliceLexemes scope lexemes s).2 := by
  induction lexemes generalizing s with
  | nil => exact nil
  | cons lexeme rest ih =>
      obtain ⟨token, quoting, enclosing⟩ := lexeme
      obtain ⟨htoken, hrest⟩ := cons_iff.1 h
      cases token with
      | hole index => simp at htoken
      | piece p => exact ih hrest _
      | operator op => exact ih hrest _
      | blank => exact ih hrest _

theorem stepBody {c : Char} (hopen : s.OpensBodyAt scope c) {lexemes : List Lexeme}
    (h : Filled lexemes) : Filled (s.stepBody scope lexemes).2 := by
  obtain ⟨hc, rfl, _⟩ := hopen
  unfold Scanner.stepBody
  rw [Step.andThen_snd, append_iff]
  refine ⟨settlement (Scanner.settleBefore_settlement hc), ?_⟩
  unfold Scanner.spliceBody
  simp [spliceLexemes h]

theorem settle : Filled (s.settle scope).2 := by
  unfold Scanner.settle
  split <;> first | exact nil | exact emitOperator _

theorem finish {lexemes : List Lexeme} (h : s.finish scope = .ok lexemes) : Filled lexemes := by
  unfold Scanner.finish at h
  split at h
  · cases h
  · split_ifs at h
    cases h
    simp [settle, flush]

variable {options : FillOptions} {values : List Value} {first more : List Lexeme}
  {tokens : List Token}

/-- Lexemes without holes in front are filled already. -/
theorem fill_front_iff (h : Filled first) : fill options values (first ++ more) = .ok tokens ↔
    ∃ rest, fill options values more = .ok rest ∧ tokens = first.map Lexeme.token ++ rest := by
  rw [fill_append_eq_ok_iff, fill_of_not_hole h]
  simp

/-- Lexemes without holes at the end are filled already. -/
theorem fill_end_iff (h : Filled more) : fill options values (first ++ more) = .ok tokens ↔
    ∃ front, fill options values first = .ok front ∧ tokens = front ++ more.map Lexeme.token := by
  rw [fill_append_eq_ok_iff, fill_of_not_hole h]
  simp

end Filled

/-- Cutting a body off takes its items from the text. -/
theorem mem_of_cutBody {items body behind : List Item} (h : cutBody items = some (body, behind))
    {item : Item} (hitem : item ∈ body ∨ item ∈ behind) : item ∈ items := by
  fun_induction cutBody items generalizing body behind with
  | case1 => simp at h
  | case2 p c q tail _ ih =>
      simp only [Option.map_eq_some_iff, Prod.exists, Prod.mk.injEq] at h
      obtain ⟨b, a, hb, rfl, rfl⟩ := h
      have hmem := ih hb
      simp only [List.mem_cons] at hitem ⊢
      tauto
  | case3 p c q tail _ ih =>
      simp only [Option.map_eq_some_iff, Prod.exists, Prod.mk.injEq] at h
      obtain ⟨b, a, hb, rfl, rfl⟩ := h
      have hmem := ih hb
      simp only [List.mem_cons] at hitem hmem ⊢
      tauto
  | case4 first tail _ _ =>
      simp only [Option.some.injEq, Prod.mk.injEq] at h
      obtain ⟨rfl, rfl⟩ := h
      simp_all
  | case5 first tail _ _ ih =>
      simp only [Option.map_eq_some_iff, Prod.exists, Prod.mk.injEq] at h
      obtain ⟨b, a, hb, rfl, rfl⟩ := h
      have hmem := ih hb
      simp only [List.mem_cons] at hitem ⊢
      tauto

/-- The items of a text without holes. -/
def Plain (items : List Item) : Prop := ∀ item ∈ items, ∃ c, item.symbol = .char c

theorem Scans.filled {cond : HoleCondition} {scope : Scope} {s : Scanner} {items : List Item}
    {out : Step} (h : Scans cond scope s items out) (hplain : Plain items) : Filled out.2 := by
  induction h with
  | nil => exact .nil
  | hole _ _ _ => simpa using hplain _ List.mem_cons_self
  | char _ _ ih =>
      exact Filled.append_iff.2 ⟨.stepChar _ _, ih fun item hi ↦ hplain item (by simp [hi])⟩
  | body opened cut _ ended _ ihin ih =>
      have hbody := ihin fun item hi ↦ hplain item (by simp [mem_of_cutBody cut (.inl hi)])
      have hbehind := ih fun item hi ↦ hplain item (by simp [mem_of_cutBody cut (.inr hi)])
      exact Filled.append_iff.2
        ⟨.stepBody opened (Filled.append_iff.2 ⟨hbody, .finish ended⟩), hbehind⟩

theorem plain_ofText (text : List Char) : Plain (Template.ofText text).items := by
  have hplace : ∀ start (symbols : List Symbol), (∀ symbol ∈ symbols, ∃ c, symbol = .char c) →
      Plain (placeFrom start symbols) := by
    intro start symbols h
    induction symbols generalizing start with
    | nil => simp [placeFrom, Plain]
    | cons symbol rest ih =>
        have hrest := ih (start + 1) fun symbol hs ↦ h symbol (by simp [hs])
        simpa [placeFrom, Plain] using ⟨h symbol (by simp), hrest⟩
  refine hplace 0 _ ?_
  simp [Template.symbols, Template.ofText, symbolsFrom]

/-- What is reported of the holes among lexemes. -/
def OnHoles (P : Quoting → Enclosing → Prop) (lexemes : List Lexeme) : Prop :=
  ∀ lexeme ∈ lexemes, lexeme.token.isHole = true → P lexeme.quoting lexeme.enclosing

/-- What is reported of a hole wherever it is read, in a text of such a scope and in the bodies
that open there. -/
structure Reports (Within : Scope → Prop) (P : Quoting → Enclosing → Prop) : Prop where
  body : ∀ {scope}, Within scope → ∀ frames, Within (scope.body frames)
  read : ∀ {scope}, Within scope → ∀ frames, P (scope.quoting frames) (scope.enclosing frames)
  escaped : ∀ {scope}, Within scope →
    ∀ s : Scanner, P s.escapedQuoting (scope.enclosing s.frames)

namespace OnHoles

variable {P : Quoting → Enclosing → Prop} {Within : Scope → Prop} {scope : Scope} {s : Scanner}
  {lexemes more : List Lexeme}

theorem of_filled (h : Filled lexemes) : OnHoles P lexemes := by
  intro lexeme hl hhole
  rw [h lexeme hl] at hhole
  cases hhole

theorem append (h : OnHoles P lexemes) (h' : OnHoles P more) : OnHoles P (lexemes ++ more) :=
  fun lexeme hl ↦ (List.mem_append.1 hl).elim (h lexeme) (h' lexeme)

theorem emitHole {index : Nat} {quoting : Quoting} {enclosing : Enclosing}
    (h : P quoting enclosing) : OnHoles P (s.emitHole index quoting enclosing).2 := by
  unfold Scanner.emitHole
  rw [Step.andThen_snd]
  refine append (of_filled .flush) fun lexeme hl _ ↦ ?_
  obtain rfl := List.mem_singleton.1 hl
  exact h

theorem stepHole (hP : Reports Within P) (hscope : Within scope) (index : Nat) :
    OnHoles P (s.stepHole scope index).2 := by
  have hmove : Scanner.HoleMove scope index s (s.stepHole scope index) := Scanner.stepHole_holeMove
  generalize s.stepHole scope index = step at hmove
  cases hmove with
  | comment _ => exact of_filled .nil
  | escaped _ => exact emitHole (hP.escaped hscope s)
  | dollar _ _ => exact emitHole (hP.read hscope _)
  | plain _ => exact emitHole (hP.read hscope _)
  | operator _ _ =>
      rw [Step.andThen_snd]
      exact append (of_filled (.emitOperator _)) (emitHole (hP.read hscope _))

theorem spliceLexemes (h : OnHoles P lexemes) (s : Scanner) :
    OnHoles P (Scanner.spliceLexemes scope lexemes s).2 := by
  induction lexemes generalizing s with
  | nil => exact of_filled .nil
  | cons lexeme rest ih =>
      obtain ⟨token, quoting, enclosing⟩ := lexeme
      have hrest := ih fun l hl ↦ h l (by simp [hl])
      cases token with
      | hole index => exact append (emitHole (h _ List.mem_cons_self rfl)) (hrest _)
      | piece p => exact hrest _
      | operator op => exact hrest _
      | blank => exact hrest _

theorem stepBody {c : Char} (hopen : s.OpensBodyAt scope c) (h : OnHoles P lexemes) :
    OnHoles P (s.stepBody scope lexemes).2 := by
  obtain ⟨hc, rfl, _⟩ := hopen
  unfold Scanner.stepBody Scanner.spliceBody
  rw [Step.andThen_snd, Step.andThen_snd, List.append_nil]
  exact append (of_filled (.settlement (Scanner.settleBefore_settlement hc))) (spliceLexemes h _)

end OnHoles

/-- What is reported of each hole by itself holds of all that a run reports. -/
theorem Scans.onHoles {P : Quoting → Enclosing → Prop} {Within : Scope → Prop}
    (hP : Reports Within P) {cond : HoleCondition} {scope : Scope} {s : Scanner}
    {items : List Item} {out : Step} (h : Scans cond scope s items out) (hscope : Within scope) :
    OnHoles P out.2 := by
  induction h with
  | nil => exact .of_filled .nil
  | hole _ _ ih => exact .append (.stepHole hP hscope _) (ih hscope)
  | char _ _ ih => exact .append (.of_filled (.stepChar _ _)) (ih hscope)
  | body opened _ _ ended _ ihin ih =>
      have hinner := ihin (hP.body hscope _)
      exact .append (.stepBody opened (hinner.append (.of_filled (.finish ended)))) (ih hscope)

theorem Scans.onHoles_finish {P : Quoting → Enclosing → Prop} {Within : Scope → Prop}
    (hP : Reports Within P) {cond : HoleCondition} {scope : Scope} {s : Scanner}
    {items : List Item} {out : Step} (h : Scans cond scope s items out) (hscope : Within scope)
    {final : List Lexeme} (ended : out.1.finish scope = .ok final) : OnHoles P (out.2 ++ final) :=
  (h.onHoles hP hscope).append (.of_filled (.finish ended))

/-- No hole stands in plain text, where shell syntax would be allowed. -/
def Unbare (lexemes : List Lexeme) : Prop :=
  ∀ lexeme ∈ lexemes, lexeme.token.isHole = true → lexeme.quoting ≠ .bare

theorem quoting_ne_bare {scope : Scope} (hdepth : scope.depth ≠ 0) (frames : List Frame) :
    scope.quoting frames ≠ .bare := by
  unfold Scope.quoting
  split <;> simp [hdepth]

theorem escapedQuoting_ne_bare {s : Scanner} : s.escapedQuoting ≠ .bare := by
  unfold Scanner.escapedQuoting
  split <;> simp

theorem reports_unbare : Reports (fun scope ↦ scope.depth ≠ 0) fun quoting _ ↦ quoting ≠ .bare where
  body _ _ := Nat.succ_ne_zero _
  read := quoting_ne_bare
  escaped _ _ := escapedQuoting_ne_bare

/-- Inside a backtick body no hole stands in plain text. -/
theorem Scans.unbare_body {cond : HoleCondition} {scope : Scope} {s : Scanner}
    {body : List Item} {inner : Step} {final : List Lexeme}
    (within : Scans cond (s.bodyScope scope) {} body inner)
    (ended : inner.1.finish (s.bodyScope scope) = .ok final) : Unbare (inner.2 ++ final) :=
  within.onHoles_finish reports_unbare (Nat.succ_ne_zero _) ended

end ShellTemplate
