import Mathlib.Data.List.Range
import ShellTemplate.Proofs.Backticked
import ShellTemplate.Proofs.Lexeme.Front

/-!
# The numbers of holes

Which holes lexemes report. A scan reports holes of its text in the order of the text: cutting a
body off keeps the order, and so does splicing it back.
-/

namespace ShellTemplate

open Scanner

def Token.hole? : Token → Option Nat
  | .hole index => some index
  | .piece _ | .operator _ | .blank => none

def Symbol.hole? : Symbol → Option Nat
  | .hole index => some index
  | .char _ => none

/-- The numbers of the holes among lexemes. -/
def holeIndices (lexemes : List Lexeme) : List Nat := lexemes.filterMap fun l ↦ l.token.hole?

/-- The numbers of the holes of a text. -/
def holesOf (items : List Item) : List Nat := items.filterMap fun item ↦ item.symbol.hole?

section Lexemes

@[simp] theorem holeIndices_append (lexemes more : List Lexeme) :
    holeIndices (lexemes ++ more) = holeIndices lexemes ++ holeIndices more :=
  List.filterMap_append

@[simp] theorem holesOf_append (items more : List Item) :
    holesOf (items ++ more) = holesOf items ++ holesOf more :=
  List.filterMap_append

@[simp] theorem holesOf_char (c : Char) (place : Nat) (rest : List Item) :
    holesOf (⟨.char c, place⟩ :: rest) = holesOf rest := rfl

theorem holeIndices_holeLexemes (lexemes : List Lexeme) :
    holeIndices (holeLexemes lexemes) = holeIndices lexemes := by
  induction lexemes with
  | nil => rfl
  | cons lexeme rest ih =>
      obtain ⟨token, quoting, enclosing⟩ := lexeme
      cases token with
      | hole index => exact congrArg (index :: ·) ih
      | piece | operator | blank => exact ih

theorem Filled.holeIndices_eq_nil {lexemes : List Lexeme} (h : Filled lexemes) :
    holeIndices lexemes = [] := by
  rw [← holeIndices_holeLexemes, h.holeLexemes_eq_nil]
  rfl

theorem holeIndices_emitHole (index : Nat) (quoting : Quoting) (enclosing : Enclosing)
    (s : Scanner) : holeIndices (s.emitHole index quoting enclosing).2 = [index] := by
  rw [← holeIndices_holeLexemes, holeLexemes_emitHole]
  rfl

/-- Only a comment skips a hole. -/
theorem holeIndices_stepHole (scope : Scope) (s : Scanner) (index : Nat) :
    holeIndices (s.stepHole scope index).2 = if s.mode = .comment then [] else [index] := by
  have hmove : HoleMove scope index s (s.stepHole scope index) := stepHole_holeMove
  generalize s.stepHole scope index = step at hmove
  cases hmove with
  | comment hmode => simp [hmode, holeIndices]
  | escaped hmode | plain hmode | dollar opened hmode =>
      rw [if_neg (by simp [hmode])]
      exact holeIndices_emitHole _ _ _ _
  | operator pending hmode =>
      rw [if_neg fun hcomment ↦ by simp [hcomment, Mode.pending?] at hmode, Step.andThen_snd,
        holeIndices_append, (Filled.emitOperator pending).holeIndices_eq_nil]
      exact holeIndices_emitHole _ _ _ _

theorem holeIndices_spliceLexemes (scope : Scope) (lexemes : List Lexeme) (s : Scanner) :
    holeIndices (s.spliceLexemes scope lexemes).2 = holeIndices lexemes := by
  rw [← holeIndices_holeLexemes, holeLexemes_spliceLexemes, holeIndices_holeLexemes]

theorem holeIndices_stepBody {scope : Scope} {s : Scanner} {c : Char}
    (hopen : s.OpensBodyAt scope c) (lexemes : List Lexeme) :
    holeIndices (s.stepBody scope lexemes).2 = holeIndices lexemes := by
  obtain ⟨hnone, rfl, -⟩ := hopen
  have hsettled := Filled.settlement (settleBefore_settlement hnone)
  rw [stepBody, Step.andThen_snd, spliceBody, Step.andThen_snd, holeIndices_append,
    hsettled.holeIndices_eq_nil, List.append_nil, List.nil_append, holeIndices_spliceLexemes]

theorem holesOf_openBody (items : List Item) : holesOf (openBody items) = holesOf items := by
  fun_induction openBody items with
  | case1 => rfl
  | case2 p c q tail _ ih => simpa [holesOf, Symbol.hole?] using ih
  | case3 p c q tail _ ih => simpa [holesOf, Symbol.hole?] using ih
  | case4 item tail _ ih =>
      cases hhole : item.symbol.hole? <;> simpa [holesOf, hhole] using ih

/-- Cutting a body off keeps the holes in order. -/
theorem holesOf_cutBody {items body behind : List Item} (h : cutBody items = some (body, behind)) :
    holesOf items = holesOf body ++ holesOf behind := by
  fun_induction cutBody items generalizing body behind with
  | case1 => cases h
  | case2 p c q tail _ ih =>
      obtain ⟨⟨body', behind'⟩, hcut, heq⟩ := Option.map_eq_some_iff.1 h
      cases heq
      have htail := ih hcut
      exact htail
  | case3 p c q tail _ ih =>
      obtain ⟨⟨body', behind'⟩, hcut, heq⟩ := Option.map_eq_some_iff.1 h
      cases heq
      have htail := ih hcut
      exact htail
  | case4 item tail _ hs =>
      cases h
      rw [holesOf, List.filterMap_cons, hs]
      rfl
  | case5 item tail _ _ ih =>
      obtain ⟨⟨body', behind'⟩, hcut, heq⟩ := Option.map_eq_some_iff.1 h
      cases heq
      have htail := ih hcut
      cases hhole : item.symbol.hole? with
      | none => simpa [holesOf, hhole] using htail
      | some index => simpa [holesOf, hhole] using htail

end Lexemes

section Order

/-- The holes that a run completes are holes of its text, in the same order. -/
theorem Scans.holeIndices_sublist {cond : HoleCondition} {scope : Scope} {s : Scanner}
    {items : List Item} {out : Step} (h : Scans cond scope s items out) :
    (holeIndices out.2).Sublist (holesOf items) := by
  induction h with
  | nil => exact List.Sublist.refl []
  | @hole scope s index place rest after _ _ ih =>
      rw [Step.before, holeIndices_append, holeIndices_stepHole]
      split_ifs
      · exact ih.cons index
      · exact ih.cons_cons index
  | @char scope s c place rest after _ _ ih =>
      rw [Step.before, holeIndices_append, (Filled.stepChar c place).holeIndices_eq_nil]
      exact ih
  | @body scope s c place rest body behind inner after final opened cut _ ended _ ihin ih =>
      have hrest := holesOf_cutBody cut
      have hbehind : holesOf (⟨.char c, place⟩ :: rest) = holesOf body ++ holesOf behind := hrest
      rw [Step.before, holeIndices_append, holeIndices_stepBody opened, holeIndices_append,
        (Filled.finish ended).holeIndices_eq_nil, List.append_nil, hbehind]
      exact ihin.append ih

theorem holeIndices_sublist_of_scanAll {scope : Scope} {items : List Item} {lexemes : List Lexeme}
    (h : scanAll scope items = .ok lexemes) : (holeIndices lexemes).Sublist (holesOf items) := by
  obtain ⟨out, final, hscan, hfinish, rfl⟩ := scanAll_eq_ok_iff.1 h
  rw [holeIndices_append, (Filled.finish hfinish).holeIndices_eq_nil, List.append_nil]
  exact (scans_of_scan hscan).holeIndices_sublist

theorem filterMap_hole?_symbolsFrom (next : Nat) (segments : List Segment) :
    (symbolsFrom next segments).filterMap Symbol.hole? =
      List.range' next (Template.holeCount ⟨segments⟩) := by
  induction segments generalizing next with
  | nil => rfl
  | cons segment rest ih =>
      cases segment with
      | literal text =>
          have htext : (text.map Symbol.char).filterMap Symbol.hole? = [] := by
            simp [Symbol.hole?, List.filterMap_eq_nil_iff]
          rw [symbolsFrom, List.filterMap_append, htext, List.nil_append]
          exact ih next
      | hole value => exact congrArg (next :: ·) (ih (next + 1))

theorem filterMap_hole?_symbol (items : List Item) :
    (items.map Item.symbol).filterMap Symbol.hole? = holesOf items :=
  List.filterMap_map

theorem holesOf_unplaced (symbols : List Symbol) :
    holesOf (unplaced symbols) = symbols.filterMap Symbol.hole? := by
  rw [← filterMap_hole?_symbol]
  simp [unplaced, Function.comp_def]

theorem holesOf_placeFrom (start next : Nat) (segments : List Segment) :
    holesOf (placeFrom start (symbolsFrom next segments)) =
      List.range' next (Template.holeCount ⟨segments⟩) := by
  rw [← filterMap_hole?_symbol, symbol_placeFrom, filterMap_hole?_symbolsFrom]

namespace Template

variable {t : Template} {lexemes : List Lexeme}

theorem holesOf_items (t : Template) : holesOf t.items = List.range t.holeCount := by
  rw [List.range_eq_range']
  exact holesOf_placeFrom 0 0 t.segments

theorem holeIndices_sublist (h : t.lexemes = .ok lexemes) :
    (holeIndices lexemes).Sublist (List.range t.holeCount) :=
  t.holesOf_items ▸ holeIndices_sublist_of_scanAll h

theorem lt_holeCount_of_mem (h : t.lexemes = .ok lexemes) {index : Nat}
    (hindex : index ∈ holeIndices lexemes) : index < t.holeCount :=
  List.mem_range.1 ((holeIndices_sublist h).subset hindex)

end Template

end Order

end ShellTemplate
