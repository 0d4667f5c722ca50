import Mathlib.Data.List.DropRight
import ShellTemplate.Proofs.HoleNumbers

/-!
# What a hole depends on

Up to a hole the lexemes are decided by the text before it. A backtick body that is open at the hole
is cut from everything that follows and scanned as a whole, yet what it reports up to the hole is
again decided by the text before.
-/

namespace ShellTemplate

open Scanner

/-- A hole with a number of at most `n`. -/
def Lexeme.isHoleUpTo (n : Nat) (lexeme : Lexeme) : Bool := lexeme.token.hole?.any (· ≤ n)

/-- The lexemes up to the last hole with a number of at most `n`. -/
def throughHole (n : Nat) (lexemes : List Lexeme) : List Lexeme :=
  lexemes.rdropWhile fun lexeme ↦ !lexeme.isHoleUpTo n

/-- Every hole among the lexemes has a number above `n`. -/
def HolesAbove (n : Nat) (lexemes : List Lexeme) : Prop := ∀ index ∈ holeIndices lexemes, n < index

namespace HolesAbove

variable {n : Nat} {lexemes more : List Lexeme}

theorem append_iff :
    HolesAbove n (lexemes ++ more) ↔ HolesAbove n lexemes ∧ HolesAbove n more := by
  rw [HolesAbove, holeIndices_append, List.forall_mem_append]
  rfl

theorem of_filled (h : Filled lexemes) : HolesAbove n lexemes := by
  simp [HolesAbove, h.holeIndices_eq_nil]

theorem of_scan {scope : Scope} {s : Scanner} {items : List Item} {out : Step}
    (h : scan scope s items = .ok out) (hitems : ∀ index ∈ holesOf items, n < index) :
    HolesAbove n out.2 :=
  fun index hindex ↦ hitems index ((scans_of_scan h).holeIndices_sublist.subset hindex)

theorem spliceLexemes (h : HolesAbove n lexemes) (scope : Scope) (s : Scanner) :
    HolesAbove n (s.spliceLexemes scope lexemes).2 := by
  rwa [HolesAbove, holeIndices_spliceLexemes]

theorem isHoleUpTo_eq_false (h : HolesAbove n lexemes) :
    ∀ lexeme ∈ lexemes, lexeme.isHoleUpTo n = false := by
  intro lexeme hlexeme
  cases hhole : lexeme.token.hole? with
  | none => simp [Lexeme.isHoleUpTo, hhole]
  | some index =>
      have hindex : n < index := h index (List.mem_filterMap.2 ⟨lexeme, hlexeme, hhole⟩)
      simp [Lexeme.isHoleUpTo, hhole, hindex]

theorem throughHole_append (h : HolesAbove n more) :
    throughHole n (lexemes ++ more) = throughHole n lexemes := by
  rw [throughHole, throughHole, List.rdropWhile, List.rdropWhile, List.reverse_append,
    List.dropWhile_append_of_pos]
  intro lexeme hlexeme
  rw [h.isHoleUpTo_eq_false lexeme (List.mem_reverse.1 hlexeme), Bool.not_false]

end HolesAbove

/-- Two lists of lexemes agree up to their last hole with a number of at most `n`. -/
inductive AgreeUpTo (n : Nat) : List Lexeme → List Lexeme → Prop
  | intro (common : List Lexeme) {tail tail' : List Lexeme} (above : HolesAbove n tail)
      (above' : HolesAbove n tail') : AgreeUpTo n (common ++ tail) (common ++ tail')

namespace AgreeUpTo

variable {n : Nat} {lexemes lexemes' : List Lexeme}

theorem before (h : AgreeUpTo n lexemes lexemes') (first : List Lexeme) :
    AgreeUpTo n (first ++ lexemes) (first ++ lexemes') := by
  cases h with
  | intro common above above' =>
      rw [← List.append_assoc, ← List.append_assoc]
      exact .intro (first ++ common) above above'

theorem behind (h : AgreeUpTo n lexemes lexemes') {last last' : List Lexeme}
    (hlast : HolesAbove n last) (hlast' : HolesAbove n last') :
    AgreeUpTo n (lexemes ++ last) (lexemes' ++ last') := by
  cases h with
  | intro common above above' =>
      rw [List.append_assoc, List.append_assoc]
      exact .intro common (HolesAbove.append_iff.2 ⟨above, hlast⟩)
        (HolesAbove.append_iff.2 ⟨above', hlast'⟩)

theorem spliceLexemes (h : AgreeUpTo n lexemes lexemes') (scope : Scope) (s : Scanner) :
    AgreeUpTo n (s.spliceLexemes scope lexemes).2 (s.spliceLexemes scope lexemes').2 := by
  cases h with
  | intro common above above' =>
      rw [spliceLexemes_append, spliceLexemes_append]
      exact .intro _ (above.spliceLexemes scope _) (above'.spliceLexemes scope _)

/-- The splice of a body keeps the agreement of what the body reports. -/
theorem stepBody (h : AgreeUpTo n lexemes lexemes') (scope : Scope) (s : Scanner) :
    AgreeUpTo n (s.stepBody scope lexemes).2 (s.stepBody scope lexemes').2 := by
  have hsplice := h.spliceLexemes scope
    (((s.settleBefore scope '\x60').1.pushSyntax scope '\x60').markExpands)
  simp only [Scanner.stepBody, spliceBody, Step.andThen_snd, List.append_nil]
  exact hsplice.before _

theorem throughHole_eq (h : AgreeUpTo n lexemes lexemes') :
    throughHole n lexemes = throughHole n lexemes' := by
  cases h with
  | intro common above above' => rw [above.throughHole_append, above'.throughHole_append]

theorem filter_eq (h : AgreeUpTo n lexemes lexemes') :
    lexemes.filter (Lexeme.isHoleUpTo n) = lexemes'.filter (Lexeme.isHoleUpTo n) := by
  cases h with
  | @intro common tail tail' above above' =>
      have hnone : ∀ lexemes, HolesAbove n lexemes → lexemes.filter (Lexeme.isHoleUpTo n) = [] := by
        intro lexemes h
        simpa [List.filter_eq_nil_iff] using h.isHoleUpTo_eq_false
      rw [List.filter_append, List.filter_append, hnone tail above, hnone tail' above']

end AgreeUpTo

/-- Two texts that agree up to a hole, with later holes behind it, give the same lexemes up to that
hole. -/
theorem agreeUpTo_of_scan {scope : Scope} {s : Scanner} {front rest rest' : List Item}
    {n place : Nat} {out out' : Step}
    (h : scan scope s (front ++ ⟨.hole n, place⟩ :: rest) = .ok out)
    (h' : scan scope s (front ++ ⟨.hole n, place⟩ :: rest') = .ok out')
    (hrest : ∀ index ∈ holesOf rest, n < index) (hrest' : ∀ index ∈ holesOf rest', n < index) :
    AgreeUpTo n out.2 out'.2 := by
  induction scope, s, front using front_induction generalizing rest rest' out out' with
  | nil scope s =>
      rw [List.nil_append, scan_hole] at h h'
      obtain ⟨after, hafter, rfl⟩ := map_eq_ok_iff.1 h
      obtain ⟨after', hafter', rfl⟩ := map_eq_ok_iff.1 h'
      exact .intro _ (.of_scan hafter hrest) (.of_scan hafter' hrest')
  | hole scope s index place' front ih =>
      rw [List.cons_append, scan_hole] at h h'
      obtain ⟨after, hafter, rfl⟩ := map_eq_ok_iff.1 h
      obtain ⟨after', hafter', rfl⟩ := map_eq_ok_iff.1 h'
      exact (ih hafter hafter' hrest hrest').before _
  | char scope s c place' front hclosed ih =>
      rw [List.cons_append, scan_char _ _ hclosed] at h h'
      obtain ⟨after, hafter, rfl⟩ := map_eq_ok_iff.1 h
      obtain ⟨after', hafter', rfl⟩ := map_eq_ok_iff.1 h'
      exact (ih hafter hafter' hrest hrest').before _
  | closed scope s c place' front body behind hopen hcut ih =>
      rw [List.cons_append, scan_body _ _ hopen (cutBody_append hcut _)] at h h'
      obtain ⟨lexemes, hinner, h⟩ := bind_eq_ok_iff.1 h
      obtain ⟨lexemes', hinner', h'⟩ := bind_eq_ok_iff.1 h'
      obtain rfl : lexemes = lexemes' := Except.ok.inj (hinner.symm.trans hinner')
      obtain ⟨after, hafter, rfl⟩ := map_eq_ok_iff.1 h
      obtain ⟨after', hafter', rfl⟩ := map_eq_ok_iff.1 h'
      exact (ih lexemes hafter hafter' hrest hrest').before _
  | opened scope s c place' front hopen hcut ih =>
      -- The two bodies end in different places, so they differ behind the hole.
      obtain ⟨body, behind, inner, final, after, hcutRest, hinner, hfinish, hafter, rfl⟩ :=
        exists_of_scan_openBody hopen hcut h
      obtain ⟨body', behind', inner', final', after', hcutRest', hinner', hfinish', hafter', rfl⟩ :=
        exists_of_scan_openBody hopen hcut h'
      rw [holesOf_cutBody hcutRest, List.forall_mem_append] at hrest
      rw [holesOf_cutBody hcutRest', List.forall_mem_append] at hrest'
      have hbody : AgreeUpTo n (inner.2 ++ final) (inner'.2 ++ final') :=
        (ih hinner hinner' hrest.1 hrest'.1).behind (.of_filled (.finish hfinish))
          (.of_filled (.finish hfinish'))
      exact (hbody.stepBody scope s).behind (.of_scan hafter hrest.2) (.of_scan hafter' hrest'.2)

/-- The lexemes of a template up to a hole depend on nothing behind it, so neither does the way in
which a value is escaped there. -/
theorem throughHole_lexemes_eq (before more more' : List Segment) (value : Value)
    {lexemes lexemes' : List Lexeme}
    (h : Template.lexemes ⟨before ++ .hole value :: more⟩ = .ok lexemes)
    (h' : Template.lexemes ⟨before ++ .hole value :: more'⟩ = .ok lexemes') :
    lexemes.filter (Lexeme.isHoleUpTo (Template.holeCount ⟨before⟩)) =
        lexemes'.filter (Lexeme.isHoleUpTo (Template.holeCount ⟨before⟩)) ∧
      throughHole (Template.holeCount ⟨before⟩) lexemes =
        throughHole (Template.holeCount ⟨before⟩) lexemes' := by
  set n := Template.holeCount ⟨before⟩
  have hitems : ∀ behind, unplaced (Template.symbols ⟨before ++ .hole value :: behind⟩) =
      unplaced (symbolsFrom 0 before) ++
        ⟨.hole n, 0⟩ :: unplaced (symbolsFrom (n + 1) behind) := by
    intro behind
    rw [Template.symbols, symbolsFrom_append, Nat.zero_add, symbolsFrom, unplaced, List.map_append]
    rfl
  have hlater : ∀ behind, ∀ index ∈ holesOf (unplaced (symbolsFrom (n + 1) behind)),
      n < index := by
    intro behind index hindex
    rw [holesOf_unplaced, filterMap_hole?_symbolsFrom, List.mem_range'_1] at hindex
    exact hindex.1
  rw [Template.lexemes_eq_ok_iff, hitems] at h h'
  obtain ⟨out, final, hscan, hfinish, rfl⟩ := scanAll_eq_ok_iff.1 h
  obtain ⟨out', final', hscan', hfinish', rfl⟩ := scanAll_eq_ok_iff.1 h'
  have hagree : AgreeUpTo n (out.2 ++ final) (out'.2 ++ final') :=
    (agreeUpTo_of_scan hscan hscan' (hlater more) (hlater more')).behind
      (.of_filled (.finish hfinish)) (.of_filled (.finish hfinish'))
  exact ⟨hagree.filter_eq, hagree.throughHole_eq⟩

/-- Single quotes that are open in a body that is open. -/
def openQuote : List Segment := [.literal "echo `cat '".toList]

def throughOpenQuote : List Lexeme :=
  [⟨.piece ⟨"echo".toList, "echo".toList, false⟩, .bare, {}⟩, ⟨.blank, .bare, {}⟩,
    ⟨.piece ⟨"`cat '".toList, [], true⟩, .bare, {}⟩, ⟨.hole 0, .single, ⟨1, false, false⟩⟩]

theorem throughHole_lexemes_eq_openQuote :
    ∃ piped chained,
      Template.lexemes ⟨openQuote ++ .hole (.str ['a']) :: [.literal "' | wc` # x".toList]⟩ =
        .ok (throughOpenQuote ++ piped) ∧
      Template.lexemes ⟨openQuote ++ .hole (.str ['a']) ::
        [.literal "'`;".toList, .hole (.str ['b'])]⟩ = .ok (throughOpenQuote ++ chained) ∧
      piped ≠ chained ∧ throughHole 0 (throughOpenQuote ++ piped) =
        throughHole 0 (throughOpenQuote ++ chained) := by
  have hpiped : Template.lexemes ⟨openQuote ++ .hole (.str ['a']) ::
      [.literal "' | wc` # x".toList]⟩ = .ok (throughOpenQuote ++
        [⟨.piece ⟨"' | wc`".toList, [], false⟩, .bare, {}⟩, ⟨.blank, .bare, {}⟩]) := by
    decide +kernel
  have hchained : Template.lexemes ⟨openQuote ++ .hole (.str ['a']) ::
      [.literal "'`;".toList, .hole (.str ['b'])]⟩ = .ok (throughOpenQuote ++
        [⟨.piece ⟨"'`".toList, [], false⟩, .bare, {}⟩, ⟨.operator .semicolon, .bare, {}⟩,
          ⟨.hole 1, .bare, {}⟩]) := by
    decide +kernel
  exact ⟨_, _, hpiped, hchained, by decide,
    (throughHole_lexemes_eq openQuote _ _ _ hpiped hchained).2⟩

end ShellTemplate
