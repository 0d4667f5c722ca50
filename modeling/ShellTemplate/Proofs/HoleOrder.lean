import Mathlib.Data.List.Nodup
import Mathlib.Data.List.Perm.Subperm
import ShellTemplate.Proofs.Comments
import ShellTemplate.Proofs.Outline
import ShellTemplate.Proofs.Stages

/-!
# Holes in order

A template's holes are reported in template order, each at most once, and only a comment skips one.
Each is filled with the tokens of its own value, so no hole is left over and no value is missing.
-/

namespace ShellTemplate

open Scanner

section Filling

variable {options : FillOptions} {values : List Value}

/-- The tokens that stand for a lexeme: itself, or those of the value of its own hole. -/
def Lexeme.Fills (options : FillOptions) (values : List Value) (lexeme : Lexeme)
    (tokens : List Token) : Prop :=
  match lexeme.token with
  | .hole index => ∃ value, values[index]? = some value ∧
      fillHole options lexeme.quoting lexeme.enclosing value = .ok tokens
  | token => tokens = [token]

theorem fill_eq_ok_iff_fills {lexemes : List Lexeme} {tokens : List Token} :
    fill options values lexemes = .ok tokens ↔
      ∃ groups, List.Forall₂ (Lexeme.Fills options values) lexemes groups ∧
        groups.flatten = tokens := by
  induction lexemes generalizing tokens with
  | nil => simp [fill, eq_comm]
  | cons lexeme rest ih =>
      obtain ⟨token, quoting, enclosing⟩ := lexeme
      cases token with
      | hole index =>
          rw [fill_hole_eq_ok_iff]
          constructor
          · rintro ⟨value, own, more, hvalue, hown, hmore, rfl⟩
            obtain ⟨groups, hgroups, rfl⟩ := ih.1 hmore
            exact ⟨own :: groups, .cons ⟨value, hvalue, hown⟩ hgroups, rfl⟩
          · rintro ⟨_, hgroups, rfl⟩
            cases hgroups with
            | cons hfirst hrest =>
                obtain ⟨value, hvalue, hown⟩ := hfirst
                exact ⟨value, _, _, hvalue, hown, ih.2 ⟨_, hrest, rfl⟩, rfl⟩
      | piece | operator | blank =>
          rw [fill_cons_of_not_hole rfl, map_eq_ok_iff]
          constructor
          · rintro ⟨more, hmore, rfl⟩
            obtain ⟨groups, hgroups, rfl⟩ := ih.1 hmore
            exact ⟨[_] :: groups, .cons rfl hgroups, rfl⟩
          · rintro ⟨_, hgroups, rfl⟩
            cases hgroups with
            | cons hfirst hrest =>
                cases hfirst
                exact ⟨_, ih.2 ⟨_, hrest, rfl⟩, rfl⟩

theorem isHole_of_mem_fillHole {quoting : Quoting} {enclosing : Enclosing} {value : Value}
    {tokens : List Token} (h : fillHole options quoting enclosing value = .ok tokens) :
    ∀ token ∈ tokens, token.isHole = false := by
  cases htext : value.literalText? with
  | none => exact isHole_of_fillHole htext h
  | some text =>
      rw [fillHole_of_text htext] at h
      split at h <;> cases h
      simp

/-- Filling leaves no hole. -/
theorem isHole_of_mem_fill {lexemes : List Lexeme} {tokens : List Token}
    (h : fill options values lexemes = .ok tokens) : ∀ token ∈ tokens, token.isHole = false := by
  obtain ⟨groups, hgroups, rfl⟩ := fill_eq_ok_iff_fills.1 h
  clear h
  induction hgroups with
  | nil => simp
  | @cons lexeme own rest groups hown _ ih =>
      rw [List.flatten_cons, List.forall_mem_append]
      refine ⟨?_, ih⟩
      obtain ⟨token, quoting, enclosing⟩ := lexeme
      cases token with
      | hole index =>
          obtain ⟨value, -, hfill⟩ := hown
          exact isHole_of_mem_fillHole hfill
      | piece | operator | blank =>
          cases hown
          simp

theorem fillHole_ne_missingValue (quoting : Quoting) (enclosing : Enclosing) (value : Value)
    (index : Nat) :
    fillHole options quoting enclosing value ≠ .error (.fill (.missingValue index)) := by
  have hpieces : value.pieces options quoting enclosing ≠ .error (.missingValue index) := by
    unfold Value.pieces
    split
    · simp
    · split <;> (try split_ifs) <;> simp
  intro h
  cases value with
  | raw text =>
      simp only [fillHole] at h
      split_ifs at h
      · obtain ⟨e, -, he⟩ := mapError_eq_error_iff.1 h
        cases he
      · cases h
  | str | scalar | list | joined =>
      obtain ⟨e, he, hfill⟩ := mapError_eq_error_iff.1 h
      cases hfill
      exact hpieces (map_eq_error_iff.1 he)

/-- A value is only missing for a hole that the lexemes report. -/
theorem fill_ne_missingValue {lexemes : List Lexeme}
    (h : ∀ index ∈ holeIndices lexemes, index < values.length) (index : Nat) :
    fill options values lexemes ≠ .error (.fill (.missingValue index)) := by
  induction lexemes with
  | nil => simp [fill]
  | cons lexeme rest ih =>
      obtain ⟨token, quoting, enclosing⟩ := lexeme
      cases token with
      | hole own =>
          obtain ⟨hown, hrest⟩ := List.forall_mem_cons.1 h
          have hvalue : values[own]? = some values[own] := List.getElem?_eq_getElem hown
          intro herror
          simp only [fill, hvalue, bind_eq_error_iff] at herror
          rcases herror with heq | ⟨value, -, heq | ⟨tokens, -, heq | ⟨more, -, heq⟩⟩⟩
          · cases heq
          · exact fillHole_ne_missingValue quoting enclosing value index heq
          · exact ih hrest heq
          · cases heq
      | piece | operator | blank =>
          rw [fill_cons_of_not_hole rfl]
          exact fun heq ↦ ih h (map_eq_error_iff.1 heq)

end Filling

namespace PartialPipeline

variable {p : PartialPipeline}

theorem close_ne_unfilledHole (op : Option Operator) (index : Nat) :
    p.close op ≠ .error (.unfilledHole index) := by
  unfold close
  split_ifs
  · cases op <;> exact nofun
  · exact nofun
  · exact nofun

theorem apply_ne_unfilledHole (redirects : Redirects) (r : Redirect) (target : Word) (index : Nat) :
    redirects.apply r target ≠ .error (.unfilledHole index) := by
  unfold Redirects.apply
  cases r.kind with
  | out | append | input => exact nofun
  | dupOut | dupIn => cases duplicated? target <;> exact nofun

theorem step_ne_unfilledHole (part : Part) (rest : List Part) (index : Nat) :
    p.step part rest ≠ .error (.unfilledHole index) := by
  intro h
  cases part with
  | word w =>
      simp only [step] at h
      split_ifs at h
      cases h
  | operator op =>
      cases op with
      | redirect r =>
          simp only [step] at h
          split_ifs at h
          · cases h
          · split at h
            · exact apply_ne_unfilledHole _ _ _ index (map_eq_error_iff.1 h)
            · cases h
      | pipe =>
          simp only [step] at h
          split_ifs at h
          · cases h
          · exact close_ne_unfilledHole _ index (map_eq_error_iff.1 h)
      | semicolon | newline =>
          simp only [step] at h
          split_ifs at h
          exact close_ne_unfilledHole _ index (map_eq_error_iff.1 h)
      | background | and | or | openParen | closeParen => cases h

/-- Reading parts names no hole. -/
theorem read_ne_unfilledHole (parts : List Part) (index : Nat) :
    p.read parts ≠ .error (.unfilledHole index) := by
  induction hn : parts.length using Nat.strongRecOn generalizing p parts with
  | ind n ih =>
    subst hn
    cases parts with
    | nil =>
        rw [read]
        split_ifs
        · simp
        · exact fun heq ↦ close_ne_unfilledHole none index (map_eq_error_iff.1 heq)
    | cons part rest =>
        rw [read_cons, ne_eq, bind_eq_error_iff]
        rintro (hstep | ⟨next, hstep, hread⟩)
        · exact step_ne_unfilledHole part rest index hstep
        · exact ih next.2.length (step_length hstep) next.2 rfl hread

end PartialPipeline

namespace Template

variable {t : Template} {options : FillOptions}

/-- A hole is reported iff no comment skips it. -/
theorem mem_holeIndices_iff {lexemes : List Lexeme} (h : t.lexemes = .ok lexemes)
    {front behind : List Item} {index place : Nat}
    (hitems : t.items = front ++ ⟨.hole index, place⟩ :: behind) :
    index ∈ holeIndices lexemes ↔ ¬ Commented {} front := by
  obtain ⟨out, final, hscan, hfinish, rfl⟩ := scanAll_eq_ok_iff.1 h
  rw [hitems] at hscan
  rw [holeIndices_append, (Filled.finish hfinish).holeIndices_eq_nil, List.append_nil]
  refine ⟨fun hmem hcommented ↦ ?_, fun hfront ↦ mem_holeIndices_of_not_commented hfront hscan⟩
  have hnodup : (holesOf t.items).Nodup := t.holesOf_items ▸ List.nodup_range
  have hother := (hcommented.skips hscan).subset hmem
  rw [hitems, holesOf_append] at hnodup
  exact (List.nodup_cons.1 (List.perm_middle.nodup_iff.1 hnodup)).1 hother

/-- Without a `#` no hole is skipped. -/
theorem holeIndices_eq_range {lexemes : List Lexeme} (h : t.lexemes = .ok lexemes)
    (hhash : .char '#' ∉ t.symbols) : holeIndices lexemes = List.range t.holeCount := by
  have hsub : List.range t.holeCount ⊆ holeIndices lexemes := by
    intro index hindex
    rw [← t.holesOf_items, holesOf, List.mem_filterMap] at hindex
    obtain ⟨⟨symbol, place⟩, hitem, hhole⟩ := hindex
    obtain ⟨front, behind, hitems⟩ := List.append_of_mem hitem
    cases symbol with
    | char c => cases hhole
    | hole own =>
        cases hhole
        refine (mem_holeIndices_iff h hitems).2 fun hcommented ↦ hhash ?_
        rw [← symbol_placeFrom 0 t.symbols]
        change .char '#' ∈ t.items.map Item.symbol
        rw [hitems, List.map_append]
        exact List.mem_append_left _ hcommented.hash_mem
  exact (holeIndices_sublist h).eq_of_length_le (List.nodup_range.subperm hsub).length_le

/-- Compiling never misses the value of a hole. -/
theorem compile_ne_missingValue (index : Nat) :
    t.compile options ≠ .error (.fill (.missingValue index)) := by
  intro h
  rcases bind_eq_error_iff.1 h with htokens | ⟨tokens, -, hparse⟩
  · rcases bind_eq_error_iff.1 htokens with hlex | ⟨lexemes, hlex, hfill⟩
    · obtain ⟨e, -, he⟩ := mapError_eq_error_iff.1 hlex
      cases he
    · obtain ⟨e, hfill, he⟩ := mapError_eq_error_iff.1 hfill
      cases e with
      | lex e => cases he
      | fill e =>
          cases he
          exact fill_ne_missingValue (fun own hown ↦
            lt_holeCount_of_mem (mapError_eq_ok_iff.1 hlex) hown) index hfill
  · obtain ⟨e, -, he⟩ := mapError_eq_error_iff.1 hparse
    cases he

theorem compile_ne_unfilledHole (index : Nat) :
    t.compile options ≠ .error (.parse (.unfilledHole index)) := by
  intro h
  rcases bind_eq_error_iff.1 h with htokens | ⟨tokens, htokens, hparse⟩
  · rcases bind_eq_error_iff.1 htokens with hlex | ⟨lexemes, -, hfill⟩
    · obtain ⟨e, -, he⟩ := mapError_eq_error_iff.1 hlex
      cases he
    · obtain ⟨e, -, he⟩ := mapError_eq_error_iff.1 hfill
      cases e <;> cases he
  · obtain ⟨e, hparse, he⟩ := mapError_eq_error_iff.1 hparse
    cases he
    obtain ⟨lexemes, -, hfill⟩ := tokens_eq_ok_iff.1 htokens
    have hassemble := assemble_eq_ok_iff.2 ⟨isHole_of_mem_fill hfill, rfl⟩
    rw [parse, hassemble] at hparse
    rcases bind_eq_error_iff.1 hparse with hread | ⟨parts, heq, hread⟩
    · cases hread
    · rcases bind_eq_error_iff.1 hread with hstages | ⟨stages, -, hdone⟩
      · exact PartialPipeline.read_ne_unfilledHole parts index hstages
      · cases hdone

end Template

/-- Lexemes report the holes of a template in order, all but those in comments. Each stands for the
tokens of its own value, so that compiling neither misses a value nor finds a hole unfilled. -/
theorem holes_in_order (t : Template) (options : FillOptions) :
    (∀ lexemes, t.lexemes = .ok lexemes →
      (holeIndices lexemes).Pairwise (· < ·) ∧
      (∀ index ∈ holeIndices lexemes, index < t.holeCount) ∧
      (∀ front index place behind, t.items = front ++ ⟨.hole index, place⟩ :: behind →
        (index ∈ holeIndices lexemes ↔ ¬ Commented {} front)) ∧
      (.char '#' ∉ t.symbols → holeIndices lexemes = List.range t.holeCount) ∧
      ∀ tokens, t.tokens options = .ok tokens →
        (∀ token ∈ tokens, token.isHole = false) ∧
        ∃ groups, List.Forall₂ (Lexeme.Fills options t.holes) lexemes groups ∧
          groups.flatten = tokens) ∧
    ∀ index, t.compile options ≠ .error (.fill (.missingValue index)) ∧
      t.compile options ≠ .error (.parse (.unfilledHole index)) := by
  refine ⟨fun lexemes hlex ↦
    ⟨?_, fun index ↦ Template.lt_holeCount_of_mem hlex, ?_, ?_, ?_⟩, fun index ↦
    ⟨Template.compile_ne_missingValue index, Template.compile_ne_unfilledHole index⟩⟩
  · exact List.pairwise_lt_range.sublist (Template.holeIndices_sublist hlex)
  · exact fun front index place behind ↦ Template.mem_holeIndices_iff hlex
  · exact Template.holeIndices_eq_range hlex
  · intro tokens htokens
    obtain ⟨lexemes', hlex', hfill⟩ := tokens_eq_ok_iff.1 htokens
    obtain rfl : lexemes = lexemes' := Except.ok.inj (hlex.symm.trans hlex')
    exact ⟨isHole_of_mem_fill hfill, fill_eq_ok_iff_fills.1 hfill⟩

/-- A body with a list, a hole in a comment and a hole on the line behind it. Behind the body two
`#` that start no comment stand before a hole, and one that starts one before the last. -/
def commentedBody : Template :=
  ⟨[.literal "echo `cat ".toList, .hole (.list [['a'], ['b']]), .literal " # ".toList,
    .hole (.str ['c']), .literal "\nwc ".toList, .hole (.str "it's".toList),
    .literal "` $# a#".toList, .hole (.str ['d']), .literal " # ".toList, .hole (.str ['e'])]⟩

def commentedBodyLexemes : List Lexeme :=
  [⟨.piece ⟨"echo".toList, "echo".toList, false⟩, .bare, {}⟩, ⟨.blank, .bare, {}⟩,
    ⟨.piece ⟨"`cat ".toList, [], true⟩, .bare, {}⟩,
    ⟨.hole 0, .substitution 1, ⟨1, false, false⟩⟩,
    ⟨.piece ⟨" \nwc ".toList, [], false⟩, .bare, {}⟩,
    ⟨.hole 2, .substitution 1, ⟨1, false, false⟩⟩,
    ⟨.piece ⟨['\x60'], [], false⟩, .bare, {}⟩, ⟨.blank, .bare, {}⟩,
    ⟨.piece ⟨"$#".toList, "$#".toList, true⟩, .bare, {}⟩, ⟨.blank, .bare, {}⟩,
    ⟨.piece ⟨"a#".toList, "a#".toList, false⟩, .bare, {}⟩, ⟨.hole 3, .bare, {}⟩,
    ⟨.blank, .bare, {}⟩]

def commentedBodyTokens : List Token :=
  [.piece ⟨"echo".toList, "echo".toList, false⟩, .blank,
    .piece ⟨"`cat ".toList, [], true⟩, .piece ⟨"'a'".toList, ['a'], false⟩, .blank,
    .piece ⟨"'b'".toList, ['b'], false⟩, .piece ⟨" \nwc ".toList, [], false⟩,
    .piece ⟨"'it'\\\\''s'".toList, "it's".toList, false⟩, .piece ⟨['\x60'], [], false⟩, .blank,
    .piece ⟨"$#".toList, "$#".toList, true⟩, .blank, .piece ⟨"a#".toList, "a#".toList, false⟩,
    .piece ⟨"'d'".toList, ['d'], false⟩, .blank]

/-- The comments skip the second hole and the last, and no other. -/
theorem holes_in_order_commentedBody :
    commentedBody.lexemes = .ok commentedBodyLexemes ∧ commentedBody.holeCount = 5 ∧
      holeIndices commentedBodyLexemes = [0, 2, 3] ∧
      (holeIndices commentedBodyLexemes).Pairwise (· < ·) ∧
      Commented {} (commentedBody.items.take 14) ∧ ¬ Commented {} (commentedBody.items.take 27) ∧
        ∃ groups, List.Forall₂ (Lexeme.Fills {} commentedBody.holes) commentedBodyLexemes groups ∧
          groups.flatten = commentedBodyTokens := by
  have hlexemes : commentedBody.lexemes = .ok commentedBodyLexemes := by decide +kernel
  have htokens : commentedBody.tokens {} = .ok commentedBodyTokens := by decide +kernel
  have hskipped : commentedBody.items = commentedBody.items.take 14 ++ ⟨.hole 1, 14⟩ ::
      commentedBody.items.drop 15 := by decide +kernel
  have hkept : commentedBody.items = commentedBody.items.take 27 ++ ⟨.hole 3, 27⟩ ::
      commentedBody.items.drop 28 := by decide +kernel
  obtain ⟨hsorted, -, hreported, -, hfills⟩ := (holes_in_order commentedBody {}).1 _ hlexemes
  refine ⟨hlexemes, rfl, rfl, hsorted, ?_, (hreported _ _ _ _ hkept).1 (by decide),
    (hfills _ htokens).2⟩
  exact not_not.1 fun hcommented ↦ absurd ((hreported _ _ _ _ hskipped).2 hcommented) (by decide)

end ShellTemplate
