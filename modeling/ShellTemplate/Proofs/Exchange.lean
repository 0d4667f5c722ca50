import ShellTemplate.Proofs.Assignment

/-!
# Exchanging the texts

Two templates that differ only in the texts in their holes fail with the same
error or describe pipelines of the same shape. A duplication reads a number from
its target, so no text may stand there.
-/

namespace ShellTemplate

/-- Two segments that only differ in the text of a hole. -/
inductive Segment.Exchange : Segment → Segment → Prop
  | literal (text : List Char) : Segment.Exchange (.literal text) (.literal text)
  | hole {value value' : Value} (h : value.Exchange value') :
      Segment.Exchange (.hole value) (.hole value')

/-- Two templates that only differ in the texts in their holes. -/
def Template.Exchange (t u : Template) : Prop :=
  List.Forall₂ Segment.Exchange t.segments u.segments

/-- No text stands in the target of a duplication. -/
def Template.FixedDuplications (t : Template) (options : FillOptions) : Prop :=
  ∀ lexemes filled, t.lexemes = .ok lexemes → outline options t.holes lexemes = .ok filled →
    ∀ r target, r.kind.isDuplication = true →
      [.operator (.redirect r), .word target] <:+: outlineParts filled → Filled target

/-- Two words that are read alike: the same static texts and hole texts in the same order. -/
structure Word.SameShape (t u : Template) (w w' : Word) : Prop where
  expands : w.expands = w'.expands
  assignment : w.isAssignment = w'.isAssignment
  value : ∃ fragments : List Fragment, w.value = fragments.flatMap (Fragment.text (textAt t.holes)) ∧
    w'.value = fragments.flatMap (Fragment.text (textAt u.holes))

namespace Template.Exchange

variable {t u : Template}

theorem symbols_eq (h : t.Exchange u) : t.symbols = u.symbols := by
  have hfrom : ∀ {xs ys : List Segment}, List.Forall₂ Segment.Exchange xs ys →
      ∀ next, symbolsFrom next xs = symbolsFrom next ys := by
    intro xs ys hxs
    induction hxs with
    | nil => exact fun _ ↦ rfl
    | cons hhead _ ih =>
        intro next
        cases hhead with
        | literal text => simp only [symbolsFrom, ih]
        | hole _ => simp only [symbolsFrom, ih]
  exact hfrom h 0

theorem lexemes_eq (h : t.Exchange u) : t.lexemes = u.lexemes := by
  rw [Template.lexemes, Template.lexemes, Template.items, Template.items, h.symbols_eq]

theorem holes (h : t.Exchange u) : List.Forall₂ Value.Exchange t.holes u.holes := by
  have hfilter : ∀ {xs ys : List Segment}, List.Forall₂ Segment.Exchange xs ys →
      List.Forall₂ Value.Exchange (Template.holes ⟨xs⟩) (Template.holes ⟨ys⟩) := by
    intro xs ys hxs
    induction hxs with
    | nil => exact .nil
    | cons hhead _ ih =>
        cases hhead with
        | literal text => exact ih
        | hole hvalue => exact .cons hvalue ih
  exact hfilter h

end Template.Exchange

theorem isHole_of_mem_plug {texts : Nat → List Char} {filled : List Lexeme} :
    ∀ token ∈ filled.map (Lexeme.plug texts), token.isHole = false := by
  intro token htoken
  obtain ⟨lexeme, _, rfl⟩ := List.mem_map.1 htoken
  exact lexeme.isHole_plug

/-- The parts that the outline of a template becomes. -/
theorem finish_plug_outline (texts : Nat → List Char) (filled : List Lexeme) :
    (Assembly.addAll {} (filled.map (Lexeme.plug texts))).finish =
      (outlineParts filled).map (OutlinePart.plug texts) :=
  @finish_plug texts [] filled

section Outline

variable {t u : Template} {options : FillOptions} {lexemes filled : List Lexeme}

/-- The answers of the words of one outline do not depend on the texts. -/
theorem forall₂_plug (h : t.Exchange u) (hlex : t.lexemes = .ok lexemes)
    (hfilled : outline options t.holes lexemes = .ok filled) :
    List.Forall₂ (Part.Alike fun w w' ↦ w.isAssignment = w'.isAssignment)
      ((outlineParts filled).map (OutlinePart.plug (textAt t.holes)))
      ((outlineParts filled).map (OutlinePart.plug (textAt u.holes))) := by
  have hfill : fill options t.holes lexemes =
      .ok (filled.map (Lexeme.plug (textAt t.holes))) := by
    rw [fill_eq_outline, hfilled]
    rfl
  have hfill' : fill options u.holes lexemes =
      .ok (filled.map (Lexeme.plug (textAt u.holes))) := by
    rw [fill_eq_outline, ← outline_exchange h.holes, hfilled]
    rfl
  rw [← finish_plug_outline, ← finish_plug_outline]
  obtain ⟨out, final, hscan, hfinish, rfl⟩ := scanAll_eq_ok_iff.1 hlex
  obtain ⟨first, hfirst, heq⟩ := (Filled.finish hfinish).fill_end_iff.1 hfill
  obtain ⟨first', hfirst', heq'⟩ := (Filled.finish hfinish).fill_end_iff.1 hfill'
  rw [heq, heq', Assembly.addAll_append, Assembly.addAll_append]
  have hstart : Scanner.Pair (({} : Scanner).frames ≠ []) ({} : Scanner).core {} {} :=
    ⟨⟨.nil, rfl, .same rfl⟩, fun hne ↦ absurd rfl hne⟩
  have hkin := (scans_of_scan hscan).kin h.holes Scanner.sound_empty hstart hfirst hfirst'
  exact (hkin.addAll _).finish

theorem partsAlike_plug (h : t.Exchange u) (hdup : t.FixedDuplications options)
    (hlex : t.lexemes = .ok lexemes) (hfilled : outline options t.holes lexemes = .ok filled) :
    PartialPipeline.PartsAlike (Word.SameShape t u)
      ((outlineParts filled).map (OutlinePart.plug (textAt t.holes)))
      ((outlineParts filled).map (OutlinePart.plug (textAt u.holes))) where
  forall₂ := by
    have hanswers := forall₂_plug h hlex hfilled
    rw [List.forall₂_map_left_iff, List.forall₂_map_right_iff, List.forall₂_same] at hanswers ⊢
    intro part hpart
    have hanswer := hanswers part hpart
    cases part with
    | operator op => exact .operator op
    | word target =>
        cases hanswer with
        | word hassign =>
            exact .word ⟨expands_wordOf _ _ target, hassign, target.map Lexeme.fragment,
              value_wordOf _ target, value_wordOf _ target⟩
  number := by
    intro r w w' hr hpair
    rw [List.zip_map', List.infix_map_iff] at hpair
    obtain ⟨parts, hparts, heq⟩ := hpair
    obtain ⟨first, rest, rfl, hfirst, hrest⟩ := List.map_eq_cons_iff.1 heq.symm
    obtain ⟨second, rest, rfl, hsecond, hnil⟩ := List.map_eq_cons_iff.1 hrest
    obtain rfl := List.map_eq_nil_iff.1 hnil
    obtain ⟨hop, -⟩ := Prod.mk.inj hfirst
    obtain ⟨hw, hw'⟩ := Prod.mk.inj hsecond
    cases first with
    | word _ => cases hop
    | operator op =>
        cases hop
        cases second with
        | operator _ => cases hw
        | word target =>
            have hfixed := hdup lexemes filled hlex hfilled r target hr hparts
            cases hw
            cases hw'
            rw [wordOf_of_filled hfixed (textAt u.holes) (textAt t.holes)]
            exact ⟨rfl, rfl⟩

end Outline

/-- Exchanging texts keeps the error or the shape of the pipeline. -/
theorem compile_exchange {t u : Template} (h : t.Exchange u) {options : FillOptions}
    (hdup : t.FixedDuplications options) :
    SameOutcome (fun p q ↦ List.Forall₂ (Stage.Alike (Word.SameShape t u)) p.stages q.stages)
      (t.compile options) (u.compile options) := by
  unfold Template.compile Template.tokens
  rw [← h.lexemes_eq]
  cases hlex : t.lexemes with
  | error e => exact .error _
  | ok lexemes =>
      change SameOutcome _
        ((fill options t.holes lexemes).mapError CompileError.ofFilling >>= _)
        ((fill options u.holes lexemes).mapError CompileError.ofFilling >>= _)
      rw [fill_eq_outline, fill_eq_outline, ← outline_exchange h.holes]
      cases hfilled : outline options t.holes lexemes with
      | error e => exact .error _
      | ok filled =>
          have hassemble : ∀ texts : Nat → List Char,
              assemble (filled.map (Lexeme.plug texts)) =
                .ok ((outlineParts filled).map (OutlinePart.plug texts)) := fun texts ↦
            assemble_eq_ok_iff.2 ⟨isHole_of_mem_plug, finish_plug_outline texts filled⟩
          have hstages := stagesOfParts_alike (partsAlike_plug h hdup hlex hfilled)
          change SameOutcome _ ((parse (filled.map _)).mapError CompileError.parse)
            ((parse (filled.map _)).mapError CompileError.parse)
          refine SameOutcome.mapError ?_
          unfold parse
          rw [hassemble, hassemble]
          exact hstages.bind fun _ _ hboth ↦ .ok hboth

/-- A command whose standard error goes where its output goes, with this text as an argument. -/
def mergedErrors (text : List Char) : Template :=
  ⟨[.literal "ls ".toList, .hole (.str text), .literal " 2>&1".toList]⟩

theorem compile_exchange_mergedErrors :
    (mergedErrors "-l".toList).Exchange (mergedErrors "; rm".toList) ∧
      (mergedErrors "-l".toList).FixedDuplications {} ∧
      SameOutcome (fun p q ↦ List.Forall₂ (Stage.Alike (Word.SameShape (mergedErrors "-l".toList)
          (mergedErrors "; rm".toList))) p.stages q.stages)
        ((mergedErrors "-l".toList).compile {}) ((mergedErrors "; rm".toList).compile {}) := by
  have hexchange : (mergedErrors "-l".toList).Exchange (mergedErrors "; rm".toList) :=
    .cons (.literal _) (.cons (.hole (.text rfl rfl)) (.cons (.literal _) .nil))
  have hfixed : (mergedErrors "-l".toList).FixedDuplications {} := by
    intro lexemes filled hlex hfilled r target _ hpair
    have hlexemes : (mergedErrors "-l".toList).lexemes =
        .ok [⟨.piece ⟨['l', 's'], ['l', 's'], false⟩, .bare, {}⟩, ⟨.blank, .bare, {}⟩,
          ⟨.hole 0, .bare, {}⟩, ⟨.blank, .bare, {}⟩,
          ⟨.operator (.redirect ⟨some 2, .dupOut⟩), .bare, {}⟩,
          ⟨.piece ⟨['1'], ['1'], false⟩, .bare, {}⟩] := by decide +kernel
    rw [hlexemes] at hlex
    cases hlex
    cases hfilled
    simp [outlineParts, outlinePartsFrom, outlineWord, List.infix_cons_iff] at hpair
    simp [hpair]
  exact ⟨hexchange, hfixed, compile_exchange hexchange hfixed⟩

end ShellTemplate
