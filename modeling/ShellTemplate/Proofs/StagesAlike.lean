import ShellTemplate.Proofs.Stages

/-!
# Reading parts that are alike

Parts with the same operators, whose words are related, give commands whose
words are related, or the same error. The target of a duplication is read as a
number, so there the two words must read alike as well.
-/

namespace ShellTemplate

variable {R : Word → Word → Prop}

/-- The same operator, or words that are related. -/
inductive Part.Alike (R : Word → Word → Prop) : Part → Part → Prop
  | word {w w' : Word} (h : R w w') : Part.Alike R (.word w) (.word w')
  | operator (op : Operator) : Part.Alike R (.operator op) (.operator op)

/-- The same descriptor, or files of the same mode whose paths are related. -/
inductive Target.Alike (R : Word → Word → Prop) : Target → Target → Prop
  | file {w w' : Word} (mode : FileMode) (h : R w w') : Target.Alike R (.file w mode) (.file w' mode)
  | descriptor (fd : Nat) : Target.Alike R (.descriptor fd) (.descriptor fd)

/-- The same descriptors, with targets that are alike. -/
def Redirects.Alike (R : Word → Word → Prop) : Redirects → Redirects → Prop :=
  List.Forall₂ fun entry entry' ↦ entry.1 = entry'.1 ∧ Target.Alike R entry.2 entry'.2

structure Stage.Alike (R : Word → Word → Prop) (stage stage' : Stage) : Prop where
  argv : List.Forall₂ R stage.argv stage'.argv
  redirects : Redirects.Alike R stage.redirects stage'.redirects

/-- Both words name the same descriptor, or neither names one. -/
structure Word.SameNumber (w w' : Word) : Prop where
  duplicated : duplicated? w = duplicated? w'
  value : w.value = w'.value

namespace Redirects

theorem Alike.set {redirects redirects' : Redirects} (h : Alike R redirects redirects') (fd : Nat)
    {target target' : Target} (htarget : target.Alike R target') :
    Alike R (redirects.set fd target) (redirects'.set fd target') := by
  induction h with
  | nil => exact .cons ⟨rfl, htarget⟩ .nil
  | @cons entry entry' rest rest' hentry hrest ih =>
      obtain ⟨k, t⟩ := entry
      obtain ⟨k', t'⟩ := entry'
      obtain ⟨rfl, ht⟩ : k = k' ∧ t.Alike R t' := hentry
      simp only [Redirects.set]
      split_ifs
      · exact .cons ⟨rfl, htarget⟩ (.cons ⟨rfl, ht⟩ hrest)
      · exact .cons ⟨rfl, htarget⟩ hrest
      · exact .cons ⟨rfl, ht⟩ ih

theorem Alike.get? {redirects redirects' : Redirects} (h : Alike R redirects redirects')
    (fd : Nat) : Option.Rel (Target.Alike R) (redirects.get? fd) (redirects'.get? fd) := by
  induction h with
  | nil => exact .none
  | @cons entry entry' rest rest' hentry hrest ih =>
      obtain ⟨k, t⟩ := entry
      obtain ⟨k', t'⟩ := entry'
      obtain ⟨rfl, ht⟩ : k = k' ∧ t.Alike R t' := hentry
      simp only [Redirects.get?, List.lookup_cons]
      split
      · exact .some ht
      · exact ih

theorem apply_of_isDuplication (redirects : Redirects) {r : Redirect}
    (h : r.kind.isDuplication = true) (target : Word) : redirects.apply r target =
      match duplicated? target with
      | some source =>
        .ok (redirects.set r.descriptor ((redirects.get? source).getD (.descriptor source)))
      | none => .error (.invalidDuplication (.redirect r) target.value) := by
  obtain ⟨fd, kind⟩ := r
  cases kind with
  | out | append | input => cases h
  | dupOut | dupIn => rfl

theorem Alike.apply {redirects redirects' : Redirects} (h : Alike R redirects redirects')
    (r : Redirect) {w w' : Word} (hword : R w w')
    (hnumber : r.kind.isDuplication = true → w.SameNumber w') :
    SameOutcome (Alike R) (redirects.apply r w) (redirects'.apply r w') := by
  by_cases hkind : r.kind.isDuplication = true
  · obtain ⟨hdup, hvalue⟩ := hnumber hkind
    rw [apply_of_isDuplication _ hkind, apply_of_isDuplication _ hkind, ← hdup, ← hvalue]
    cases duplicated? w with
    | none => exact .error _
    | some source =>
        refine .ok (h.set _ ?_)
        have hget := h.get? source
        generalize redirects.get? source = target at hget
        generalize redirects'.get? source = target' at hget
        cases hget with
        | none => exact .descriptor source
        | some htarget => exact htarget
  · obtain ⟨fd, kind⟩ := r
    cases kind with
    | out | append | input => exact .ok (h.set _ (.file _ hword))
    | dupOut | dupIn => exact absurd rfl hkind

end Redirects

namespace PartialPipeline

structure Alike (R : Word → Word → Prop) (p p' : PartialPipeline) : Prop where
  stages : List.Forall₂ (Stage.Alike R) p.stages p'.stages
  current : p.current.Alike R p'.current
  terminated : p.terminated = p'.terminated

variable {p p' : PartialPipeline}

theorem forall₂_isEmpty {α β : Type} {S : α → β → Prop} {xs : List α} {ys : List β}
    (h : List.Forall₂ S xs ys) : xs.isEmpty = ys.isEmpty := by
  cases h <;> rfl

theorem Alike.isFresh (h : p.Alike R p') : p.isFresh = p'.isFresh := by
  unfold PartialPipeline.isFresh
  rw [forall₂_isEmpty h.stages, forall₂_isEmpty h.current.argv, forall₂_isEmpty h.current.redirects]

theorem Alike.close (h : p.Alike R p') (op : Option Operator) :
    SameOutcome (Alike R) (p.close op) (p'.close op) := by
  unfold PartialPipeline.close
  rw [← forall₂_isEmpty h.current.argv, ← h.isFresh, ← h.stages.length_eq]
  split_ifs
  · cases op <;> exact .error _
  · exact .error _
  · exact .ok ⟨List.rel_append h.stages (.cons h.current .nil), ⟨.nil, .nil⟩, h.terminated⟩

/-- The parts behind are alike, and so are the numbers that duplications among them name. -/
structure PartsAlike (R : Word → Word → Prop) (parts parts' : List Part) : Prop where
  forall₂ : List.Forall₂ (Part.Alike R) parts parts'
  number : ∀ r w w', r.kind.isDuplication = true →
    [(.operator (.redirect r), .operator (.redirect r)), (.word w, .word w')] <:+:
      parts.zip parts' → w.SameNumber w'

theorem PartsAlike.tail {part part' : Part} {parts parts' : List Part}
    (h : PartsAlike R (part :: parts) (part' :: parts')) : PartsAlike R parts parts' where
  forall₂ := by
    cases h.forall₂ with
    | cons _ hrest => exact hrest
  number := fun r w w' hr hpair ↦
    h.number r w w' hr (hpair.trans (List.suffix_cons _ _).isInfix)

/-- What is compared after one step: the pipeline read so far and the parts behind. -/
def NextAlike (R : Word → Word → Prop) (next next' : PartialPipeline × List Part) : Prop :=
  next.1.Alike R next'.1 ∧ PartsAlike R next.2 next'.2

theorem Alike.step (h : p.Alike R p') {part part' : Part} {rest rest' : List Part}
    (hparts : PartsAlike R (part :: rest) (part' :: rest')) :
    SameOutcome (NextAlike R) (p.step part rest) (p'.step part' rest') := by
  have hrest := hparts.tail
  obtain ⟨hpart, -⟩ := List.forall₂_cons.1 hparts.forall₂
  have hterm := h.terminated
  have hclose : ∀ op (f : PartialPipeline → PartialPipeline),
      (∀ q q', q.Alike R q' → (f q).Alike R (f q')) →
      SameOutcome (NextAlike R) ((p.close op).map fun closed ↦ (f closed, rest))
        ((p'.close op).map fun closed ↦ (f closed, rest')) :=
    fun op f hf ↦ (h.close op).map fun q q' hq ↦ ⟨hf q q' hq, hrest⟩
  cases hpart with
  | word hw =>
      simp only [PartialPipeline.step, ← hterm]
      split_ifs
      · exact .error _
      · exact .ok ⟨⟨h.stages, ⟨List.rel_append h.current.argv (.cons hw .nil), h.current.redirects⟩,
          rfl⟩, hrest⟩
  | operator op =>
      cases op with
      | redirect r =>
          simp only [PartialPipeline.step, ← hterm]
          split_ifs
          · exact .error _
          · cases hrest.forall₂ with
            | nil => exact .error _
            | cons hhead _ =>
                cases hhead with
                | operator op => exact .error _
                | word hw =>
                    have hnumber := fun hr ↦
                      hparts.number r _ _ hr ⟨[], _, rfl⟩
                    refine (h.current.redirects.apply r hw hnumber).map fun _ _ hredirects ↦ ?_
                    exact ⟨⟨h.stages, ⟨h.current.argv, hredirects⟩, rfl⟩, hrest.tail⟩
      | pipe =>
          simp only [PartialPipeline.step, ← hterm]
          split_ifs
          · exact .error _
          · exact hclose _ id fun _ _ hq ↦ hq
      | semicolon =>
          simp only [PartialPipeline.step, ← hterm]
          split_ifs
          · exact .ok ⟨h, hrest⟩
          · exact hclose _ _ fun _ _ hq ↦ ⟨hq.stages, hq.current, rfl⟩
      | newline =>
          simp only [PartialPipeline.step, ← hterm, ← h.isFresh]
          split_ifs
          · exact .ok ⟨h, hrest⟩
          · exact hclose _ _ fun _ _ hq ↦ ⟨hq.stages, hq.current, rfl⟩
      | background | and | or | openParen | closeParen => exact .error _

theorem Alike.read (h : p.Alike R p') {parts parts' : List Part}
    (hparts : PartsAlike R parts parts') :
    SameOutcome (List.Forall₂ (Stage.Alike R)) (p.read parts) (p'.read parts') := by
  induction hn : parts.length using Nat.strongRecOn generalizing p p' parts parts' with
  | ind n ih =>
    subst hn
    match parts, parts', hparts with
    | [], [], _ =>
        rw [PartialPipeline.read, PartialPipeline.read, ← h.terminated]
        split_ifs
        · exact .ok h.stages
        · exact (h.close none).map fun _ _ hclosed ↦ hclosed.stages
    | [], _ :: _, hparts => cases hparts.forall₂
    | _ :: _, [], hparts => cases hparts.forall₂
    | part :: rest, part' :: rest', hparts =>
        rw [read_cons, read_cons]
        have hstep := h.step hparts
        generalize hnext : p.step part rest = next at hstep
        generalize p'.step part' rest' = next' at hstep
        cases hstep with
        | error e => exact .error e
        | ok hboth => exact ih _ (step_length hnext) hboth.1 hboth.2 rfl

end PartialPipeline

theorem stagesOfParts_alike {parts parts' : List Part}
    (h : PartialPipeline.PartsAlike R parts parts') :
    SameOutcome (List.Forall₂ (Stage.Alike R)) (stagesOfParts parts) (stagesOfParts parts') := by
  have hstart : PartialPipeline.Alike R {} {} := ⟨.nil, ⟨.nil, .nil⟩, rfl⟩
  exact hstart.read h

end ShellTemplate
