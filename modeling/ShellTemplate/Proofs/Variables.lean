import Mathlib.Data.Char
import Mathlib.Data.List.Lex
import Mathlib.Data.List.Nodup
import Mathlib.Tactic.SplitIfs
import ShellTemplate.Variables

/-!
# Variables by their names

Variables in order are a map: a name is looked up the same from either end, and two of them with the
same values are the same list. What is looked up behind setting and taking out needs no order.
-/

namespace ShellTemplate

theorem nameBefore_iff_lt {a b : List Char} : nameBefore a b = true ↔ a < b := by
  induction a generalizing b with
  | nil => cases b <;> simp [nameBefore]
  | cons c a ih =>
      cases b with
      | nil => simp [nameBefore]
      | cons d b =>
          rw [List.cons_lt_cons_iff, ← ih]
          simp only [nameBefore, Bool.or_eq_true, Bool.and_eq_true, decide_eq_true_eq]
          exact Iff.rfl

namespace Variables

/-- The names increase, so each stands once. -/
def Ordered (vars : Variables) : Prop := vars.Pairwise fun a b ↦ a.1 < b.1

instance (vars : Variables) : Decidable vars.Ordered :=
  inferInstanceAs (Decidable (vars.Pairwise fun a b ↦ a.1 < b.1))

/-- The value of the last entry with this name. -/
def last? (entries : List (List Char × List Char)) (name : List Char) : Option (List Char) :=
  entries.reverse.lookup name

variable {vars more : Variables} {name value : List Char}

theorem lookup_eq_some_iff_mem (h : (vars.map Prod.fst).Nodup) :
    vars.lookup name = some value ↔ (name, value) ∈ vars := by
  rw [List.lookup_eq_some_iff]
  constructor
  · rintro ⟨front, back, rfl, -⟩
    simp
  · intro hmem
    obtain ⟨front, back, rfl⟩ := List.append_of_mem hmem
    refine ⟨front, back, rfl, fun entry hentry ↦ ?_⟩
    rw [List.map_append, List.map_cons, List.nodup_middle, List.nodup_cons] at h
    have hne : name ≠ entry.1 := by
      rintro rfl
      exact h.1 (by simpa using .inl ⟨_, hentry⟩)
    simpa using hne

namespace Ordered

theorem nodup (h : vars.Ordered) : (vars.map Prod.fst).Nodup :=
  List.pairwise_map.2 (h.imp ne_of_lt)

theorem last?_eq (h : vars.Ordered) (name : List Char) : last? vars name = vars.get? name := by
  refine Option.ext fun value ↦ ?_
  have hreverse : (vars.reverse.map Prod.fst).Nodup := by
    rw [List.map_reverse]
    exact List.nodup_reverse.2 h.nodup
  rw [last?, get?, lookup_eq_some_iff_mem hreverse, lookup_eq_some_iff_mem h.nodup,
    List.mem_reverse]

theorem ext (h : vars.Ordered) (hmore : more.Ordered)
    (hget : ∀ name, vars.get? name = more.get? name) : vars = more := by
  have hperm : vars.Perm more := by
    refine (List.perm_ext_iff_of_nodup h.nodup.of_map hmore.nodup.of_map).2 fun entry ↦ ?_
    rw [← lookup_eq_some_iff_mem h.nodup, ← lookup_eq_some_iff_mem hmore.nodup]
    exact Eq.congr_left (hget entry.1)
  refine hperm.eq_of_pairwise (fun a b _ _ hab hba ↦ ?_) h hmore
  exact absurd hba hab.asymm

theorem without (h : vars.Ordered) (names : List (List Char)) : (vars.without names).Ordered :=
  h.filter _

theorem mem_set {entry : List Char × List Char} (hentry : entry ∈ vars.set name value) :
    entry.1 = name ∨ entry ∈ vars := by
  induction vars with
  | nil => exact .inl (by simp_all [Variables.set])
  | cons first rest ih =>
      obtain ⟨k, v⟩ := first
      rw [Variables.set] at hentry
      split_ifs at hentry with heq hbefore
      · rcases List.mem_cons.1 hentry with rfl | hrest
        · exact .inl rfl
        · exact .inr (List.mem_cons_of_mem _ hrest)
      · rcases List.mem_cons.1 hentry with rfl | hrest
        · exact .inl rfl
        · exact .inr hrest
      · rcases List.mem_cons.1 hentry with rfl | hrest
        · exact .inr List.mem_cons_self
        · exact (ih hrest).imp_right (List.mem_cons_of_mem _)

theorem set (h : vars.Ordered) (name value : List Char) : (vars.set name value).Ordered := by
  induction vars with
  | nil => exact List.pairwise_singleton _ _
  | cons first rest ih =>
      obtain ⟨k, v⟩ := first
      obtain ⟨hfirst, hrest⟩ := List.pairwise_cons.1 h
      rw [Variables.set]
      split_ifs with heq hbefore
      · subst heq
        exact List.pairwise_cons.2 ⟨hfirst, hrest⟩
      · have hlt := nameBefore_iff_lt.1 hbefore
        refine List.pairwise_cons.2 ⟨fun entry hentry ↦ ?_, h⟩
        rcases List.mem_cons.1 hentry with rfl | hentry
        · exact hlt
        · exact hlt.trans (hfirst entry hentry)
      · have hlt : k < name := by
          rw [nameBefore_iff_lt] at hbefore
          exact lt_of_le_of_ne (not_lt.1 hbefore) (Ne.symm heq)
        refine List.pairwise_cons.2 ⟨fun entry hentry ↦ ?_, ih hrest⟩
        rcases mem_set hentry with hname | hentry
        · exact hname ▸ hlt
        · exact hfirst entry hentry

theorem extend (h : vars.Ordered) (more : List (List Char × List Char)) :
    (Variables.extend vars more).Ordered := by
  induction more generalizing vars with
  | nil => exact h
  | cons entry rest ih => exact ih (h.set entry.1 entry.2)

end Ordered

theorem get?_cons (entry : List Char × List Char) (vars : Variables) (key : List Char) :
    get? (entry :: vars) key = if key = entry.1 then some entry.2 else vars.get? key := by
  rw [get?, List.lookup_cons, get?]
  by_cases h : key = entry.1
  · rw [if_pos h, beq_iff_eq.2 h]
  · rw [if_neg h, beq_eq_false_iff_ne.2 h]

theorem get?_set (vars : Variables) (name value key : List Char) :
    (vars.set name value).get? key = if key = name then some value else vars.get? key := by
  induction vars with
  | nil => exact get?_cons (name, value) [] key
  | cons first rest ih =>
      obtain ⟨k, v⟩ := first
      rw [Variables.set]
      split_ifs with heq hbefore hkey hkey hkey
      all_goals simp only [get?_cons, ih]
      all_goals simp_all

theorem get?_without (vars : Variables) (names : List (List Char)) (key : List Char) :
    (vars.without names).get? key = if key ∈ names then none else vars.get? key := by
  induction vars with
  | nil => simp [without, get?]
  | cons first rest ih =>
      obtain ⟨k, v⟩ := first
      have hcons : without ((k, v) :: rest) names =
          if k ∈ names then without rest names else (k, v) :: without rest names := by
        by_cases hk : k ∈ names <;> simp [without, hk]
      rw [hcons, get?_cons]
      by_cases hk : k ∈ names
      · rw [if_pos hk, ih]
        by_cases hkey : key = k <;> simp_all
      · rw [if_neg hk, get?_cons, ih]
        by_cases hkey : key = k <;> simp_all

theorem last?_append (front back : List (List Char × List Char)) (key : List Char) :
    last? (front ++ back) key = (last? back key).or (last? front key) := by
  rw [last?, List.reverse_append, List.lookup_append, last?, last?]

theorem last?_cons (entry : List Char × List Char) (rest : List (List Char × List Char))
    (key : List Char) :
    last? (entry :: rest) key =
      (last? rest key).or (if key = entry.1 then some entry.2 else none) := by
  have hone : last? [entry] key = if key = entry.1 then some entry.2 else none :=
    get?_cons entry [] key
  rw [← hone, ← last?_append, List.singleton_append]

/-- Of the values set for a name the last one counts. -/
theorem get?_extend (vars : Variables) (more : List (List Char × List Char)) (key : List Char) :
    (vars.extend more).get? key = (last? more key).or (vars.get? key) := by
  induction more generalizing vars with
  | nil => rfl
  | cons entry rest ih =>
      change ((vars.set entry.1 entry.2).extend rest).get? key = _
      rw [ih, get?_set, last?_cons, Option.or_assoc]
      split_ifs <;> simp

end Variables

end ShellTemplate
