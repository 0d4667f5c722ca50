import Mathlib.Data.List.Induction
import Mathlib.Tactic.SplitIfs
import ShellTemplate.Text.Numeral

/-!
# Numerals

A number is read back from its decimal text.
-/

namespace ShellTemplate

theorem toList_toString (n : Nat) : (toString n).toList = Nat.toDigits 10 n := Nat.toList_repr

theorem isDigit_eq (c : Char) : isDigit c = c.isDigit := by
  simp [isDigit, Char.isDigit, Char.le_def, UInt32.le_iff_toNat_le]

theorem isDigit_of_mem_toString {n : Nat} {c : Char} (hc : c ∈ (toString n).toList) :
    isDigit c = true := by
  rw [toList_toString] at hc
  rw [isDigit_eq]
  exact Nat.isDigit_of_mem_toDigits (by decide) (by decide) hc

theorem toString_ne_nil (n : Nat) : (toString n).toList ≠ [] := by
  rw [toList_toString]
  exact Nat.toDigits_ne_nil

theorem readDigits?_toString (n : Nat) : readDigits? (toString n).toList = some n := by
  have hdigits : (toString n).toList.all isDigit = true :=
    List.all_eq_true.2 fun c hc ↦ isDigit_of_mem_toString hc
  have hvalue : (toString n).toList.foldl (fun n c ↦ 10 * n + digitValue c) 0 = n := by
    rw [toList_toString]
    exact Nat.ofDigitChars_ten_toDigits
  rw [readDigits?, if_pos ⟨toString_ne_nil n, hdigits⟩, hvalue]

theorem readDescriptor?_toString {n : Nat} (h : n < UInt32.size) :
    readDescriptor? (toString n).toList = some n := by
  rw [readDescriptor?, readDigits?_toString, Option.filter_some, if_pos (by simpa using h)]

/-- A text that names a descriptor consists of digits. -/
theorem digits_of_readDescriptor? {text : List Char} {fd : Nat}
    (h : readDescriptor? text = some fd) :
    text ≠ [] ∧ (∀ c ∈ text, isDigit c = true) ∧ fd < UInt32.size := by
  obtain ⟨hread, hsize⟩ := Option.filter_eq_some_iff.1 h
  unfold readDigits? at hread
  split_ifs at hread with hdigits
  exact ⟨hdigits.1, List.all_eq_true.1 hdigits.2, by simpa using hsize⟩

theorem digitChar_digitValue {c : Char} (h : isDigit c = true) :
    digitValue c < 10 ∧ (digitValue c).digitChar = c := by
  simp only [isDigit, Bool.and_eq_true, decide_eq_true_eq, Char.le_def, UInt32.le_iff_toNat_le] at h
  change 48 ≤ c.toNat ∧ c.toNat ≤ 57 at h
  have hlt : digitValue c < 10 := by
    change c.toNat - 48 < 10
    omega
  refine ⟨hlt, Char.toNat_inj.1 ?_⟩
  rw [Nat.toNat_digitChar_of_lt_ten hlt]
  change 48 + (c.toNat - 48) = c.toNat
  omega

/-- A text of digits is the number that it denotes behind zeros. -/
theorem eq_zeros_append_of_digits {text : List Char} (hne : text ≠ [])
    (hdigits : ∀ c ∈ text, isDigit c = true) :
    ∃ zeros, text = List.replicate zeros '0' ++
      Nat.toDigits 10 (text.foldl (fun n c ↦ 10 * n + digitValue c) 0) := by
  induction text using List.reverseRecOn with
  | nil => exact absurd rfl hne
  | append_singleton front c ih =>
      obtain ⟨hlt, hchar⟩ := digitChar_digitValue (hdigits c (by simp))
      rw [List.foldl_append]
      generalize hn : front.foldl (fun n c ↦ 10 * n + digitValue c) 0 = n at ih
      change ∃ zeros, front ++ [c] =
        List.replicate zeros '0' ++ Nat.toDigits 10 (10 * n + digitValue c)
      by_cases hfront : front = []
      · subst hfront
        obtain rfl : 0 = n := hn
        refine ⟨0, ?_⟩
        rw [Nat.mul_zero, Nat.zero_add, Nat.toDigits_of_lt_base hlt, hchar]
        rfl
      · obtain ⟨zeros, hzeros⟩ := ih hfront fun d hd ↦ hdigits d (by simp [hd])
        rcases Nat.eq_zero_or_pos n with rfl | hpos
        · refine ⟨zeros + 1, ?_⟩
          rw [Nat.mul_zero, Nat.zero_add, Nat.toDigits_of_lt_base hlt, hchar, hzeros,
            List.replicate_succ']
          rfl
        · refine ⟨zeros, ?_⟩
          rw [← Nat.toDigits_append_toDigits (by decide) hpos hlt,
            Nat.toDigits_of_lt_base hlt, hchar, ← List.append_assoc, ← hzeros]

theorem exists_zeros_of_readDescriptor? {text : List Char} {fd : Nat}
    (h : readDescriptor? text = some fd) :
    ∃ zeros, text = List.replicate zeros '0' ++ (toString fd).toList := by
  obtain ⟨hread, -⟩ := Option.filter_eq_some_iff.1 h
  unfold readDigits? at hread
  split_ifs at hread with hdigits
  obtain rfl := Option.some.inj hread
  rw [toList_toString]
  exact eq_zeros_append_of_digits hdigits.1 (List.all_eq_true.1 hdigits.2)

/-- Some character is no digit. -/
def NotDigits (text : List Char) : Prop := ∃ c ∈ text, isDigit c = false

theorem NotDigits.ne_nil {text : List Char} (h : NotDigits text) : text ≠ [] := by
  rintro rfl
  obtain ⟨c, hc, _⟩ := h
  cases hc

theorem NotDigits.append_left {text : List Char} (h : NotDigits text) (more : List Char) :
    NotDigits (text ++ more) := by
  obtain ⟨c, hc, hdigit⟩ := h
  exact ⟨c, List.mem_append_left _ hc, hdigit⟩

theorem NotDigits.append_right {more : List Char} (h : NotDigits more) (text : List Char) :
    NotDigits (text ++ more) := by
  obtain ⟨c, hc, hdigit⟩ := h
  exact ⟨c, List.mem_append_right _ hc, hdigit⟩

theorem NotDigits.readDescriptor? {text : List Char} (h : NotDigits text) :
    ShellTemplate.readDescriptor? text = none := by
  obtain ⟨c, hc, hdigit⟩ := h
  refine Option.eq_none_iff_forall_ne_some.2 fun fd hfd ↦ ?_
  exact absurd ((digits_of_readDescriptor? hfd).2.1 c hc) (by simp [hdigit])

end ShellTemplate
