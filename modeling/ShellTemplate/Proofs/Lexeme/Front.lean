import ShellTemplate.Proofs.Lexeme.Reads

/-!
# The text before a hole

What is done up to a hole is settled by the text before it. A backtick body that is open at the
hole is cut from that text and goes on behind the hole, so an induction on the text before a hole
follows the open bodies inwards.
-/

namespace ShellTemplate

/-- The body that is read so far when no backtick has closed it. -/
def openBody : List Item → List Item
  | [] => []
  | ⟨.char '\\', p⟩ :: ⟨.char c, q⟩ :: rest =>
    if c = '\\' ∨ c = '\x60' ∨ c = '$' then ⟨.char c, q⟩ :: openBody rest
    else ⟨.char '\\', p⟩ :: openBody (⟨.char c, q⟩ :: rest)
  | item :: rest => item :: openBody rest
termination_by items => items.length

theorem length_openBody_le (items : List Item) : (openBody items).length ≤ items.length := by
  fun_induction openBody items with
  | case1 => exact Nat.le_refl _
  | case2 p c q rest _ ih =>
      simp only [List.length_cons]
      omega
  | case3 p c q rest _ ih =>
      simp only [List.length_cons] at ih ⊢
      omega
  | case4 item rest _ ih =>
      simp only [List.length_cons]
      omega

/-- A hole neither closes a body nor is it escaped, so the cut goes on behind it. -/
theorem cutBody_hole (index place : Nat) (rest : List Item) :
    cutBody (⟨.hole index, place⟩ :: rest) =
      (cutBody rest).map fun cut ↦ (⟨.hole index, place⟩ :: cut.1, cut.2) := by
  rw [cutBody, if_neg (by simp)]
  intro p c q tail hitem
  cases hitem

/-- A body that is open at a hole goes on behind it. -/
theorem cutBody_append_hole {front : List Item} (h : cutBody front = none) (index place : Nat)
    (rest : List Item) : cutBody (front ++ ⟨.hole index, place⟩ :: rest) =
      (cutBody rest).map fun cut ↦ (openBody front ++ ⟨.hole index, place⟩ :: cut.1, cut.2) := by
  fun_induction openBody front with
  | case1 => exact cutBody_hole index place rest
  | case2 p c q tail hc ih =>
      rw [cutBody, if_pos hc, Option.map_eq_none_iff] at h
      rw [List.cons_append, List.cons_append, cutBody, if_pos hc, ih h, Option.map_map]
      rfl
  | case3 p c q tail hc ih =>
      rw [cutBody, if_neg hc, Option.map_eq_none_iff] at h
      have htail := ih h
      rw [List.cons_append] at htail
      rw [List.cons_append, List.cons_append, cutBody, if_neg hc, htail, Option.map_map]
      rfl
  | case4 item tail hother ih =>
      rw [cutBody.eq_3 _ _ hother] at h
      split_ifs at h with hs
      rw [Option.map_eq_none_iff] at h
      rw [List.cons_append, cutBody, if_neg hs, ih h, Option.map_map]
      · rfl
      · intro p c q behind hitem hbehind
        cases tail with
        | nil => simp at hbehind
        | cons next tail => exact hother p c q tail hitem ((List.cons.inj hbehind).1 ▸ rfl)

/-- A scan of a body that is open at a hole: the body ends behind the hole, and its text up to the
hole is known. -/
theorem exists_of_scan_openBody {scope : Scope} {s : Scanner} {c : Char} {place' : Nat}
    {front rest : List Item} {index place : Nat} {out : Step} (hopen : s.OpensBodyAt scope c)
    (hcut : cutBody front = none)
    (h : scan scope s (⟨.char c, place'⟩ :: front ++ ⟨.hole index, place⟩ :: rest) = .ok out) :
    ∃ body behind inner final after, cutBody rest = some (body, behind) ∧
      scan (s.bodyScope scope) {} (openBody front ++ ⟨.hole index, place⟩ :: body) = .ok inner ∧
      inner.1.finish (s.bodyScope scope) = .ok final ∧
      scan scope (s.stepBody scope (inner.2 ++ final)).1 behind = .ok after ∧
      out = (s.stepBody scope (inner.2 ++ final)).before after := by
  have hwhole := cutBody_append_hole hcut index place rest
  rw [List.cons_append] at h
  cases hrest : cutBody rest with
  | none =>
      rw [hrest] at hwhole
      rw [scan_open _ _ hopen hwhole] at h
      cases h
  | some cut =>
      rw [hrest] at hwhole
      rw [scan_body _ _ hopen hwhole] at h
      obtain ⟨lexemes, hinner, h⟩ := bind_eq_ok_iff.1 h
      obtain ⟨after, hafter, rfl⟩ := map_eq_ok_iff.1 h
      obtain ⟨inner, final, hscan, hfinish, rfl⟩ := scanAll_eq_ok_iff.1 hinner
      exact ⟨cut.1, cut.2, inner, final, after, rfl, hscan, hfinish, hafter, rfl⟩

/-- Induction on the text before a hole, along the steps of the scanner. The bodies that are closed
before the hole are steps; the one that is open there is a text before the hole of its own. -/
theorem front_induction {motive : Scope → Scanner → List Item → Prop}
    (nil : ∀ scope s, motive scope s [])
    (hole : ∀ scope s index place front, motive scope (s.stepHole scope index).1 front →
      motive scope s (⟨.hole index, place⟩ :: front))
    (char : ∀ scope s c place front, ¬ s.OpensBodyAt scope c →
      motive scope (s.stepChar scope c place).1 front → motive scope s (⟨.char c, place⟩ :: front))
    (closed : ∀ scope s c place front body behind, s.OpensBodyAt scope c →
      cutBody front = some (body, behind) →
      (∀ lexemes, motive scope (s.stepBody scope lexemes).1 behind) →
      motive scope s (⟨.char c, place⟩ :: front))
    (opened : ∀ scope s c place front, s.OpensBodyAt scope c → cutBody front = none →
      motive (s.bodyScope scope) {} (openBody front) → motive scope s (⟨.char c, place⟩ :: front))
    (scope : Scope) (s : Scanner) (front : List Item) : motive scope s front := by
  induction hn : front.length using Nat.strongRecOn generalizing scope s front with
  | ind n ih =>
    subst hn
    match front with
    | [] => exact nil scope s
    | ⟨.hole index, place⟩ :: front =>
        exact hole _ _ _ _ _ (ih front.length (by simp) _ _ front rfl)
    | ⟨.char c, place⟩ :: front =>
        by_cases hopen : s.OpensBodyAt scope c
        · cases hcut : cutBody front with
          | none =>
              have hlen := length_openBody_le front
              exact opened _ _ _ _ _ hopen hcut
                (ih _ (by simp only [List.length_cons]; omega) _ _ _ rfl)
          | some cut =>
              obtain ⟨body, behind⟩ := cut
              have hlen := cutBody_length hcut
              exact closed _ _ _ _ _ _ _ hopen hcut fun lexemes ↦
                ih _ (by simp only [List.length_cons]; omega) _ _ behind rfl
        · exact char _ _ _ _ _ hopen (ih front.length (by simp) _ _ front rfl)

end ShellTemplate
