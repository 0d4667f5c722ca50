import ShellTemplate.Proofs.Exchanged.Run
import ShellTemplate.Proofs.Outline
import ShellTemplate.Proofs.Standalone

/-!
# Holes that hold no text

A list and a raw text leave the same tokens on both lines, and these are the tokens of a text. So
the run of a scanner along that text, with nothing before it, tells how the lines are read on. What
a raw text leaves may begin or end in the middle of anything that is not quoted, so behind the hole
the reader is only known to be outside all constructs.
-/

namespace ShellTemplate

open Scanner

/-- The tokens of a hole outside all quotes are the tokens of a text. -/
theorem exists_scanAll_of_fillHole {options : FillOptions} {value : Value} {own : List Token}
    (h : fillHole options .bare {} value = .ok own) :
    ∃ text lexemes, scanAll {} (charItems text) = .ok lexemes ∧ lexemes.map Lexeme.token = own := by
  have hpieces : ∀ texts : List (List Char), ∃ text lexemes,
      scanAll {} (charItems text) = .ok lexemes ∧ lexemes.map Lexeme.token =
        ((texts.map (literalPiece .bare {})).map Token.piece).intersperse .blank := by
    intro texts
    have hsealed : Sealed False {}
        (((texts.map (literalPiece .bare {})).map Token.piece).intersperse .blank) := by
      refine sealed_intersperse fun p hp ↦ ?_
      obtain ⟨text, -, rfl⟩ := List.mem_map.1 hp
      exact legible_literalPiece text
    refine ⟨_, scanAll_plainText hsealed.legible hsealed.apart ?_⟩
    refine hsealed.apart.imp_of_mem_imp fun x y hx _ _ op _ hop ↦ ?_
    rcases mem_intersperse hx with rfl | hmem
    · cases hop
    · obtain ⟨p, -, rfl⟩ := List.mem_map.1 hmem
      cases hop
  cases value with
  | raw text =>
      obtain ⟨-, lexemes, hlex, rfl⟩ := fillHole_raw h
      exact ⟨text, lexemes, lexemesOfText_eq_ok_iff.1 hlex, rfl⟩
  | str | scalar | joined | list =>
      cases h
      exact hpieces _

theorem Scans.of_plain {cond cond' : HoleCondition} {scope : Scope} {s : Scanner}
    {items : List Item} {out : Step} (h : Scans cond scope s items out) (hplain : Plain items) :
    Scans cond' scope s items out := by
  induction h with
  | nil => exact .nil
  | hole =>
      obtain ⟨c, hc⟩ := hplain _ List.mem_cons_self
      cases hc
  | char closed _ ih => exact .char closed (ih fun item hi ↦ hplain item (by simp [hi]))
  | body opened cut _ ended _ ihin ih =>
      exact .body opened cut
        (ihin fun item hi ↦ hplain item (by simp [mem_of_cutBody cut (.inl hi)])) ended
        (ih fun item hi ↦ hplain item (by simp [mem_of_cutBody cut (.inr hi)]))

namespace Scanner

variable {s : Scanner} {tokens tokens' own own' : List Token} {index : Nat}
  {options : FillOptions} {values values' : List Value}

/-- The tokens of a text are read on by readers outside all constructs. -/
theorem Tied.readTokens (h : Tied True False 0 {} {} tokens tokens') {text : List Char}
    {lexemes : List Lexeme} (hscan : scanAll {} (charItems text) = .ok lexemes) :
    (∃ t t', ReadAlike {} (written 0 (tokens ++ lexemes.map Lexeme.token))
        (written 0 (tokens' ++ lexemes.map Lexeme.token)) t t' ∧ t.Bare) ∧
      Ends 0 {} (written 0 (tokens ++ lexemes.map Lexeme.token))
        (written 0 (tokens' ++ lexemes.map Lexeme.token)) := by
  obtain ⟨out, final, hout, hfinish, rfl⟩ := scanAll_eq_ok_iff.1 hscan
  have hplain : Plain (charItems text) := fun item hitem ↦ by
    obtain ⟨c, -, rfl⟩ := List.mem_map.1 hitem
    exact ⟨c, rfl⟩
  -- no hole is met, so the run holds under any condition and for templates without values
  have hrun : Scans (fun _ _ _ _ ↦ False) {} {} (charItems text) out :=
    (scans_of_scan hout).of_plain hplain
  have hfilled : Filled out.2 := hrun.filled hplain
  have hnone : ∀ index, HoldsText [] index := fun index value hvalue ↦ by simp at hvalue
  have hothers : OthersAlong {} [] [] := fun _ _ hother ↦ absurd (hnone _) hother
  have hstart : Along False 0 {} {} tokens tokens' := h.along_of_empty rfl fun _ ↦ rfl
  have halong := hrun.along (fun index _ ↦ hnone index) hothers (fun _ _ _ _ ↦ False.elim)
    sound_empty paired_empty rfl (fun item hitem ↦ by
      obtain ⟨c, -, rfl⟩ := List.mem_map.1 hitem
      rfl) False.elim hstart (hfilled.fill_lower _ _ _) (hfilled.fill_lower _ _ _)
  have hends := halong.finish (hrun.sound sound_empty) (hrun.paired sound_empty paired_empty)
    hfinish
  rwa [List.append_assoc, List.append_assoc, ← List.map_append] at hends

/-- Behind the tokens of a text both lines have been read outside all constructs. -/
theorem Tied.writeTokens (h : Tied True False 0 {} s tokens tokens') (hescape : s.mode ≠ .escape)
    (hframes : s.frames = []) {text : List Char} {lexemes : List Lexeme}
    (hscan : scanAll {} (charItems text) = .ok lexemes) :
    Along True 0 {} { s with piece := {}, previous := .word }
      (tokens ++ s.flush.2.map Lexeme.token ++ lexemes.map Lexeme.token)
      (tokens' ++ s.flush.2.map Lexeme.token ++ lexemes.map Lexeme.token) := by
  have hline : ∀ tokens : List Token,
      ({} : Scanner).decided 0 (tokens ++ s.flush.2.map Lexeme.token) = s.decided 0 tokens := by
    intro tokens
    rw [decided_eq_line hescape, decided, written_flush]
    exact List.append_nil _
  have hstart : Tied True False 0 {} {} (tokens ++ s.flush.2.map Lexeme.token)
      (tokens' ++ s.flush.2.map Lexeme.token) := by
    refine h.keep (hline tokens) (hline tokens') hframes.symm fun t _ hguides ↦ ?_
    refine (hguides.bare hframes).guides (fun place hplace ↦ ?_) rfl
      (not_midWord (by simp) rfl (by simp))
    rcases hguides.dollar place hplace with hdollar | hbehind
    · exact hdollar.1 trivial
    · exact hbehind.1
  obtain ⟨⟨t, t', hread, hbare⟩, hends⟩ := hstart.readTokens hscan
  have hbehind : ({ s with piece := {}, previous := .word } : Scanner).NextToHole :=
    ⟨hframes, rfl, core_dropped hescape⟩
  have hafter : ∀ tokens : List Token,
      ({ s with piece := {}, previous := .word } : Scanner).decided 0 tokens =
        written 0 tokens := by
    intro tokens
    rw [decided, hbehind.raw, List.append_nil]
  rw [← hafter, ← hafter] at hread hends
  exact ⟨⟨⟨t, t', hread, hbare.guides_nextToHole hbehind trivial⟩, fun _ ↦ hends⟩,
    fun _ _ hprevious ↦ absurd rfl hprevious⟩

/-- The same tokens are left on both lines where a hole stands outside all constructs. -/
theorem Tied.emitOther (h : Tied True False 0 {} s tokens tokens') (hs : s.Sound)
    (hmode : s.mode = .plain) (hframes : s.frames = [])
    (hsame : values'[index]? = values[index]?)
    (hfill : fill options values ((s.readHole {} index).2.map (Lexeme.lower 0)) = .ok own)
    (hfill' : fill options values' ((s.readHole {} index).2.map (Lexeme.lower 0)) = .ok own') :
    Along True 0 {} (s.readHole {} index).1 (tokens ++ own) (tokens' ++ own') := by
  have hread : s.readHole {} index = ({ s with piece := {}, previous := .word },
      s.flush.2 ++ [⟨.hole index, .bare, {}⟩]) := by
    unfold Scanner.readHole
    rw [emitHole_eq (hs.piece_empty hmode), hframes]
    rfl
  rw [hread] at hfill hfill'
  obtain ⟨more, hmore, rfl⟩ := Filled.flush.fill_front_lower_iff.1 hfill
  obtain ⟨more', hmore', rfl⟩ := Filled.flush.fill_front_lower_iff.1 hfill'
  obtain ⟨value, hole, none, hvalue, hhole, hnone, rfl⟩ := fill_hole_eq_ok_iff.1 hmore
  obtain ⟨value', hole', none', hvalue', hhole', hnone', rfl⟩ := fill_hole_eq_ok_iff.1 hmore'
  cases hnone
  cases hnone'
  obtain rfl : value' = value := Option.some.inj (hvalue'.symm.trans (hsame.trans hvalue))
  obtain rfl : hole' = hole := Except.ok.inj (hhole'.symm.trans hhole)
  rw [List.append_nil, hread, ← List.append_assoc, ← List.append_assoc]
  obtain ⟨text, lexemes, hscan, rfl⟩ := exists_scanAll_of_fillHole hhole
  exact h.writeTokens (by simp [hmode]) hframes hscan

theorem othersAlong_of_same
    (hsame : ∀ index, ¬ HoldsText values index → values'[index]? = values[index]?) :
    OthersAlong options values values' := by
  intro s index tokens tokens' own own' hs herase hother hframes hcomment hescape halong hfill
    hfill'
  obtain ⟨u, first, hsettled⟩ := halong.settleHole hs herase hcomment hescape index
  rw [hsettled.step] at hfill hfill'
  obtain ⟨hole, hhole, rfl⟩ := hsettled.filled.fill_front_lower_iff.1 hfill
  obtain ⟨hole', hhole', rfl⟩ := hsettled.filled.fill_front_lower_iff.1 hfill'
  rw [hsettled.step, Step.andThen_fst, ← List.append_assoc, ← List.append_assoc]
  have htied : Tied True False 0 {} u _ _ :=
    hsettled.tied.of_same rfl rfl rfl id fun hloose ↦ hloose.1 hloose.2
  exact htied.emitOther hsettled.sound hsettled.mode (hsettled.frames.trans hframes)
    (hsame index hother) hhole hhole'

end Scanner

end ShellTemplate
