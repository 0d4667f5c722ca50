import ShellTemplate.Proofs.HoleNumbers
import ShellTemplate.Proofs.Lexeme.Ends

/-!
# Comments

Where a comment skips a hole, told from the text before the hole. A comment starts at a `#` behind
a text that leaves nothing open and ends no word, and goes on to the end of its line. In a backtick
body that is open at the hole, the body's own text decides.
-/

namespace ShellTemplate

open Scanner

/-- A `#` behind this text starts a comment: the text is complete, and its last lexeme is no part
of a word. -/
def StartsComment (scope : Scope) (before : List Item) : Prop :=
  ∃ lexemes, scanAll scope before = .ok lexemes ∧
    ∀ last ∈ lexemes.getLast?, last.token = .blank ∨ ∃ op, last.token = .operator op

/-- The text ends inside a comment, its own or that of a backtick body that is open there. -/
inductive Commented : Scope → List Item → Prop
  | line {scope : Scope} {before line : List Item} {place : Nat} (start : StartsComment scope before)
      (unbroken : ∀ item ∈ line, item.symbol ≠ .char '\n') :
      Commented scope (before ++ ⟨.char '#', place⟩ :: line)
  | body {scope : Scope} {before tail : List Item} {place : Nat} {out : Step}
      (front : scan scope {} before = .ok out) (opened : out.1.OpensBodyAt scope '\x60')
      (unclosed : cutBody tail = none) (within : Commented (out.1.bodyScope scope) (openBody tail)) :
      Commented scope (before ++ ⟨.char '\x60', place⟩ :: tail)

theorem mem_of_mem_openBody {items : List Item} {item : Item} (h : item ∈ openBody items) :
    item ∈ items := by
  fun_induction openBody items with
  | case1 => exact h
  | case2 p c q tail _ ih =>
      rcases List.mem_cons.1 h with rfl | htail
      · exact List.mem_cons_of_mem _ List.mem_cons_self
      · exact List.mem_cons_of_mem _ (List.mem_cons_of_mem _ (ih htail))
  | case3 p c q tail _ ih | case4 first tail _ ih =>
      rcases List.mem_cons.1 h with rfl | htail
      · exact List.mem_cons_self
      · exact List.mem_cons_of_mem _ (ih htail)

/-- Without a `#` there is no comment. -/
theorem Commented.hash_mem {scope : Scope} {front : List Item} (h : Commented scope front) :
    .char '#' ∈ front.map Item.symbol := by
  induction h with
  | line => simp
  | body _ _ _ _ ih =>
      obtain ⟨item, hitem, hsymbol⟩ := List.mem_map.1 ih
      refine List.mem_map.2 ⟨item, ?_, hsymbol⟩
      exact List.mem_append_right _ (List.mem_cons_of_mem _ (mem_of_mem_openBody hitem))

section Starting

variable {scope : Scope} {before : List Item} {out : Step}

theorem after_ne_word_iff {lexemes : List Lexeme} :
    Previous.boundary.after lexemes ≠ .word ↔
      ∀ last ∈ lexemes.getLast?, last.token = .blank ∨ ∃ op, last.token = .operator op := by
  unfold Previous.after
  cases lexemes.getLast? with
  | none => simp
  | some last =>
      obtain ⟨token, quoting, enclosing⟩ := last
      cases token <;> simp [Token.previous]

/-- A comment may start behind a text iff the scanner that has read it takes a `#` as the start
of one. -/
theorem startsComment_iff (hscan : scan scope {} before = .ok out) :
    StartsComment scope before ↔ out.1.frames = [] ∧ out.1.mode ≠ .escape ∧
      (out.1.settle scope).1.atWordStart = true := by
  have hprevious := (scans_of_scan hscan).remembers.previous
  have hafter : ∀ final, Previous.boundary.after (out.2 ++ final) = out.1.previous.after final := by
    intro final
    rw [Previous.after_append, hprevious]
  constructor
  · rintro ⟨lexemes, hall, hlast⟩
    obtain ⟨out', final, hscan', hfinish, rfl⟩ := scanAll_eq_ok_iff.1 hall
    obtain rfl : out = out' := Except.ok.inj (hscan.symm.trans hscan')
    obtain ⟨hframes, hescape, -⟩ := finish_eq_ok_iff.1 hfinish
    rw [← after_ne_word_iff, hafter, after_finish_ne_word_iff hfinish] at hlast
    exact ⟨hframes, hescape, hlast⟩
  · rintro ⟨hframes, hescape, hstart⟩
    have hfinish := (@finish_eq_ok_iff scope out.1 _).2 ⟨hframes, hescape, rfl⟩
    refine ⟨_, scanAll_eq_ok_iff.2 ⟨out, _, hscan, hfinish, rfl⟩, ?_⟩
    rwa [← after_ne_word_iff, hafter, after_finish_ne_word_iff hfinish]

end Starting

section Lines

variable {scope : Scope} {s : Scanner}

theorem comment_of_stepHole {index : Nat} (h : (s.stepHole scope index).1.mode = .comment) :
    s.mode = .comment := by
  have hmove : HoleMove scope index s (s.stepHole scope index) := stepHole_holeMove
  generalize s.stepHole scope index = step at h hmove
  cases hmove with
  | comment hmode => exact hmode
  | escaped | dollar =>
      have hplain := (emitHole_frames index _ _ _).2.symm.trans h
      cases hplain
  | plain hmode => exact (emitHole_frames _ _ _ _).2.symm.trans h
  | operator pending =>
      rw [Step.andThen_fst, readHole, (emitHole_frames _ _ _ _).2, (emitOperator_frames _ _).2] at h
      cases h

/-- In a comment nothing is read up to the end of the line. -/
theorem scan_comment (hmode : s.mode = .comment) {line : List Item}
    (hline : ∀ item ∈ line, item.symbol ≠ .char '\n') (rest : List Item) :
    scan scope s (line ++ rest) = scan scope s rest := by
  have hsilent : ∀ x : Except LexError Step, x.map (Step.before (s, [])) = x := by
    intro x
    cases x <;> rfl
  induction line with
  | nil => rfl
  | cons item line ih =>
      obtain ⟨hitem, hrest⟩ := List.forall_mem_cons.1 hline
      obtain ⟨symbol, place⟩ := item
      cases symbol with
      | hole index =>
          have hstep : s.stepHole scope index = (s, []) := by simp [stepHole, hmode]
          rw [List.cons_append, scan_hole, hstep, hsilent, ih hrest]
      | char c =>
          have hne : c ≠ '\n' := fun hc ↦ hitem (hc ▸ rfl)
          have hclosed : ¬ s.OpensBodyAt scope c := fun hopen ↦
            (plain_of_complete_eq_none hopen.1).1 hmode
          have hstep : s.stepChar scope c place = (s, []) := by
            simp [stepChar, complete?, hmode, hne]
          rw [List.cons_append, scan_char _ _ hclosed, hstep, hsilent, ih hrest]

end Lines

section Points

/-- Reading the text passes a point where the scanner and the text behind are as asked. -/
def Passes (P : Scanner → List Item → Prop) (scope : Scope) (s : Scanner) (items : List Item) :
    Prop :=
  ∃ before behind mid, items = before ++ behind ∧ scan scope s before = .ok mid ∧ P mid.1 behind

/-- A `#` that starts a comment on the last line. -/
def AtLastComment (scope : Scope) (s : Scanner) (items : List Item) : Prop :=
  ∃ place line, items = ⟨.char '#', place⟩ :: line ∧
    (∀ item ∈ line, item.symbol ≠ .char '\n') ∧ s.frames = [] ∧ s.mode ≠ .escape ∧
    (s.settle scope).1.atWordStart = true

/-- A backtick that opens a body without an end. -/
def AtOpenBody (scope : Scope) (s : Scanner) (items : List Item) : Prop :=
  ∃ place tail, items = ⟨.char '\x60', place⟩ :: tail ∧ s.OpensBodyAt scope '\x60' ∧
    cutBody tail = none

variable {P : Scanner → List Item → Prop} {scope : Scope} {s : Scanner} {items : List Item}

theorem Passes.here (h : P s items) : Passes P scope s items :=
  ⟨[], items, (s, []), rfl, scan_nil scope s, h⟩

theorem Passes.append {first : List Item} {step : Step} (hfirst : scan scope s first = .ok step)
    (h : Passes P scope step.1 items) : Passes P scope s (first ++ items) := by
  obtain ⟨before, behind, mid, rfl, hscan, hP⟩ := h
  refine ⟨first ++ before, behind, step.before mid, (List.append_assoc _ _ _).symm, ?_, hP⟩
  rw [scan_append hfirst, hscan]
  rfl

theorem Passes.hole {index place : Nat} (h : Passes P scope (s.stepHole scope index).1 items) :
    Passes P scope s (⟨.hole index, place⟩ :: items) := by
  have hfirst : scan scope s [⟨.hole index, place⟩] = .ok (s.stepHole scope index) := by
    rw [scan_hole, scan_nil]
    simp [Except.map, Step.before]
  exact h.append hfirst

theorem Passes.char {c : Char} {place : Nat} (hclosed : ¬ s.OpensBodyAt scope c)
    (h : Passes P scope (s.stepChar scope c place).1 items) :
    Passes P scope s (⟨.char c, place⟩ :: items) := by
  have hfirst : scan scope s [⟨.char c, place⟩] = .ok (s.stepChar scope c place) := by
    rw [scan_char _ _ hclosed, scan_nil]
    simp [Except.map, Step.before]
  exact h.append hfirst

theorem Passes.body {c : Char} {place : Nat} {rest body behind : List Item}
    {lexemes : List Lexeme} (hopen : s.OpensBodyAt scope c)
    (hcut : cutBody rest = some (body, behind))
    (hbody : scanAll (s.bodyScope scope) body = .ok lexemes)
    (h : Passes P scope (s.stepBody scope lexemes).1 behind) :
    Passes P scope s (⟨.char c, place⟩ :: rest) := by
  obtain ⟨front, rfl, hfront⟩ := exists_front_of_cutBody hcut
  have hfirst : scan scope s (⟨.char c, place⟩ :: front) = .ok (s.stepBody scope lexemes) := by
    rw [scan_body _ _ hopen hfront, hbody]
    change (scan scope (s.stepBody scope lexemes).1 []).map _ = _
    rw [scan_nil]
    simp [Except.map, Step.before]
  exact h.append hfirst

/-- A text that ends in a comment was in it from the start, or passes the `#` that starts it. -/
theorem Scans.comment_cases {cond : HoleCondition} {out : Step} (h : Scans cond scope s items out)
    (hs : s.Sound) (hmode : out.1.mode = .comment) :
    (s.mode = .comment ∧ ∀ item ∈ items, item.symbol ≠ .char '\n') ∨
      Passes (AtLastComment scope) scope s items := by
  induction h with
  | nil => exact .inl ⟨hmode, by simp⟩
  | hole _ _ ih =>
      rcases ih (hs.stepHole _) hmode with ⟨hcomment, hrest⟩ | hrest
      · exact .inl ⟨comment_of_stepHole hcomment, List.forall_mem_cons.2 ⟨by simp, hrest⟩⟩
      · exact .inr hrest.hole
  | @char scope s c place rest after closed _ ih =>
      rcases ih (hs.stepChar c place) hmode with ⟨hcomment, hrest⟩ | hrest
      · rcases (stepChar_comment_iff hs).1 hcomment with ⟨hbefore, hne⟩ | ⟨rfl, hstart⟩
        · exact .inl ⟨hbefore, List.forall_mem_cons.2 ⟨by simpa using hne, hrest⟩⟩
        · exact .inr (.here ⟨place, rest, rfl, hrest, hstart⟩)
      · exact .inr (hrest.char closed)
  | @body scope s c place rest body behind inner after final opened cut within ended _ _ ih =>
      have hbody := scanAll_eq_ok_iff.2 ⟨_, _, within.scan_eq, ended, rfl⟩
      rcases ih (hs.stepBody opened _) hmode with ⟨hcomment, -⟩ | hrest
      · rw [stepBody_mode hs opened] at hcomment
        cases hcomment
      · exact .inr (hrest.body opened cut hbody)

/-- The text before a hole can be read on its own, unless a body is open at its end. -/
theorem scan_front_cases {front rest : List Item} {index place : Nat} {out : Step}
    (h : scan scope s (front ++ ⟨.hole index, place⟩ :: rest) = .ok out) :
    (∃ mid, scan scope s front = .ok mid) ∨ Passes (AtOpenBody scope) scope s front := by
  induction scope, s, front using front_induction generalizing rest out with
  | nil scope s => exact .inl ⟨_, scan_nil scope s⟩
  | hole scope s other place' front ih =>
      rw [List.cons_append, scan_hole] at h
      obtain ⟨after, hafter, -⟩ := map_eq_ok_iff.1 h
      rcases ih hafter with ⟨mid, hmid⟩ | hfront
      · exact .inl ⟨_, by rw [scan_hole, hmid]; rfl⟩
      · exact .inr hfront.hole
  | char scope s c place' front hclosed ih =>
      rw [List.cons_append, scan_char _ _ hclosed] at h
      obtain ⟨after, hafter, -⟩ := map_eq_ok_iff.1 h
      rcases ih hafter with ⟨mid, hmid⟩ | hfront
      · exact .inl ⟨_, by rw [scan_char _ _ hclosed, hmid]; rfl⟩
      · exact .inr (hfront.char hclosed)
  | closed scope s c place' front body behind hopen hcut ih =>
      rw [List.cons_append, scan_body _ _ hopen (cutBody_append hcut _)] at h
      obtain ⟨lexemes, hbody, h⟩ := bind_eq_ok_iff.1 h
      obtain ⟨after, hafter, -⟩ := map_eq_ok_iff.1 h
      rcases ih lexemes hafter with ⟨mid, hmid⟩ | hfront
      · refine .inl ⟨(s.stepBody scope lexemes).before mid, ?_⟩
        rw [scan_body _ _ hopen hcut, hbody]
        exact map_eq_ok_iff.2 ⟨mid, hmid, rfl⟩
      · exact .inr (hfront.body hopen hcut hbody)
  | opened scope s c place' front hopen hcut _ =>
      obtain rfl : c = '\x60' := hopen.2.1
      exact .inr (.here ⟨place', front, rfl, hopen, hcut⟩)

end Points

section Skipping

variable {scope : Scope} {front rest : List Item} {index place : Nat} {out : Step}

/-- A comment skips its holes. -/
theorem Commented.skips (hcommented : Commented scope front)
    (h : scan scope {} (front ++ ⟨.hole index, place⟩ :: rest) = .ok out) :
    (holeIndices out.2).Sublist (holesOf front ++ holesOf rest) := by
  induction hcommented generalizing index place rest out with
  | @line scope before line place' start unbroken =>
      have ⟨lexemes, hall, _⟩ := start
      obtain ⟨mid, -, hscan, -, -⟩ := scanAll_eq_ok_iff.1 hall
      have hsound := (scans_of_scan hscan).sound sound_empty
      have hmode : (mid.1.stepChar scope '#' place').1.mode = .comment :=
        (stepChar_comment_iff hsound).2 (.inr ⟨rfl, (startsComment_iff hscan).1 start⟩)
      have hstep : (mid.1.stepChar scope '#' place').1.stepHole scope index =
          ((mid.1.stepChar scope '#' place').1, []) := by simp [stepHole, hmode]
      rw [List.append_assoc, scan_append hscan, List.cons_append,
        scan_char _ _ (not_opensBodyAt_of_ne (by decide)), scan_comment hmode unbroken, scan_hole,
        hstep] at h
      obtain ⟨_, hline, rfl⟩ := map_eq_ok_iff.1 h
      obtain ⟨_, hhole, rfl⟩ := map_eq_ok_iff.1 hline
      obtain ⟨after, hafter, rfl⟩ := map_eq_ok_iff.1 hhole
      have hbefore := (scans_of_scan hscan).holeIndices_sublist
      have hbehind := (scans_of_scan hafter).holeIndices_sublist
      simp only [Step.before, holeIndices_append, (Filled.stepChar '#' place').holeIndices_eq_nil,
        holesOf_append, List.append_assoc]
      exact hbefore.append (hbehind.trans (List.sublist_append_right _ _))
  | @body scope before tail place' mid front opened unclosed _ ih =>
      rw [List.append_assoc, scan_append front] at h
      obtain ⟨_, hopened, rfl⟩ := map_eq_ok_iff.1 h
      obtain ⟨body, behind, inner, final, after, hcut, hinner, hfinish, hafter, rfl⟩ :=
        exists_of_scan_openBody opened unclosed hopened
      have hbefore := (scans_of_scan front).holeIndices_sublist
      have hbody := ih hinner
      have hbehind := (scans_of_scan hafter).holeIndices_sublist
      rw [holesOf_openBody] at hbody
      simp only [Step.before, holeIndices_append, holeIndices_stepBody opened,
        (Filled.finish hfinish).holeIndices_eq_nil, List.append_nil, holesOf_append, holesOf_char,
        holesOf_cutBody hcut, List.append_assoc]
      refine hbefore.append ?_
      rw [← List.append_assoc]
      exact hbody.append hbehind

/-- Outside comments no hole is skipped. -/
theorem mem_holeIndices_of_not_commented (hcommented : ¬ Commented scope front)
    (h : scan scope {} (front ++ ⟨.hole index, place⟩ :: rest) = .ok out) :
    index ∈ holeIndices out.2 := by
  induction hn : front.length using Nat.strongRecOn generalizing scope front rest out with
  | ind n ih =>
    subst hn
    rcases scan_front_cases h with ⟨mid, hmid⟩ | ⟨before, _, mid, rfl, hmid, place', tail, rfl,
      hopen, hcut⟩
    · have hmode : mid.1.mode ≠ .comment := by
        intro hmode
        rcases (scans_of_scan hmid).comment_cases sound_empty hmode with
          ⟨hplain, -⟩ | ⟨before, _, first, rfl, hscan, place', line, rfl, hline, hstart⟩
        · cases hplain
        · exact hcommented (.line ((startsComment_iff hscan).2 hstart) hline)
      rw [scan_append hmid, scan_hole] at h
      obtain ⟨_, hhole, rfl⟩ := map_eq_ok_iff.1 h
      obtain ⟨after, -, rfl⟩ := map_eq_ok_iff.1 hhole
      simp [Step.before, holeIndices_stepHole, hmode]
    · rw [List.append_assoc, scan_append hmid] at h
      obtain ⟨_, hopened, rfl⟩ := map_eq_ok_iff.1 h
      obtain ⟨body, behind, inner, final, after, -, hinner, -, -, rfl⟩ :=
        exists_of_scan_openBody hopen hcut hopened
      have hlen := length_openBody_le tail
      have hmem := ih (openBody tail).length
        (by simp only [List.length_append, List.length_cons]; omega)
        (fun hwithin ↦ hcommented (.body hmid hopen hcut hwithin)) hinner rfl
      simp [Step.before, holeIndices_stepBody hopen, hmem]

end Skipping

end ShellTemplate
