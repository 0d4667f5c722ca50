import ShellTemplate.Proofs.Lexeme.Erase
import ShellTemplate.Proofs.Lexeme.Sound

/-!
# Reading a text on

What reading a text comes to, whatever stands behind it. A text is read on after
another one; a backtick substitution is read as a whole.
-/

namespace ShellTemplate

@[simp] theorem charItems_nil : charItems [] = [] := rfl

@[simp] theorem charItems_cons (c : Char) (text : List Char) :
    charItems (c :: text) = ⟨.char c, 0⟩ :: charItems text := rfl

@[simp] theorem charItems_append (text more : List Char) :
    charItems (text ++ more) = charItems text ++ charItems more := List.map_append

/-- Reading `text` from `s` on comes to `result`, whatever stands behind it. -/
def Reads (scope : Scope) (s : Scanner) (text : List Char) (result : Except LexError Step) :
    Prop :=
  ∀ behind, scan scope s (charItems (text ++ behind)) =
    result >>= fun step ↦ (scan scope step.1 (charItems behind)).map step.before

/-- A body that is written with its backslashes put back is cut off whole. -/
theorem cutBody_escapeBackticks (text behind : List Char) :
    cutBody (charItems (escapeBackticks text ++ '\x60' :: behind)) =
      some (charItems text, charItems behind) := by
  induction text with
  | nil => simp [escapeBackticks, escapeBefore, cutBody]
  | cons c rest ih =>
      have hcons : escapeBackticks (c :: rest) =
          (if isSpecialInBackticks c then ['\\', c] else [c]) ++ escapeBackticks rest := by
        simp [escapeBackticks, escapeBefore]
      rw [hcons]
      split_ifs with hspecial
      · have hc : c = '\\' ∨ c = '\x60' ∨ c = '$' := by
          simpa [isSpecialInBackticks, or_assoc] using hspecial
        simp only [List.cons_append, List.nil_append, charItems_cons]
        rw [cutBody, if_pos hc, ih]
        rfl
      · have hbackslash : c ≠ '\\' := by
          rintro rfl
          simp [isSpecialInBackticks] at hspecial
        have hbacktick : c ≠ '\x60' := by
          rintro rfl
          simp [isSpecialInBackticks] at hspecial
        simp only [List.cons_append, List.nil_append, charItems_cons]
        rw [cutBody, if_neg (by simpa using hbacktick), ih]
        · rfl
        · simp [hbackslash]

namespace Reads

variable {scope : Scope} {s : Scanner}

theorem nil : Reads scope s [] (.ok (s, [])) := by
  intro behind
  cases h : scan scope s (charItems behind) <;> simp [h, bind, Except.bind, Except.map, Step.before]

theorem append {text more : List Char} {step : Step} {result : Except LexError Step}
    (h : Reads scope s text (.ok step)) (h' : Reads scope step.1 more result) :
    Reads scope s (text ++ more) (result.map step.before) := by
  intro behind
  rw [List.append_assoc, h]
  change (scan scope step.1 (charItems (more ++ behind))).map step.before = _
  rw [h']
  cases result with
  | error e => rfl
  | ok next =>
      change ((scan scope next.1 (charItems behind)).map next.before).map step.before =
        (scan scope next.1 (charItems behind)).map (step.before next).before
      cases scan scope next.1 (charItems behind) with
      | error e => rfl
      | ok after => simp [Except.map, Step.before]

theorem scan_eq {text : List Char} {result : Except LexError Step}
    (h : Reads scope s text result) : scan scope s (charItems text) = result := by
  have hnil := h []
  rw [List.append_nil] at hnil
  rw [hnil]
  cases result with
  | error e => rfl
  | ok step => simp [bind, Except.bind, scan_nil, Except.map, Step.before]

theorem char {c : Char} (h : ¬ s.OpensBodyAt scope c) :
    Reads scope s [c] (.ok (s.stepChar scope c 0)) := by
  intro behind
  simp only [List.cons_append, List.nil_append, charItems_cons]
  rw [scan_char _ _ h]
  rfl

/-- A backtick substitution is read by reading its body. -/
theorem body (h : s.OpensBodyAt scope '\x60') (text : List Char) :
    Reads scope s ('\x60' :: escapeBackticks text ++ ['\x60'])
      ((scanAll (s.bodyScope scope) (charItems text)).map fun lexemes ↦
        s.stepBody scope lexemes) := by
  intro behind
  have hcut := cutBody_escapeBackticks text behind
  have hitems : charItems ('\x60' :: escapeBackticks text ++ ['\x60'] ++ behind) =
      ⟨.char '\x60', 0⟩ :: charItems (escapeBackticks text ++ '\x60' :: behind) := by
    simp
  rw [hitems, scan_body _ _ h hcut, map_bind]

end Reads

namespace Scanner

variable {scope : Scope} {s : Scanner}

theorem complete?_of_plain (h : s.mode = .plain) (c : Char) : s.complete? scope c = none := by
  simp [complete?, h]

theorem settleBefore_of_plain (h : s.mode = .plain) (c : Char) :
    s.settleBefore scope c = (s, []) := by
  simp [settleBefore, settle, h]

theorem settle_of_plain (h : s.mode = .plain) : s.settle scope = (s, []) := by
  simp [settle, h]

theorem stepChar_of_plain (h : s.mode = .plain) (c : Char) (place : Nat) :
    s.stepChar scope c place = s.readChar scope c place := by
  simp [stepChar, complete?_of_plain h, settleBefore_of_plain h, Step.andThen]

theorem opensBody_of_frames {t : Scanner} (h : t.frames = s.frames) :
    t.opensBody = s.opensBody := by
  unfold opensBody
  rw [h]

/-- Only a backtick opens a body. -/
theorem not_opensBodyAt_of_ne {c : Char} (h : c ≠ '\x60') : ¬ s.OpensBodyAt scope c :=
  fun hopen ↦ h hopen.2.1

theorem not_opensBodyAt_of_single {c : Char} {place : Nat} {outer : List Frame}
    (hmode : s.mode = .plain) (hframes : s.frames = .single place :: outer) :
    ¬ s.OpensBodyAt scope c := by
  rintro ⟨_, _, hopen⟩
  rw [settleBefore_of_plain hmode] at hopen
  simp [opensBody, hframes] at hopen

theorem not_opensBodyAt_of_escape {c : Char} (h : s.mode = .escape) : ¬ s.OpensBodyAt scope c := by
  rintro ⟨hnone, _⟩
  simp [complete?, h] at hnone

end Scanner

theorem map_before_map {ε : Type} (x : Except ε Step) (first second : Step) :
    (x.map second.before).map first.before = x.map (first.before second).before := by
  cases x with
  | error e => rfl
  | ok after => simp [Except.map, Step.before]

section Cut

variable {items body behind : List Item} {item : Item}

theorem eq_cons_of_cutBody_nil (hcut : cutBody items = some ([], behind)) :
    ∃ last, items = last :: behind := by
  fun_cases cutBody items with
  | case1 => simp [cutBody] at hcut
  | case2 p c q tail hc => simp [cutBody, hc] at hcut
  | case3 p c q tail hc => simp [cutBody, hc] at hcut
  | case4 first tail hother hs =>
      simp only [cutBody, hs, if_true, Option.some.injEq, Prod.mk.injEq, true_and] at hcut
      exact ⟨first, hcut ▸ rfl⟩
  | case5 first tail hother hs => simp [cutBody, hs] at hcut

/-- Only a special character loses a backslash before it. -/
theorem eq_cons_of_cutBody_cons (hcut : cutBody items = some (item :: body, behind)) :
    ∃ later, cutBody later = some (body, behind) ∧ (items = item :: later ∨
      ∃ slash, items = slash :: item :: later ∧ ∃ c ∈ ['\\', '\x60', '$'], item.symbol = .char c) := by
  fun_cases cutBody items with
  | case1 => simp [cutBody] at hcut
  | case2 p c q tail hc =>
      rw [cutBody, if_pos hc] at hcut
      obtain ⟨⟨body', behind'⟩, hcut', heq⟩ := Option.map_eq_some_iff.1 hcut
      cases heq
      exact ⟨tail, hcut', .inr ⟨_, rfl, c, by simpa using hc, rfl⟩⟩
  | case3 p c q tail hc =>
      rw [cutBody, if_neg hc] at hcut
      obtain ⟨⟨body', behind'⟩, hcut', heq⟩ := Option.map_eq_some_iff.1 hcut
      cases heq
      exact ⟨_, hcut', .inl rfl⟩
  | case4 first tail hother hs => simp [cutBody, hs] at hcut
  | case5 first tail hother hs =>
      simp only [cutBody, hs, if_false] at hcut
      obtain ⟨⟨body', behind'⟩, hcut', heq⟩ := Option.map_eq_some_iff.1 hcut
      cases heq
      exact ⟨tail, hcut', .inl rfl⟩

theorem suffix_of_cutBody (hcut : cutBody items = some (body, behind)) : behind <:+ items := by
  induction body generalizing items with
  | nil =>
      obtain ⟨last, rfl⟩ := eq_cons_of_cutBody_nil hcut
      exact List.suffix_cons _ _
  | cons item body ih =>
      obtain ⟨later, hlater, rfl | ⟨slash, rfl, -⟩⟩ := eq_cons_of_cutBody_cons hcut
      · exact (ih hlater).trans (List.suffix_cons _ _)
      · exact (ih hlater).trans ((List.suffix_cons _ _).trans (List.suffix_cons _ _))

/-- A relation of neighbours that special characters cannot break is kept where a body is cut
off, from the item before the body on. -/
theorem isChain_of_cutBody {R : Item → Item → Prop}
    (hspecial : ∀ first next : Item, (∃ c ∈ ['\\', '\x60', '$'], next.symbol = .char c) →
      R first next) (h : (item :: items).IsChain R) (hcut : cutBody items = some (body, behind)) :
    (item :: body).IsChain R ∧ behind.IsChain R := by
  refine ⟨?_, h.suffix ((suffix_of_cutBody hcut).trans (List.suffix_cons item items))⟩
  induction body generalizing items item with
  | nil => exact .singleton item
  | cons next body ih =>
      obtain ⟨later, hlater, rfl | ⟨slash, rfl, hnext⟩⟩ := eq_cons_of_cutBody_cons hcut
      · obtain ⟨hfirst, hrest⟩ := List.isChain_cons_cons.1 h
        exact .cons_cons hfirst (ih hrest hlater)
      · exact .cons_cons (hspecial item next hnext) (ih h.tail.tail hlater)

/-- A body is cut off in the same way where the text ends behind it. -/
theorem exists_front_of_cutBody (hcut : cutBody items = some (body, behind)) :
    ∃ front, items = front ++ behind ∧ cutBody front = some (body, []) := by
  fun_induction cutBody items generalizing body behind with
  | case1 => cases hcut
  | case2 p c q tail hc ih =>
      obtain ⟨⟨body', behind'⟩, htail, heq⟩ := Option.map_eq_some_iff.1 hcut
      cases heq
      obtain ⟨front, rfl, hfront⟩ := ih htail
      refine ⟨⟨.char '\\', p⟩ :: ⟨.char c, q⟩ :: front, rfl, ?_⟩
      rw [cutBody, if_pos hc, hfront]
      rfl
  | case3 p c q tail hc ih =>
      obtain ⟨⟨body', behind'⟩, htail, heq⟩ := Option.map_eq_some_iff.1 hcut
      cases heq
      obtain ⟨front, hitems, hfront⟩ := ih htail
      cases front with
      | nil => simp [cutBody] at hfront
      | cons first front =>
          obtain ⟨rfl, rfl⟩ := List.cons.inj hitems
          refine ⟨⟨.char '\\', p⟩ :: ⟨.char c, q⟩ :: front, rfl, ?_⟩
          rw [cutBody, if_neg hc, hfront]
          rfl
  | case4 first tail hother hs =>
      cases hcut
      refine ⟨[first], rfl, ?_⟩
      rw [cutBody.eq_3 _ _ (by simp), if_pos hs]
  | case5 first tail hother hs ih =>
      obtain ⟨⟨body', behind'⟩, htail, heq⟩ := Option.map_eq_some_iff.1 hcut
      cases heq
      obtain ⟨front, rfl, hfront⟩ := ih htail
      refine ⟨first :: front, rfl, ?_⟩
      rw [cutBody.eq_3, if_neg hs, hfront]
      · rfl
      · intro p c q more hfirst hmore
        exact hother p c q (more ++ behind) hfirst (by rw [hmore]; rfl)

end Cut

section Append

theorem cutBody_append {items body behind : List Item} (h : cutBody items = some (body, behind))
    (more : List Item) : cutBody (items ++ more) = some (body, behind ++ more) := by
  fun_induction cutBody items generalizing body behind with
  | case1 => cases h
  | case2 p c q tail hc ih =>
      obtain ⟨⟨body', behind'⟩, hcut, heq⟩ := Option.map_eq_some_iff.1 h
      cases heq
      rw [List.cons_append, List.cons_append, cutBody, if_pos hc, ih hcut]
      rfl
  | case3 p c q tail hc ih =>
      obtain ⟨⟨body', behind'⟩, hcut, heq⟩ := Option.map_eq_some_iff.1 h
      cases heq
      have htail := ih hcut
      rw [List.cons_append] at htail
      rw [List.cons_append, List.cons_append, cutBody, if_neg hc, htail]
      rfl
  | case4 item tail hother hs =>
      cases h
      rw [List.cons_append, cutBody, if_pos hs]
      intro p c q rest hitem
      obtain ⟨symbol, place⟩ := item
      simp_all
  | case5 item tail hother hs ih =>
      obtain ⟨⟨body', behind'⟩, hcut, heq⟩ := Option.map_eq_some_iff.1 h
      cases heq
      rw [List.cons_append, cutBody, if_neg hs, ih hcut]
      · rfl
      · intro p c q rest hitem htail
        cases tail with
        | nil => simp [cutBody] at hcut
        | cons next tail => exact hother p c q tail hitem ((List.cons.inj htail).1 ▸ rfl)

theorem scan_append {scope : Scope} {s : Scanner} {items : List Item} {out : Step}
    (h : scan scope s items = .ok out) (more : List Item) :
    scan scope s (items ++ more) = (scan scope out.1 more).map out.before := by
  have hrun := scans_of_scan h
  clear h
  induction hrun with
  | @nil scope s =>
      change scan scope s more = (scan scope s more).map (Step.before (s, []))
      cases scan scope s more <;> rfl
  | hole _ _ ih =>
      rw [List.cons_append, scan_hole, ih, map_before_map]
      rfl
  | char closed _ ih =>
      rw [List.cons_append, scan_char _ _ closed, ih, map_before_map]
      rfl
  | @body scope s c place rest body behind inner after final opened cut within ended _ _ ih =>
      have hbody := scanAll_eq_ok_iff.2 ⟨_, _, within.scan_eq, ended, rfl⟩
      rw [List.cons_append, scan_body _ _ opened (cutBody_append cut more), hbody]
      change (scan scope (s.stepBody scope (inner.2 ++ final)).1 (behind ++ more)).map _ = _
      rw [ih, map_before_map]
      rfl

end Append

section Settled

variable {scope : Scope} {s : Scanner} {c : Char}

theorem opensBodyAt_settled (hnone : s.complete? scope c = none)
    (hplain : (s.settleBefore scope c).1.mode = .plain) :
    (s.settleBefore scope c).1.OpensBodyAt scope c ↔ s.OpensBodyAt scope c := by
  simp [Scanner.OpensBodyAt, hnone, Scanner.complete?_of_plain hplain,
    Scanner.settleBefore_of_plain hplain]

/-- Deciding what was undecided first does not change what is scanned. -/
theorem scan_settled (hnone : s.complete? scope c = none)
    (hplain : (s.settleBefore scope c).1.mode = .plain) (place : Nat) (rest : List Item) :
    scan scope s (⟨.char c, place⟩ :: rest) =
      (scan scope (s.settleBefore scope c).1 (⟨.char c, place⟩ :: rest)).map
        (s.settleBefore scope c).before := by
  have hiff := opensBodyAt_settled hnone hplain
  by_cases hopen : s.OpensBodyAt scope c
  · have hopen' := hiff.2 hopen
    obtain ⟨_, rfl, _⟩ := hopen
    have hscope : (s.settleBefore scope '\x60').1.bodyScope scope = s.bodyScope scope := by
      unfold Scanner.bodyScope
      rw [Scanner.settleBefore_of_plain hplain]
    cases hcut : cutBody rest with
    | none => rw [scan_open _ _ (hiff.1 hopen') hcut, scan_open _ _ hopen' hcut, hscope]; rfl
    | some cut =>
        obtain ⟨body, behind⟩ := cut
        rw [scan_body _ _ (hiff.1 hopen') hcut, scan_body _ _ hopen' hcut, hscope]
        cases scanAll (s.bodyScope scope) body with
        | error e => rfl
        | ok lexemes =>
            have hstep : s.stepBody scope lexemes = (s.settleBefore scope '\x60').before
                ((s.settleBefore scope '\x60').1.stepBody scope lexemes) := by
              simp only [Scanner.stepBody]
              rw [Scanner.settleBefore_of_plain hplain]
              rfl
            change (scan scope (s.stepBody scope lexemes).1 behind).map _ =
              ((scan scope _ behind).map _).map _
            rw [map_before_map, ← hstep]
            rw [hstep]
            rfl
  · rw [scan_char _ _ hopen, scan_char _ _ (fun h ↦ hopen (hiff.1 h)), map_before_map]
    have hstep : s.stepChar scope c place = (s.settleBefore scope c).before
        ((s.settleBefore scope c).1.stepChar scope c place) := by
      rw [Scanner.stepChar_of_plain hplain, Scanner.stepChar, hnone]
      rfl
    rw [hstep]
    rfl

theorem Reads.of_settled {text : List Char} {result : Except LexError Step}
    (hnone : s.complete? scope c = none) (hplain : (s.settleBefore scope c).1.mode = .plain)
    (h : Reads scope (s.settleBefore scope c).1 (c :: text) result) :
    Reads scope s (c :: text) (result.map (s.settleBefore scope c).before) := by
  intro behind
  rw [List.cons_append, charItems_cons, scan_settled hnone hplain, ← charItems_cons,
    ← List.cons_append, h]
  cases result with
  | error e => rfl
  | ok step => exact map_before_map _ _ _

end Settled

section Rest

variable {scope : Scope} {s : Scanner} {items : List Item} {out : Step}

/-- The lexemes that the scanner still completes on these items and at their end. -/
def scanRest (scope : Scope) (s : Scanner) (items : List Item) : Except LexError (List Lexeme) :=
  scan scope s items >>= fun step ↦ (step.1.finish scope).map (step.2 ++ ·)

theorem finish_before (step : Step) (x : Except LexError Step) :
    (x.map step.before >>= fun after ↦ (after.1.finish scope).map (after.2 ++ ·)) =
      (x >>= fun after ↦ (after.1.finish scope).map (after.2 ++ ·)).map (step.2 ++ ·) := by
  cases x with
  | error e => rfl
  | ok after =>
      change (after.1.finish scope).map ((step.before after).2 ++ ·) =
        ((after.1.finish scope).map (after.2 ++ ·)).map (step.2 ++ ·)
      rw [map_map]
      simp [Step.before]

theorem scanRest_of_map {s' : Scanner} {items' : List Item} {step : Step}
    (h : scan scope s items = (scan scope s' items').map step.before) :
    scanRest scope s items = (scanRest scope s' items').map (step.2 ++ ·) := by
  unfold scanRest
  rw [h, finish_before]

theorem scanRest_char {c : Char} (h : ¬ s.OpensBodyAt scope c) (place : Nat) (rest : List Item) :
    scanRest scope s (⟨.char c, place⟩ :: rest) =
      (scanRest scope (s.stepChar scope c place).1 rest).map ((s.stepChar scope c place).2 ++ ·) :=
  scanRest_of_map (scan_char scope s h)

theorem scanRest_body {c : Char} {rest body behind : List Item} (h : s.OpensBodyAt scope c)
    (hcut : cutBody rest = some (body, behind)) (place : Nat) :
    scanRest scope s (⟨.char c, place⟩ :: rest) =
      scanAll (s.bodyScope scope) body >>= fun lexemes ↦
        (scanRest scope (s.stepBody scope lexemes).1 behind).map
          ((s.stepBody scope lexemes).2 ++ ·) := by
  unfold scanRest
  rw [scan_body _ _ h hcut]
  cases scanAll (s.bodyScope scope) body with
  | error e => rfl
  | ok lexemes => exact finish_before _ _

theorem scanRest_append (h : scan scope s items = .ok out) (more : List Item) :
    scanRest scope s (items ++ more) = (scanRest scope out.1 more).map (out.2 ++ ·) :=
  scanRest_of_map (scan_append h more)

theorem scanAll_eq_scanRest (scope : Scope) (items : List Item) :
    scanAll scope items = scanRest scope {} items := by
  unfold scanAll scanRest
  cases scan scope {} items with
  | error e => rfl
  | ok step =>
      change (step.1.finish scope).bind _ = (step.1.finish scope).map _
      cases step.1.finish scope <;> rfl

theorem map_nil_append (x : Except LexError (List Lexeme)) : x.map ([] ++ ·) = x := by
  cases x <;> rfl

theorem scanRest_nil : scanRest scope s [] = s.finish scope := by
  unfold scanRest
  rw [scan_nil]
  exact map_nil_append _

theorem scanRest_hole (index place : Nat) (rest : List Item) :
    scanRest scope s (⟨.hole index, place⟩ :: rest) =
      (scanRest scope (s.stepHole scope index).1 rest).map ((s.stepHole scope index).2 ++ ·) :=
  scanRest_of_map (scan_hole scope s index place rest)

/-- Induction along a text that is not accepted: its end, what is behind the first item, a
backtick that is never closed, and the inside of a body. -/
theorem scanRest_error_induction {motive : Scope → Scanner → List Item → LexError → Prop}
    (ended : ∀ scope s e, s.finish scope = .error e → motive scope s [] e)
    (hole : ∀ scope s index place rest e, motive scope (s.stepHole scope index).1 rest e →
      motive scope s (⟨.hole index, place⟩ :: rest) e)
    (char : ∀ scope s c place rest e, ¬ s.OpensBodyAt scope c →
      motive scope (s.stepChar scope c place).1 rest e →
      motive scope s (⟨.char c, place⟩ :: rest) e)
    (opened : ∀ scope s c place rest, s.OpensBodyAt scope c → cutBody rest = none →
      motive scope s (⟨.char c, place⟩ :: rest)
        (.unterminated (.substitution (s.bodyScope scope).depth) place))
    (within : ∀ scope s c place rest body behind e, s.OpensBodyAt scope c →
      cutBody rest = some (body, behind) → motive (s.bodyScope scope) {} body e →
      motive scope s (⟨.char c, place⟩ :: rest) e)
    (behind : ∀ scope s c place rest body behind lexemes e, s.OpensBodyAt scope c →
      cutBody rest = some (body, behind) → scanAll (s.bodyScope scope) body = .ok lexemes →
      motive scope (s.stepBody scope lexemes).1 behind e →
      motive scope s (⟨.char c, place⟩ :: rest) e)
    {e : LexError} (h : scanRest scope s items = .error e) : motive scope s items e := by
  induction hn : items.length using Nat.strongRecOn generalizing scope s items e with
  | ind n ih =>
    subst hn
    match items with
    | [] => exact ended _ _ _ (scanRest_nil ▸ h)
    | ⟨.hole index, place⟩ :: rest =>
        rw [scanRest_hole, map_eq_error_iff] at h
        exact hole _ _ _ _ _ _ (ih rest.length (by simp) h rfl)
    | ⟨.char c, place⟩ :: rest =>
        by_cases hopen : s.OpensBodyAt scope c
        · cases hcut : cutBody rest with
          | none =>
              rw [scanRest, scan_open _ _ hopen hcut] at h
              cases h
              exact opened _ _ _ _ _ hopen hcut
          | some cut =>
              obtain ⟨body, more⟩ := cut
              have hlen := cutBody_length hcut
              rw [scanRest_body hopen hcut] at h
              rcases bind_eq_error_iff.1 h with hbody | ⟨lexemes, hbody, h⟩
              · rw [scanAll_eq_scanRest] at hbody
                exact within _ _ _ _ _ _ _ _ hopen hcut
                  (ih body.length (by simp only [List.length_cons]; omega) hbody rfl)
              · exact behind _ _ _ _ _ _ _ _ _ hopen hcut hbody
                  (ih more.length (by simp only [List.length_cons]; omega)
                    (map_eq_error_iff.1 h) rfl)
        · rw [scanRest_char hopen, map_eq_error_iff] at h
          exact char _ _ _ _ _ _ hopen (ih rest.length (by simp) h rfl)

/-- A text may end wherever no construct is open and no backslash stands. -/
theorem finish_eq_ok_iff {lexemes : List Lexeme} :
    s.finish scope = .ok lexemes ↔ s.frames = [] ∧ s.mode ≠ .escape ∧
      ((s.settle scope).andThen Scanner.flush).2 = lexemes := by
  unfold Scanner.finish
  cases s.frames with
  | nil => split_ifs with h <;> simp [h]
  | cons frame rest => simp

/-- Deciding about the dollar sign at the end is deciding about it before that. -/
theorem finish_dollar (hmode : s.mode = .plain) :
    (s.inMode (.dollar 0)).finish scope = (s.pushChar scope '$').finish scope := by
  cases hframes : s.frames <;>
    simp [Scanner.finish, Scanner.settle, Scanner.inMode, Scanner.pushChar, Scanner.push, hmode,
      hframes]

/-- The end of an accepted text, and what is scanned up to there. -/
theorem exists_scan_of_lexemesOfText {text : List Char} {lexemes : List Lexeme}
    (h : lexemesOfText text = .ok lexemes) :
    ∃ out, scan {} {} (charItems text) = .ok out ∧ out.1.Sound ∧ out.1.frames = [] ∧
      out.1.mode ≠ .escape ∧ out.2 ++ ((out.1.settle {}).andThen Scanner.flush).2 = lexemes := by
  obtain ⟨out, final, hscan, hfinish, rfl⟩ := scanAll_eq_ok_iff.1 (lexemesOfText_eq_ok_iff.1 h)
  obtain ⟨hframes, hescape, rfl⟩ := finish_eq_ok_iff.1 hfinish
  exact ⟨out, hscan, (scans_of_scan hscan).sound Scanner.sound_empty, hframes, hescape, rfl⟩

end Rest

end ShellTemplate
