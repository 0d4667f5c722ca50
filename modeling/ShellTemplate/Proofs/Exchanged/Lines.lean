import ShellTemplate.Proofs.Exchanged.Twins

/-!
# Lines that are read alike

Two lines that lead their readers to twins are read alike by whatever is written behind them. The
blanks at their ends may also be cut off, as long as none of them belongs to a text that differs.
-/

namespace ShellTemplate

open Scanner

theorem reads_of_scan {scope : Scope} {s : Scanner} {text : List Char} {step : Step}
    (h : scan scope s (charItems text) = .ok step) : Reads scope s text (.ok step) := by
  intro behind
  rw [charItems_append, scan_append h]
  rfl

/-- Both lines can be read, and their readers are twins with lexemes of the same kinds. -/
structure ReadAlike (scope : Scope) (line line' : List Char) (t t' : Scanner) : Prop where
  twin : t.Twin t'
  reads : ∃ lexemes lexemes', Reads scope {} line (.ok (t, lexemes)) ∧
    Reads scope {} line' (.ok (t', lexemes')) ∧ List.Forall₂ Lexeme.SameKind lexemes lexemes'

namespace ReadAlike

variable {scope : Scope} {line line' text text' : List Char} {t t' u u' : Scanner}

theorem nil : ReadAlike scope [] [] {} {} := ⟨.refl _, [], [], .nil, .nil, .nil⟩

theorem sound (h : ReadAlike scope line line' t t') : t.Sound := by
  obtain ⟨lexemes, -, hreads, -⟩ := h.reads
  exact (scans_of_scan hreads.scan_eq).sound sound_empty

theorem append (h : ReadAlike scope line line' t t') {lexemes lexemes' : List Lexeme}
    (hreads : Reads scope t text (.ok (u, lexemes)))
    (hreads' : Reads scope t' text' (.ok (u', lexemes')))
    (htwin : Step.Twin (u, lexemes) (u', lexemes')) :
    ReadAlike scope (line ++ text) (line' ++ text') u u' := by
  obtain ⟨before, before', hbefore, hbefore', hsame⟩ := h.reads
  exact ⟨htwin.scanner, _, _, hbefore.append hreads, hbefore'.append hreads',
    List.rel_append hsame htwin.lexemes⟩

/-- What one reader reads the other one reads too. -/
theorem append_same (h : ReadAlike scope line line' t t') {lexemes : List Lexeme}
    (hreads : Reads scope t text (.ok (u, lexemes))) :
    ∃ u', ReadAlike scope (line ++ text) (line' ++ text) u u' := by
  have hsame := @Twin.scan scope _ _ h.twin h.sound _ (isText_charItems text)
  obtain ⟨⟨u', lexemes'⟩, hscan, htwin⟩ := hsame.exists_of_ok hreads.scan_eq
  exact ⟨u', h.append hreads (reads_of_scan hscan) htwin⟩

/-- Read to its end, the one line fails as the other one does, or gives lexemes of the same
kinds. -/
theorem scanAll (h : ReadAlike scope line line' t t') (text : List Char) :
    SameOutcome (List.Forall₂ Lexeme.SameKind)
      (ShellTemplate.scanAll scope (charItems (line ++ text)))
      (ShellTemplate.scanAll scope (charItems (line' ++ text))) := by
  obtain ⟨lexemes, lexemes', hreads, hreads', hsame⟩ := h.reads
  have hscan := @Twin.scan scope _ _ h.twin h.sound _ (isText_charItems text)
  have hboth : SameOutcome Step.Twin (scan scope {} (charItems (line ++ text)))
      (scan scope {} (charItems (line' ++ text))) := by
    rw [hreads text, hreads' text]
    exact hscan.map fun _ _ hstep ↦ ⟨hstep.scanner, List.rel_append hsame hstep.lexemes⟩
  exact hboth.bind fun _ _ hstep ↦
    hstep.scanner.finish.bind fun _ _ hfinal ↦ .ok (List.rel_append hstep.lexemes hfinal)

end ReadAlike

/-- The two lines may be closed here, with the blanks at their ends cut off. -/
structure Ends (b : Nat) (scope : Scope) (line line' : List Char) : Prop where
  gap : blankAfter b line' = blankAfter b line
  closed : SameOutcome (List.Forall₂ Lexeme.SameKind)
    (scanAll scope (charItems (line.rdropWhile isBlank)))
    (scanAll scope (charItems (line'.rdropWhile isBlank)))

theorem operatorGap_congr {b : Nat} {line line' : List Char}
    (h : blankAfter b line' = blankAfter b line) (op : Operator) :
    operatorGap b line' op = operatorGap b line op := by
  unfold blankAfter at h
  unfold operatorGap
  split
  · split_ifs at h ⊢ with hb
    · exact h
    · rfl
  · rfl

section Ends

variable {b : Nat} {scope : Scope} {line line' : List Char} {t t' : Scanner}

theorem Ends.append (h : Ends b scope line line') (hread : ReadAlike scope line line' t t')
    (text : List Char) : Ends b scope (line ++ text) (line' ++ text) where
  gap := by
    cases htext : text.getLast? with
    | none =>
        rw [List.getLast?_eq_none_iff.1 htext, List.append_nil, List.append_nil]
        exact h.gap
    | some c => simp [blankAfter, gapAfter, List.getLast?_append, htext]
  closed := by
    have htrim : ∀ before : List Char, (before ++ text).rdropWhile isBlank =
        if text.rdropWhile isBlank = [] then before.rdropWhile isBlank
          else before ++ text.rdropWhile isBlank := by
      intro before
      unfold List.rdropWhile
      rw [List.reverse_append, List.dropWhile_append]
      cases text.reverse.dropWhile isBlank <;> simp
    rw [htrim, htrim]
    split_ifs
    · exact h.closed
    · exact hread.scanAll _

/-- Behind a character that is no blank a line may be closed. -/
theorem ReadAlike.ends (h : ReadAlike scope line line' t t') {c c' : Char}
    (hc : line.getLast? = some c) (hblank : isBlank c = false) (hc' : line'.getLast? = some c')
    (hblank' : isBlank c' = false) : Ends b scope line line' where
  gap := by
    have hgap : ∀ {text : List Char} {d : Char}, text.getLast? = some d → isBlank d = false →
        blankAfter b text = [' '] := by
      intro text d hd hfalse
      unfold blankAfter
      split_ifs
      · refine (gapAfter_eq text).resolve_left fun hnil ↦ ?_
        rcases gapAfter_eq_nil_iff.1 hnil d hd with rfl | rfl <;> cases hfalse
      · rfl
    rw [hgap hc hblank, hgap hc' hblank']
  closed := by
    have htrim : ∀ {text : List Char} {d : Char}, text.getLast? = some d → isBlank d = false →
        text.rdropWhile isBlank = text := by
      intro text d hd hfalse
      rw [List.rdropWhile_eq_self_iff]
      intro hne
      rw [List.getLast?_eq_getLast_of_ne_nil hne, Option.some.injEq] at hd
      rw [hd, hfalse]
      simp
    have hall := h.scanAll []
    rwa [List.append_nil, List.append_nil, ← htrim hc hblank, ← htrim hc' hblank'] at hall

end Ends

end ShellTemplate
