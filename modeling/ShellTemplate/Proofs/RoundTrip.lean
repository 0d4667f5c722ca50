import ShellTemplate.Proofs.LiteralWords
import ShellTemplate.Proofs.Lexeme.Visits
import ShellTemplate.Proofs.Reread.Run

/-!
# Compiling the command line again

The command line of a pipeline is a text without holes. Compiled again it gives
the same pipeline: whatever the holes hold, no word, redirection or command is
added, removed, split or merged. Only the mark of a word can get lost, where two
dollar signs stand directly before a hole.
-/

namespace ShellTemplate

open Scanner

/-- A word that is read again from the command line: the same text, the same value where nothing
expands, and the same mark in a strict setting. -/
structure Word.RoundTrip (strict : Prop) (w w' : Word) : Prop where
  raw : w'.raw = w.raw
  expands : SameMark strict w.expands w'.expands
  value : w.expands = false → w'.value = w.value

theorem Word.Reread.roundTrip {strict : Prop} {w w' : Word} (h : w.Reread strict w') (hw : w.Clean)
    (hw' : w'.Clean) : w.RoundTrip strict w' where
  raw := h.raw
  expands := h.expands
  value := fun hexpands ↦ by
    have hexpands' : w'.expands = false := by
      rw [← Bool.not_eq_true] at hexpands ⊢
      exact mt h.expands.le hexpands
    rw [hw.literal hexpands, hw'.literal hexpands', h.raw]

theorem Word.RoundTrip.sameNumber {strict : Prop} {w w' : Word} (h : w.RoundTrip strict w')
    (hnumber : (duplicated? w).isSome = true) : w.SameNumber w' := by
  have hexpands : w.expands = false := by
    rw [← Bool.not_eq_true]
    intro hexpands
    simp [duplicated?, hexpands] at hnumber
  have hexpands' : w'.expands = false := by
    rw [← Bool.not_eq_true] at hexpands ⊢
    exact mt h.expands.le hexpands
  have hvalue := h.value hexpands
  exact ⟨by rw [duplicated?, duplicated?, hexpands, hexpands', hvalue], hvalue.symm⟩

theorem stagesOfParts_reread {strict : Prop} {parts parts' : List Part} {stages : List Stage}
    (h : List.Forall₂ (Part.Alike (Word.Reread strict)) parts parts')
    (hclean : ∀ w, .word w ∈ parts → w.Clean) (hclean' : ∀ w, .word w ∈ parts' → w.Clean)
    (hstages : stagesOfParts parts = .ok stages) :
    ∃ stages', stagesOfParts parts' = .ok stages' ∧
      List.Forall₂ (Stage.Alike (Word.RoundTrip strict)) stages stages' := by
  have hround : List.Forall₂ (Part.Alike (Word.RoundTrip strict)) parts parts' := by
    clear hstages
    induction h with
    | nil => exact .nil
    | cons hpart _ ih =>
        have hrest := ih (fun w hw ↦ hclean w (by simp [hw])) fun w hw ↦ hclean' w (by simp [hw])
        cases hpart with
        | operator op => exact .cons (.operator op) hrest
        | word hword =>
            exact .cons (.word (hword.roundTrip (hclean _ (by simp)) (hclean' _ (by simp)))) hrest
  refine (stagesOfParts_alike ⟨hround, fun r w w' hr hpair ↦ ?_⟩).exists_of_ok hstages
  have hfirst : [.operator (.redirect r), .word w] <:+: parts := by
    have hmap := hpair.map Prod.fst
    rwa [List.map_fst_zip hround.length_eq.le] at hmap
  have hnumber := PartialPipeline.duplicated_of_read hstages hr hfirst
  have hmem : (Part.word w, Part.word w') ∈ parts.zip parts' := hpair.subset (by simp)
  cases List.forall₂_zip hround hmem with
  | word hword => exact hword.sameNumber hnumber

/-- No hole is read directly behind two dollar signs of which the first has marked the word. -/
def Template.DollarsApart (t : Template) : Prop := ∃ out, Scans Unmarked {} {} t.items out

/-- The literal text of a template is written as it stands. -/
structure Template.Clear (t : Template) : Prop where
  backslash : .char '\\' ∉ t.symbols
  blank : ∀ c, .char c ∈ t.symbols → isBlank c = true → c ∈ [' ', '\t', '\r', '\n']
  forced : ¬ [Symbol.char '>', .char '|'] <:+: t.symbols

theorem Template.Clear.items {t : Template} (h : t.Clear) :
    ShellTemplate.Clear (t.items.map Item.erase) := by
  have hsymbols : (t.items.map Item.erase).map Item.symbol = t.symbols := by
    rw [List.map_map]
    exact symbol_placeFrom 0 t.symbols
  have hmem : ∀ item ∈ t.items.map Item.erase, item.symbol ∈ t.symbols := by
    intro item hitem
    rw [← hsymbols]
    exact List.mem_map_of_mem hitem
  exact {
    place := fun item hitem ↦ by
      obtain ⟨_, _, rfl⟩ := List.mem_map.1 hitem
      rfl
    backslash := fun item hitem hsymbol ↦ h.backslash (hsymbol ▸ hmem item hitem)
    blank := fun item hitem c hsymbol ↦ h.blank c (hsymbol ▸ hmem item hitem)
    forced := by
      rw [hsymbols]
      exact h.forced }

theorem closes_commandLine {t : Template} {options : FillOptions} {lexemes : List Lexeme}
    {tokens : List Token} (hclear : t.Clear)
    (hvalues : ∀ value ∈ t.holes, value.literalText?.isSome = true)
    (hlex : t.lexemes = .ok lexemes) (hfill : fill options t.holes lexemes = .ok tokens) :
    Closes t.DollarsApart (written 0 tokens) (assembly tokens).finish := by
  obtain ⟨out, final, hscan, hfinish, rfl⟩ := scanAll_eq_ok_iff.1 hlex
  obtain ⟨first, hfirst, rfl⟩ := (Filled.finish hfinish).fill_end_iff.1 hfill
  have hrun : Scans (fun scope s index rest ↦ t.DollarsApart → Unmarked scope s index rest) {} {}
      t.items out := by
    by_cases happart : t.DollarsApart
    · exact (scans_of_exists happart hscan).weaken fun _ _ _ _ hunmarked _ ↦ hunmarked
    · exact (scans_of_scan hscan).weaken fun _ _ _ _ _ happart' ↦ absurd happart' happart
  have herased : Scans (fun scope s index rest ↦ t.DollarsApart → Unmarked scope s index rest) {} {}
      (t.items.map Item.erase) (Step.erase out) := by
    refine hrun.erase fun _ s _ _ hunmarked happart ⟨opened, hmode⟩ ↦ ?_
    refine hunmarked happart ?_
    cases hs : s.mode <;> simp_all [Scanner.erase, Mode.erase]
  have hfirst' : fill options t.holes ((Step.erase out).2.map (Lexeme.lower 0)) = .ok first := by
    rw [List.map_congr_left fun lexeme _ ↦ Lexeme.lower_zero lexeme, List.map_id']
    exact hfirst
  have hkeeps := herased.keeps (fun _ _ _ _ hmet ↦ hmet) hvalues (fun _ ↦ rfl) sound_empty rfl
    hclear.items (unforced_of_plain rfl _) (keeps_start t.DollarsApart 0 {}) hfirst'
  have hfinish' : (Step.erase out).1.finish {} = .ok final := by
    rw [erase_mk, finish_erase, hfinish]
    rfl
  exact (hkeeps.finish (herased.sound sound_empty) (fun _ ↦ rfl) hfinish').2 rfl

theorem isList_eq_false {value : Value} (h : value.literalText?.isSome = true) :
    value.isList = false := by
  cases value <;> first | rfl | cases h

/-- Compiling the command line of a pipeline gives the same pipeline again. -/
theorem compile_line {t : Template} {options : FillOptions} {p : Pipeline} (hclear : t.Clear)
    (hvalues : ∀ value ∈ t.holes, value.literalText?.isSome = true)
    (h : t.compile options = .ok p) (options' : FillOptions) :
    ∃ q, (Template.ofText p.line).compile options' = .ok q ∧
      List.Forall₂ (Stage.Alike (Word.RoundTrip t.DollarsApart)) p.stages q.stages := by
  obtain ⟨lexemes, tokens, hlex, hfill, _, hstages, hline⟩ := compile_eq_ok_iff.1 h
  obtain ⟨read, n, hscan, hparts⟩ := closes_commandLine hclear hvalues hlex hfill
  rw [← commandLine_eq, ← hline] at hscan
  have hfilled := filled_of_scanAll hscan
  have hread : (Template.ofText p.line).lexemes = .ok read := lexemesOfText_eq_ok_iff.2 hscan
  have hlist : ∀ v ∈ t.holes, v.isList = false := fun v hv ↦ isList_eq_false (hvalues v hv)
  have hclean : ∀ w, .word w ∈ (assembly tokens).finish → w.Clean := fun w hw ↦
    clean_of_scanAll hlist hlex hfill hw
  have hclean' : ∀ w, .word w ∈ (assembly (read.map Lexeme.token)).finish ++
      List.replicate n (.operator .newline) → w.Clean := by
    intro w hw
    rcases List.mem_append.1 hw with hw | hw
    · exact @clean_of_scanAll {} [] _ _ _ (by simp) hscan (fill_of_not_hole hfilled) w hw
    · simp at hw
  obtain ⟨stages, hstages', halike⟩ := stagesOfParts_reread hparts hclean hclean' hstages
  refine ⟨⟨stages, commandLine (read.map Lexeme.token)⟩, compile_eq_ok_iff.2 ⟨read, _, hread,
    fill_of_not_hole hfilled, fun token htoken ↦ ?_, stagesOfParts_of_newlines n hstages', rfl⟩,
    halike⟩
  obtain ⟨lexeme, hlexeme, rfl⟩ := List.mem_map.1 htoken
  exact hfilled lexeme hlexeme

/-- Written as it stands wherever it stands. -/
def Symbol.isClear : Symbol → Bool
  | .hole _ => true
  | .char c => c ≠ '\\' && (!isBlank c || c ∈ [' ', '\t', '\r', '\n'])

theorem Template.clear_of_symbols {t : Template} (h : ∀ symbol ∈ t.symbols, symbol.isClear = true)
    (hforced : ¬ [Symbol.char '>', .char '|'] <:+: t.symbols) : t.Clear where
  backslash := fun hmem ↦ by simpa [Symbol.isClear] using h _ hmem
  blank := fun c hmem hblank ↦ by
    have hclear := h _ hmem
    simp only [Symbol.isClear, hblank] at hclear
    simpa using (Bool.and_eq_true_iff.1 hclear).2
  forced := hforced

/-- Hostile texts in double quotes, in a substitution and in backticks. -/
def hostileHoles : Template :=
  ⟨[.literal "a \"".toList, .hole (.str "$(x)\"".toList), .literal "\" $(b ".toList,
    .hole (.str "')".toList), .literal ") | c `d ".toList, .hole (.scalar "`;".toList),
    .literal "`".toList]⟩

/-- What the texts become, word by word. -/
def hostilePipeline : Pipeline where
  stages := [⟨[⟨"a".toList, "a".toList, false⟩,
      ⟨"\"\\$(x)\\\"\"".toList, "$(x)\"".toList, false⟩,
      ⟨"$(b ''\\'')')".toList, "$(b '))".toList, true⟩], []⟩,
    ⟨[⟨"c".toList, "c".toList, false⟩, ⟨"`d '\\`;'`".toList, "`;".toList, true⟩], []⟩]
  line := "a \"\\$(x)\\\"\" $(b ''\\'')') | c `d '\\`;'`".toList

theorem compile_line_hostileHoles : hostileHoles.Clear ∧
    hostileHoles.compile {} = .ok hostilePipeline ∧
      ∃ q, (Template.ofText hostilePipeline.line).compile {} = .ok q ∧
        List.Forall₂ (Stage.Alike (Word.RoundTrip hostileHoles.DollarsApart))
          hostilePipeline.stages q.stages := by
  have hclear : hostileHoles.Clear :=
    Template.clear_of_symbols (by decide +kernel) (by decide +kernel)
  have hcompile : hostileHoles.compile {} = .ok hostilePipeline := by decide +kernel
  exact ⟨hclear, hcompile, compile_line hclear (by decide +kernel) hcompile {}⟩

/-- A hole directly behind two dollar signs. -/
def dollarsBeforeHole : Template := ⟨[.literal "echo $$".toList, .hole (.str "x".toList)]⟩

/-- The first of two dollar signs before a hole marks its word, since a dollar sign follows it. The
second one is written with a backslash, so nothing is marked when the line is read again. -/
theorem mark_lost_after_dollars : dollarsBeforeHole.Clear ∧
    (∀ value ∈ dollarsBeforeHole.holes, value.literalText?.isSome = true) ∧
      ∃ p q, dollarsBeforeHole.compile {} = .ok p ∧
        (Template.ofText p.line).compile {} = .ok q ∧
          p.stages.map (·.argv.map Word.expands) = [[false, true]] ∧
            q.stages.map (·.argv.map Word.expands) = [[false, false]] := by
  have hclear : dollarsBeforeHole.Clear :=
    Template.clear_of_symbols (by decide +kernel) (by decide +kernel)
  have hcompile : dollarsBeforeHole.compile {} = .ok
      ⟨[⟨[⟨"echo".toList, "echo".toList, false⟩, ⟨"$\\$'x'".toList, "$$x".toList, true⟩], []⟩],
        "echo $\\$'x'".toList⟩ := by decide +kernel
  have hline : (Template.ofText "echo $\\$'x'".toList).compile {} = .ok
      ⟨[⟨[⟨"echo".toList, "echo".toList, false⟩, ⟨"$\\$'x'".toList, "$$x".toList, false⟩], []⟩],
        "echo $\\$'x'".toList⟩ := by decide +kernel
  exact ⟨hclear, by decide +kernel, _, _, hcompile, hline, rfl, rfl⟩

end ShellTemplate
