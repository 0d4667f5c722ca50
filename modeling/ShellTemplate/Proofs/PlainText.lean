import ShellTemplate.Proofs.Verbatim.Line

/-!
# The command line of a plain text

A text without holes is compiled to commands and to a command line that is compiled to the same
commands, and to itself. A word that ends in a blank character is an exception, since the command
line takes that character for a blank between words; so is a backtick body in which an operator
stands directly before one that makes it longer, since it is written as the longer one.
-/

namespace ShellTemplate

/-- No word of the template ends in a blank character. -/
def Template.Firm (t : Template) (options : FillOptions) : Prop :=
  ∀ tokens, t.tokens options = .ok tokens → ∀ token ∈ tokens, token.Firm

theorem Template.firm_iff {t : Template} {options : FillOptions} : t.Firm options ↔
    ((t.tokens options).toOption.all fun tokens ↦ ∀ token ∈ tokens, token.Firm) = true := by
  unfold Template.Firm
  cases t.tokens options <;> simp [Except.toOption]

instance (t : Template) (options : FillOptions) : Decidable (t.Firm options) :=
  decidable_of_iff _ Template.firm_iff.symm

theorem unspliced_charItems (text : List Char) : Unspliced (charItems text) where
  plain := plain_charItems text
  place := fun item hitem ↦ by
    obtain ⟨c, -, rfl⟩ := List.mem_map.1 hitem
    rfl

theorem unplaced_ofText (text : List Char) :
    unplaced (Template.ofText text).symbols = charItems text := by
  simp [Template.ofText, Template.symbols, symbolsFrom, unplaced, charItems]

/-- The tokens of a plain text can be read back from the text that they make. -/
theorem sealed_of_lexemesOfText {text : List Char} {lexemes : List Lexeme}
    (hbodies : (Template.ofText text).BodiesApart) (h : lexemesOfText text = .ok lexemes) :
    Sealed False {} (lexemes.map Lexeme.token) := by
  rw [Template.BodiesApart, unplaced_ofText] at hbodies
  exact sealed_of_scanAll (unspliced_charItems text) hbodies (lexemesOfText_eq_ok_iff.1 h)

/-- The command line of a plain text is compiled to the same pipeline. -/
theorem compile_ofText_line {text : List Char} {options : FillOptions} {p : Pipeline}
    (hbodies : (Template.ofText text).BodiesApart)
    (hfirm : (Template.ofText text).Firm options)
    (h : (Template.ofText text).compile options = .ok p) (options' : FillOptions) :
    (Template.ofText p.line).compile options' = .ok p := by
  obtain ⟨lexemes, tokens, hlex, hfill, -, hstages, hline⟩ := compile_eq_ok_iff.1 h
  have hsealed := sealed_of_lexemesOfText hbodies hlex
  have htokens : tokens = lexemes.map Lexeme.token := by
    rw [fill_of_not_hole (filled_of_scanAll (lexemesOfText_eq_ok_iff.1 hlex))] at hfill
    exact (Except.ok.inj hfill).symm
  have hall := hfirm tokens (tokens_eq_ok_iff.2 ⟨lexemes, hlex, hfill⟩)
  rw [← htokens] at hsealed
  obtain ⟨stages, line⟩ := p
  obtain rfl : line = commandLine tokens := hline
  exact compile_commandLine hsealed hall hstages options'

/-- Blanks, an escape, operators in quotes and in a substitution, a forced redirection and a
comment. -/
def twoCommands : List Char :=
  "sort  -k 1 <in 02>>log|tr a\\ b \">||$x\" `date -r \\$y  >|d |cat` >| out # note\n".toList

def twoCommandsPipeline : Pipeline where
  stages := [⟨[⟨"sort".toList, "sort".toList, false⟩, ⟨"-k".toList, "-k".toList, false⟩,
      ⟨"1".toList, "1".toList, false⟩],
      [(0, .file ⟨"in".toList, "in".toList, false⟩ .read),
        (2, .file ⟨"log".toList, "log".toList, false⟩ .append)]⟩,
    ⟨[⟨"tr".toList, "tr".toList, false⟩, ⟨"a\\ b".toList, "a b".toList, false⟩,
      ⟨"\">||$x\"".toList, ">||$x".toList, true⟩, ⟨"`date -r \\$y >d |cat`".toList, [], true⟩],
      [(1, .file ⟨"out".toList, "out".toList, false⟩ .truncate)]⟩]
  line := "sort -k 1 <in 2>>log|tr a\\ b \">||$x\" `date -r \\$y >d |cat` > out".toList

theorem compile_ofText_line_twoCommands :
    (Template.ofText twoCommands).BodiesApart ∧ (Template.ofText twoCommands).Firm {} ∧
      (Template.ofText twoCommands).compile {} = .ok twoCommandsPipeline ∧
        (Template.ofText twoCommandsPipeline.line).compile {} = .ok twoCommandsPipeline := by
  have hbodies : (Template.ofText twoCommands).BodiesApart := by decide +kernel
  have hfirm : (Template.ofText twoCommands).Firm {} := by decide +kernel
  have hcompile : (Template.ofText twoCommands).compile {} = .ok twoCommandsPipeline := by
    decide +kernel
  exact ⟨hbodies, hfirm, hcompile, compile_ofText_line hbodies hfirm hcompile {}⟩

/-- The blank of a word that ends in an escaped one is cut off the line, and the backslash before it
escapes nothing any more. -/
theorem escapedBlank_lost :
    (Template.ofText "echo a\\ ".toList).compile {} = .ok ⟨[⟨[⟨"echo".toList, "echo".toList, false⟩,
      ⟨"a\\ ".toList, "a ".toList, false⟩], []⟩], "echo a\\".toList⟩ ∧
      (Template.ofText "echo a\\".toList).compile {} = .error (.lex .trailingEscape) := by
  decide +kernel

end ShellTemplate
