import Mathlib.Tactic.SplitIfs
import ShellTemplate.Quoting

/-!
# Quote removal

The shell's quote removal as a function of the written text, and the three ways
of writing a text that it undoes.
-/

namespace ShellTemplate

/-- What a reader that removes quotes is inside of. -/
inductive QuoteMode where
  | bare
  | single
  | double
deriving DecidableEq, Repr

/-- Quote removal from inside quotes on. Outside quotes a backslash takes the character behind
it, and a newline vanishes with it; double quotes keep it except before a special character
or a newline; single quotes keep everything. -/
@[simp] def removeQuotes : QuoteMode → List Char → List Char
  | _, [] => []
  | .bare, '\\' :: c :: rest =>
    if c = '\n' then removeQuotes .bare rest else c :: removeQuotes .bare rest
  | .bare, c :: rest =>
    if c = '\'' then removeQuotes .single rest
    else if c = '"' then removeQuotes .double rest
    else c :: removeQuotes .bare rest
  | .single, c :: rest =>
    if c = '\'' then removeQuotes .bare rest else c :: removeQuotes .single rest
  | .double, '\\' :: c :: rest =>
    if c = '\n' then removeQuotes .double rest
    else if isSpecialInDouble c then c :: removeQuotes .double rest
    else '\\' :: c :: removeQuotes .double rest
  | .double, c :: rest =>
    if c = '"' then removeQuotes .bare rest else c :: removeQuotes .double rest

/-- Reading `raw` inside `mode` gives `text` and ends inside `mode'`, whatever follows. -/
def Removes (mode : QuoteMode) (raw text : List Char) (mode' : QuoteMode) : Prop :=
  ∀ rest, removeQuotes mode (raw ++ rest) = text ++ removeQuotes mode' rest

namespace Removes

variable {mode mode' mode'' : QuoteMode} {raw raw' text text' : List Char} {c : Char}

theorem refl (mode : QuoteMode) : Removes mode [] [] mode := fun _ ↦ rfl

theorem append (h : Removes mode raw text mode') (h' : Removes mode' raw' text' mode'') :
    Removes mode (raw ++ raw') (text ++ text') mode'' := by
  intro rest
  rw [List.append_assoc, h, h', List.append_assoc]

/-- A complete text is the one that its quotes are removed from. -/
theorem eq (h : Removes mode raw text mode') : removeQuotes mode raw = text := by
  have hnil : removeQuotes mode' [] = [] := by cases mode' <;> rfl
  simpa [hnil] using h []

theorem keep_bare (hq : c ≠ '\'') (hd : c ≠ '"') (hb : c ≠ '\\') :
    Removes .bare [c] [c] .bare := by
  intro rest
  simp [removeQuotes, hq, hd, hb]

theorem keep_single (hq : c ≠ '\'') : Removes .single [c] [c] .single := by
  intro rest
  simp [removeQuotes, hq]

theorem keep_double (hd : c ≠ '"') (hb : c ≠ '\\') : Removes .double [c] [c] .double := by
  intro rest
  simp [removeQuotes, hd, hb]

theorem open_single : Removes .bare ['\''] [] .single := fun _ ↦ by simp [removeQuotes]

theorem open_double : Removes .bare ['"'] [] .double := fun _ ↦ by simp [removeQuotes]

theorem close_single : Removes .single ['\''] [] .bare := fun _ ↦ by simp [removeQuotes]

theorem close_double : Removes .double ['"'] [] .bare := fun _ ↦ by simp [removeQuotes]

theorem newline_bare : Removes .bare ['\\', '\n'] [] .bare := fun _ ↦ by simp [removeQuotes]

theorem newline_double : Removes .double ['\\', '\n'] [] .double :=
  fun _ ↦ by simp [removeQuotes]

theorem escaped_bare (hc : c ≠ '\n') : Removes .bare ['\\', c] [c] .bare := by
  intro rest
  simp [removeQuotes, hc]

theorem escaped_double (hc : isSpecialInDouble c = true) : Removes .double ['\\', c] [c] .double := by
  intro rest
  have hne : c ≠ '\n' := by
    rintro rfl
    simp [isSpecialInDouble] at hc
  simp [removeQuotes, hc, hne]

theorem unescaped_double (hc : isSpecialInDouble c = false) (hne : c ≠ '\n') :
    Removes .double ['\\', c] ['\\', c] .double := by
  intro rest
  simp [removeQuotes, hc, hne]

theorem escapeSingle (text : List Char) :
    Removes .single (escapeSingle text) text .single := by
  induction text with
  | nil => exact refl _
  | cons c rest ih =>
      have hcons : ShellTemplate.escapeSingle (c :: rest) =
          (if c = '\'' then ['\'', '\\', '\'', '\''] else [c]) ++
            ShellTemplate.escapeSingle rest := by
        simp [ShellTemplate.escapeSingle]
      rw [hcons]
      split_ifs with hc
      · subst hc
        have hquote : Removes .single ['\'', '\\', '\'', '\''] ['\''] .single :=
          (close_single.append (escaped_bare (by decide))).append open_single
        exact hquote.append ih
      · exact (keep_single hc).append ih

theorem escapeDouble (text : List Char) :
    Removes .double (escapeDouble text) text .double := by
  induction text with
  | nil => exact refl _
  | cons c rest ih =>
      have hcons : ShellTemplate.escapeDouble (c :: rest) =
          (if isSpecialInDouble c then ['\\', c] else [c]) ++
            ShellTemplate.escapeDouble rest := by
        simp [ShellTemplate.escapeDouble, escapeBefore]
      rw [hcons]
      split_ifs with hc
      · exact (escaped_double hc).append ih
      · refine (keep_double ?_ ?_).append ih <;> rintro rfl <;> simp [isSpecialInDouble] at hc

theorem singleQuote (text : List Char) : Removes .bare (singleQuote text) text .bare := by
  have h := (open_single.append (escapeSingle text)).append close_single
  simpa [ShellTemplate.singleQuote] using h

end Removes

example : removeQuotes .bare "a'b c'\"$\\d\\$\"\\ e".toList = "ab c$\\d$ e".toList := by decide

end ShellTemplate
