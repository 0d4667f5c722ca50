import ShellTemplate.Proofs.Exchange
import ShellTemplate.Proofs.Exchanged.Others
import ShellTemplate.Proofs.Lexeme.Visits

/-!
# The texts in the holes and the command line

Two command lines that differ only in the texts in their holes are read alike. Lists and shell
syntax may stand beside the texts, outside all constructs.
-/

namespace ShellTemplate

open Scanner

namespace Template

/-- Where a backslash before a hole in double quotes is taken back, no dollar sign is left directly
before the text that could begin an expansion. -/
def DollarsCovered (t : Template) : Prop := ∃ out, Scans Undollared {} {} t.items out

/-- Lists and raw texts stand outside all constructs, and what is behind them does not change what
they have left on the line. -/
def OthersApart (t : Template) : Prop :=
  ∃ out, Scans (ShellTemplate.OthersApart t.holes) {} {} t.items out

instance : DecidablePred DollarsCovered := fun t ↦
  inferInstanceAs (Decidable (∃ out, Scans Undollared {} {} t.items out))

instance : DecidablePred OthersApart := fun t ↦
  inferInstanceAs (Decidable (∃ out, Scans (ShellTemplate.OthersApart t.holes) {} {} t.items out))

end Template

theorem Undollared.erase {scope : Scope} {s : Scanner} {index : Nat} {rest : List Item}
    (h : Undollared scope s index rest) :
    Undollared scope s.erase index (rest.map Item.erase) := by
  intro hmode hdouble
  have hescape : s.mode = .escape := by
    cases hs : s.mode <;> simp_all [Scanner.erase, Mode.erase]
  rw [escapedQuoting_erase] at hdouble
  have hraw : s.erase.core.raw = s.core.raw := by
    unfold core
    rw [if_pos hmode, if_pos hescape]
    rfl
  rw [hraw]
  exact h hescape hdouble

theorem OthersApart.erase {values : List Value} {scope : Scope} {s : Scanner} {index : Nat}
    {rest : List Item} (h : OthersApart values scope s index rest) :
    OthersApart values scope s.erase index (rest.map Item.erase) := by
  rcases h with htext | hcomment | ⟨hscope, hframes, hescape, hinert⟩
  · exact .inl htext
  · exact .inr (.inl (by simp [Scanner.erase, Mode.erase, hcomment]))
  · refine .inr (.inr ⟨hscope, by simp [Scanner.erase, hframes], fun hmode ↦ hescape ?_, ?_⟩)
    · cases hs : s.mode <;> simp_all [Scanner.erase, Mode.erase]
    · cases rest with
      | nil => simp
      | cons item rest => simpa [Item.erase] using hinert

/-- Exchanged values hold the same in the same holes, or a text on both sides. -/
theorem forall₂_exchange_cases {values values' : List Value}
    (h : List.Forall₂ Value.Exchange values values') (index : Nat) :
    values'[index]? = values[index]? ∨ HoldsText values index ∧ HoldsText values' index := by
  induction h generalizing index with
  | nil => exact .inl rfl
  | cons hhead _ ih =>
      cases index with
      | succ index => exact ih index
      | zero =>
          cases hhead with
          | same => exact .inl rfl
          | text htext htext' =>
              refine .inr ⟨?_, ?_⟩ <;>
                · rintro value ⟨⟩
                  assumption

/-- The lines of two templates that differ in the texts in their holes are read alike. -/
theorem Template.Exchange.lexemesOfText_line {t u : Template} (h : t.Exchange u)
    (hcovered : t.DollarsCovered) (hothers : t.OthersApart)
    {options : FillOptions} {p q : Pipeline} (hp : t.compile options = .ok p)
    (hq : u.compile options = .ok q) :
    SameOutcome (List.Forall₂ Lexeme.SameKind)
      ((lexemesOfText p.line).mapError LexError.erase)
      ((lexemesOfText q.line).mapError LexError.erase) := by
  obtain ⟨lexemes, tokens, hlex, hfill, -, -, hline⟩ := compile_eq_ok_iff.1 hp
  obtain ⟨lexemes', tokens', hlex', hfill', -, -, hline'⟩ := compile_eq_ok_iff.1 hq
  rw [← h.lexemes_eq, hlex, Except.ok.injEq] at hlex'
  subst hlex'
  obtain ⟨out, final, hscan, hfinish, rfl⟩ := scanAll_eq_ok_iff.1 hlex
  obtain ⟨first, hfirst, rfl⟩ := (Filled.finish hfinish).fill_end_iff.1 hfill
  obtain ⟨first', hfirst', rfl⟩ := (Filled.finish hfinish).fill_end_iff.1 hfill'
  have hrun := (scans_of_exists hcovered hscan).and (scans_of_exists hothers hscan)
  have herased : Scans (fun scope s index rest ↦
      Undollared scope s index rest ∧ ShellTemplate.OthersApart t.holes scope s index rest) {} {}
      (t.items.map Item.erase) (Step.erase out) :=
    hrun.erase fun _ _ _ _ hmet ↦ ⟨hmet.1.erase, hmet.2.erase⟩
  have hcases := forall₂_exchange_cases h.holes
  have hlower : ∀ lexemes : List Lexeme, lexemes.map (Lexeme.lower 0) = lexemes := fun lexemes ↦ by
    rw [List.map_congr_left fun lexeme _ ↦ Lexeme.lower_zero lexeme, List.map_id']
  have hothers : OthersAlong options t.holes u.holes := othersAlong_of_same fun index hother ↦
    (hcases index).resolve_right fun hboth ↦ hother hboth.1
  have halong := herased.along
    (fun index htext ↦ (hcases index).elim (fun hsame ↦ by rwa [HoldsText, hsame]) And.right)
    hothers (fun _ _ _ _ hmet ↦ hmet) sound_empty paired_empty rfl (fun item hitem ↦ by
      obtain ⟨item, -, rfl⟩ := List.mem_map.1 hitem
      rfl) False.elim (along_start 0 {}) ((congrArg _ (hlower _)).trans hfirst)
      ((congrArg _ (hlower _)).trans hfirst')
  have hfinish' : (Step.erase out).1.finish {} = .ok final := by
    rw [erase_mk, finish_erase, hfinish]
    rfl
  have hends := (halong.finish (herased.sound sound_empty)
    (herased.paired sound_empty paired_empty) hfinish').2
  rw [lexemesOfText_erase, lexemesOfText_erase, hline, hline', commandLine_eq, commandLine_eq]
  exact hends.closed

/-- Holes in double quotes behind a dollar sign and behind an escaped one, a hole in backticks, and
a raw text and a list outside all quotes. -/
def quotedHoles (first second : List Char) : Template :=
  ⟨[.literal "echo \\$a \"b\\\"$".toList, .hole (.str first), .literal "\" \"\\$\\".toList,
    .hole (.str first), .literal "\" `c ".toList, .hole (.scalar second), .literal "` -".toList,
    .hole (.raw "x=$HOME/2".toList), .literal ".".toList, .hole (.list ["a b".toList, []]),
    .literal " >d".toList]⟩

theorem lexemesOfText_line_quotedHoles :
    (quotedHoles "(x)\"".toList "';`".toList).Exchange (quotedHoles "HOME".toList []) ∧
      (quotedHoles "(x)\"".toList "';`".toList).DollarsCovered ∧
        (quotedHoles "(x)\"".toList "';`".toList).OthersApart ∧
          ∃ p q, (quotedHoles "(x)\"".toList "';`".toList).compile {} = .ok p ∧
            (quotedHoles "HOME".toList []).compile {} = .ok q ∧
              SameOutcome (List.Forall₂ Lexeme.SameKind)
                ((lexemesOfText p.line).mapError LexError.erase)
                ((lexemesOfText q.line).mapError LexError.erase) := by
  have hexchange :
      (quotedHoles "(x)\"".toList "';`".toList).Exchange (quotedHoles "HOME".toList []) :=
    .cons (.literal _) (.cons (.hole (.text rfl rfl)) (.cons (.literal _)
      (.cons (.hole (.text rfl rfl)) (.cons (.literal _) (.cons (.hole (.text rfl rfl))
        (.cons (.literal _) (.cons (.hole (.same _)) (.cons (.literal _)
          (.cons (.hole (.same _)) (.cons (.literal _) .nil))))))))))
  have hcovered : (quotedHoles "(x)\"".toList "';`".toList).DollarsCovered := by decide +kernel
  have hothers : (quotedHoles "(x)\"".toList "';`".toList).OthersApart := by decide +kernel
  have hfirst : (quotedHoles "(x)\"".toList "';`".toList).compile {} = .ok
      ⟨[⟨[⟨"echo".toList, "echo".toList, false⟩, ⟨"\\$a".toList, "$a".toList, false⟩,
          ⟨"\"b\\\"\\$(x)\\\"\"".toList, "b\"$(x)\"".toList, false⟩,
          ⟨"\"\\$(x)\\\"\"".toList, "$(x)\"".toList, false⟩,
          ⟨"`c ''\\\\'';\\`'`".toList, "';`".toList, true⟩,
          ⟨"-x=$HOME/2.'a b'".toList, "-x=$HOME/2.a b".toList, true⟩, ⟨"''".toList, [], false⟩],
        [⟨1, .file ⟨"d".toList, "d".toList, false⟩ .truncate⟩]⟩],
        ("echo \\$a \"b\\\"\\$(x)\\\"\" \"\\$(x)\\\"\" `c ''\\\\'';\\`'` ".toList ++
          "-x=$HOME/2.'a b' '' >d".toList)⟩ := by decide +kernel
  have hsecond : (quotedHoles "HOME".toList []).compile {} = .ok
      ⟨[⟨[⟨"echo".toList, "echo".toList, false⟩, ⟨"\\$a".toList, "$a".toList, false⟩,
          ⟨"\"b\\\"\\$HOME\"".toList, "b\"$HOME".toList, false⟩,
          ⟨"\"\\$HOME\"".toList, "$HOME".toList, false⟩, ⟨"`c ''`".toList, [], true⟩,
          ⟨"-x=$HOME/2.'a b'".toList, "-x=$HOME/2.a b".toList, true⟩, ⟨"''".toList, [], false⟩],
        [⟨1, .file ⟨"d".toList, "d".toList, false⟩ .truncate⟩]⟩],
        "echo \\$a \"b\\\"\\$HOME\" \"\\$HOME\" `c ''` -x=$HOME/2.'a b' '' >d".toList⟩ := by
    decide +kernel
  exact ⟨hexchange, hcovered, hothers, _, _, hfirst, hsecond,
    hexchange.lexemesOfText_line hcovered hothers hfirst hsecond⟩

/-- Static double quotes around a hole behind a dollar sign and a backslash. -/
def escapedAfterDollar (text : List Char) : Template :=
  ⟨[.literal "echo \"$\\".toList, .hole (.str text), .literal "\"".toList]⟩

/-- A word of static text and a word behind it, as they are read from a line. -/
def echoLexemes (word : Piece) : List Lexeme :=
  [⟨.piece ⟨"echo".toList, "echo".toList, false⟩, .bare, {}⟩, ⟨.blank, .bare, {}⟩,
    ⟨.piece word, .bare, {}⟩]

/-- Before a hole the backslash is taken back, and in double quotes nothing stands between the
dollar sign and the text: a name makes it an expansion, and a dot does not. -/
theorem name_expands_behind_dollar :
    (escapedAfterDollar "HOME".toList).Exchange (escapedAfterDollar ".".toList) ∧
      ∃ p q, (escapedAfterDollar "HOME".toList).compile {} = .ok p ∧
        (escapedAfterDollar ".".toList).compile {} = .ok q ∧
          lexemesOfText p.line = .ok (echoLexemes ⟨"\"$HOME\"".toList, "$HOME".toList, true⟩) ∧
          lexemesOfText q.line = .ok (echoLexemes ⟨"\"$.\"".toList, "$.".toList, false⟩) := by
  have hexchange : (escapedAfterDollar "HOME".toList).Exchange (escapedAfterDollar ".".toList) :=
    .cons (.literal _) (.cons (.hole (.text rfl rfl)) (.cons (.literal _) .nil))
  have hname : (escapedAfterDollar "HOME".toList).compile {} = .ok
      ⟨[⟨[⟨"echo".toList, "echo".toList, false⟩, ⟨"\"$HOME\"".toList, "$HOME".toList, false⟩], []⟩],
        "echo \"$HOME\"".toList⟩ := by decide +kernel
  have hdot : (escapedAfterDollar ".".toList).compile {} = .ok
      ⟨[⟨[⟨"echo".toList, "echo".toList, false⟩, ⟨"\"$.\"".toList, "$.".toList, false⟩], []⟩],
        "echo \"$.\"".toList⟩ := by decide +kernel
  exact ⟨hexchange, _, _, hname, hdot, by decide +kernel, by decide +kernel⟩

/-- A number sign behind an empty list. -/
def hashAfterList (text : List Char) : Template :=
  ⟨[.literal "echo ".toList, .hole (.list []), .literal "#".toList, .hole (.str text)]⟩

/-- An empty list leaves nothing on the line, so the number sign behind it begins a comment there,
and a newline in the text ends the comment. -/
theorem comment_ends_in_text : (hashAfterList "a".toList).Exchange (hashAfterList "a\nb".toList) ∧
    ∃ p q, (hashAfterList "a".toList).compile {} = .ok p ∧
      (hashAfterList "a\nb".toList).compile {} = .ok q ∧
        lexemesOfText p.line = .ok ((echoLexemes {}).take 2) ∧
        lexemesOfText q.line = .error (.unterminated .single 10) := by
  have hexchange : (hashAfterList "a".toList).Exchange (hashAfterList "a\nb".toList) :=
    .cons (.literal _) (.cons (.hole (.same _)) (.cons (.literal _)
      (.cons (.hole (.text rfl rfl)) .nil)))
  have hletter : (hashAfterList "a".toList).compile {} = .ok
      ⟨[⟨[⟨"echo".toList, "echo".toList, false⟩, ⟨"#'a'".toList, "#a".toList, false⟩], []⟩],
        "echo #'a'".toList⟩ := by decide +kernel
  have hnewline : (hashAfterList "a\nb".toList).compile {} = .ok
      ⟨[⟨[⟨"echo".toList, "echo".toList, false⟩, ⟨"#'a\nb'".toList, "#a\nb".toList, false⟩], []⟩],
        "echo #'a\nb'".toList⟩ := by decide +kernel
  exact ⟨hexchange, _, _, hletter, hnewline, by decide +kernel, by decide +kernel⟩

end ShellTemplate
