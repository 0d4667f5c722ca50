import ShellTemplate.Proofs.Lexeme.Contexts

/-!
# What stands around a hole

The context of a hole is that of the innermost construct; what stands around it is counted over all
that are open, also outside the backticks of a body. The two are reported side by side, and they
agree: in plain text nothing stands around a hole. So shell syntax, which is spliced in wherever the
context is plain text, never comes to stand in anything else.
-/

namespace ShellTemplate

/-- What stands around a hole agrees with its context. -/
structure Enclosing.Agrees (enclosing : Enclosing) (quoting : Quoting) : Prop where
  bare : quoting = .bare → enclosing = {}
  substitution : ∀ depth, quoting = .substitution depth →
    1 ≤ depth ∧ enclosing.backticks ≤ depth

theorem Enclosing.Agrees.ne_bare {enclosing : Enclosing} {quoting : Quoting}
    (h : enclosing.Agrees quoting) (hne : enclosing ≠ {}) : quoting ≠ .bare :=
  fun hbare ↦ hne (h.bare hbare)

namespace Scope

/-- Backticks count as substitutions, and outside all of them nothing is remembered. -/
structure Balanced (scope : Scope) : Prop where
  backticks_le : scope.backticks ≤ scope.depth
  outermost : scope.depth = 0 → scope = {}

theorem balanced_empty : ({} : Scope).Balanced := ⟨le_rfl, fun _ ↦ rfl⟩

variable {scope : Scope}

theorem Balanced.body (h : scope.Balanced) (frames : List Frame) :
    (scope.body frames).Balanced where
  backticks_le := by
    have hcount := h.backticks_le
    simp only [Scope.body, substitutions]
    omega
  outermost := by simp [Scope.body]

theorem Balanced.agrees (h : scope.Balanced) (frames : List Frame) :
    (scope.enclosing frames).Agrees (scope.quoting frames) := by
  cases frames with
  | nil =>
      by_cases hdepth : scope.depth = 0
      · obtain rfl := h.outermost hdepth
        exact ⟨fun _ ↦ rfl, fun _ ↦ Quoting.noConfusion⟩
      · have hquoting : scope.quoting [] = .substitution scope.depth := if_neg hdepth
        rw [hquoting]
        refine ⟨Quoting.noConfusion, ?_⟩
        rintro _ ⟨⟩
        exact ⟨Nat.one_le_iff_ne_zero.2 hdepth, h.backticks_le⟩
  | cons frame rest =>
      cases frame with
      | single | double | parameter => exact ⟨Quoting.noConfusion, fun _ ↦ Quoting.noConfusion⟩
      | substitution opened parens =>
          have hcount := h.backticks_le
          refine ⟨Quoting.noConfusion, ?_⟩
          rintro _ ⟨⟩
          simp only [substitutions, enclosing, List.countP_cons, Frame.isSubstitution, if_true]
          constructor <;> omega

theorem reports_agrees : Reports Balanced fun quoting enclosing ↦ enclosing.Agrees quoting where
  body := Balanced.body
  read := Balanced.agrees
  escaped _ s := by
    unfold Scanner.escapedQuoting
    split <;> exact ⟨Quoting.noConfusion, fun _ ↦ Quoting.noConfusion⟩

/-- Whatever begins in a substitution of the whole text is at least one substitution deep. -/
theorem meets_deep : ({} : Scope).Meets fun quoting ↦
    ∀ depth, quoting = .substitution depth → 1 ≤ depth where
  bare _ := Quoting.noConfusion
  quoting frames depth h := ((balanced_empty.agrees frames).substitution depth h).1

end Scope

/-- No value is safe inside a parameter expansion or inside backticks in double quotes. -/
theorem exists_unsafeContext {enclosing : Enclosing}
    (h : enclosing.parameter = true ∨ enclosing.quotedBackticks = true) (quoting : Quoting) :
    ∃ context, Value.unsafeContext? quoting enclosing = some context := by
  unfold Value.unsafeContext?
  split_ifs with hparameter hbackticks
  · exact ⟨_, rfl⟩
  · exact ⟨_, rfl⟩
  · rcases h with h | h
    · simp [h] at hparameter
    · exact absurd h hbackticks

section Template

variable {t : Template} {lexemes : List Lexeme}

/-- The context of a lexeme agrees with what stands around it. -/
theorem Template.lexemes_agree (h : t.lexemes = .ok lexemes) :
    ∀ lexeme ∈ lexemes, lexeme.enclosing.Agrees lexeme.quoting := by
  obtain ⟨out, final, hscan, hfinish, rfl⟩ := scanAll_eq_ok_iff.1 h
  have hscans := scans_of_scan hscan
  intro lexeme hlexeme
  cases hhole : lexeme.token.isHole with
  | true =>
      exact hscans.onHoles_finish Scope.reports_agrees Scope.balanced_empty hfinish
        lexeme hlexeme hhole
  | false =>
      have hbegun := hscans.begun_finish Scope.meets_deep (fun _ ↦ Quoting.noConfusion) hfinish
      obtain ⟨hdeep, henclosing⟩ := hbegun.lexemes lexeme hlexeme hhole
      rw [henclosing]
      exact ⟨fun _ ↦ rfl, fun depth hdepth ↦ ⟨hdeep depth hdepth, Nat.zero_le _⟩⟩

/-- Shell syntax is only spliced in where nothing stands around it. What is reported in plain text
has nothing around it, inside backticks nothing is reported in plain text, and the depth of a command
substitution counts the backticks around it. Inside a parameter expansion or inside backticks in
double quotes values of all kinds are refused, shell syntax for its context alone, and the template
with them. -/
theorem quoting_tells_enclosing (h : t.lexemes = .ok lexemes) :
    (∀ lexeme ∈ lexemes,
      (lexeme.quoting = .bare → lexeme.enclosing = {}) ∧
      (0 < lexeme.enclosing.backticks → lexeme.quoting ≠ .bare) ∧
      ∀ depth, lexeme.quoting = .substitution depth →
        1 ≤ depth ∧ lexeme.enclosing.backticks ≤ depth) ∧
    (∀ options values tokens, fill options values lexemes = .ok tokens →
      ∀ index quoting enclosing text, ⟨.hole index, quoting, enclosing⟩ ∈ lexemes →
        values[index]? = some (.raw text) → quoting = .bare ∧ enclosing = {}) ∧
    ∀ index quoting enclosing, ⟨.hole index, quoting, enclosing⟩ ∈ lexemes →
      enclosing.parameter = true ∨ enclosing.quotedBackticks = true → ∀ options,
        (∀ value,
          (∃ context, fillHole options quoting enclosing value =
            .error (.fill (.unsafeContext context))) ∨
          ∃ text, value = .raw text ∧
            fillHole options quoting enclosing value = .error (.fill (.rawInContext quoting))) ∧
        (∀ values, ∃ error, fill options values lexemes = .error error) ∧
        ∃ error, t.compile options = .error error := by
  have hagrees := Template.lexemes_agree h
  refine ⟨fun lexeme hlexeme ↦ ?agreement, ?spliced, ?refused⟩
  case agreement =>
    have hlexeme := hagrees lexeme hlexeme
    refine ⟨hlexeme.bare, fun hbackticks ↦ hlexeme.ne_bare ?_, hlexeme.substitution⟩
    intro hempty
    simp [hempty] at hbackticks
  case spliced =>
    intro options values tokens hfill index quoting enclosing text hhole hraw
    obtain ⟨value, own, hvalue, hown⟩ := exists_fillHole_of_fill hfill hhole
    obtain rfl : .raw text = value := Option.some.inj (hraw.symm.trans hvalue)
    obtain ⟨hbare, -⟩ := fillHole_raw hown
    exact ⟨hbare, (hagrees _ hhole).bare hbare⟩
  case refused =>
    intro index quoting enclosing hhole haround options
    have hbare : quoting ≠ .bare := (hagrees _ hhole).ne_bare (by rintro rfl; simp at haround)
    obtain ⟨context, hcontext⟩ := exists_unsafeContext haround quoting
    have hvalue := @fillHole_of_unsafeContext options _ _ _ hbare hcontext
    have hfill : ∀ values, ∃ error, fill options values lexemes = .error error := by
      intro values
      cases hfill : fill options values lexemes with
      | error e => exact ⟨e, rfl⟩
      | ok tokens =>
          obtain ⟨value, own, -, hown⟩ := exists_fillHole_of_fill hfill hhole
          rcases hvalue value with herror | ⟨-, -, herror⟩ <;> cases hown.symm.trans herror
    obtain ⟨error, herror⟩ := hfill t.holes
    exact ⟨fun value ↦ (hvalue value).imp_left fun herror ↦ ⟨context, herror⟩, hfill,
      _, Template.compile_of_fill_error h herror⟩

end Template

/-- Shell syntax at the top, and a text two substitutions deep, one of them in backticks. -/
def listedInput : Template :=
  ⟨[.literal "cat ".toList, .hole (.raw "<in".toList), .literal " `sort $(ls ".toList,
    .hole (.str "it's".toList), .literal ")`".toList]⟩

/-- Shell syntax in backticks in double quotes, and a list as the default of an expansion. -/
def quotedCount : Template :=
  ⟨[.literal "echo \"`wc ".toList, .hole (.raw "-l".toList), .literal "` $\x7bd:-".toList,
    .hole (.list [['x'], ['y']]), .literal "\x7d\"".toList]⟩

private theorem exists_lexemes_of_holes {t : Template} {holes : List Lexeme}
    (h : t.lexemes.map (·.filter (·.token.isHole)) = .ok holes) :
    ∃ lexemes, t.lexemes = .ok lexemes ∧ ∀ lexeme ∈ holes, lexeme ∈ lexemes := by
  obtain ⟨lexemes, hlexemes, rfl⟩ := map_eq_ok_iff.1 h
  exact ⟨lexemes, hlexemes, fun _ ↦ List.mem_of_mem_filter⟩

theorem quoting_tells_enclosing_listedInput :
    (∃ lexemes tokens, listedInput.lexemes = .ok lexemes ∧
      fill {} listedInput.holes lexemes = .ok tokens ∧
      (∃ quoting enclosing, ⟨.hole 0, quoting, enclosing⟩ ∈ lexemes ∧
        quoting = .bare ∧ enclosing = {}) ∧
      ∃ enclosing, ⟨.hole 1, .substitution 2, enclosing⟩ ∈ lexemes ∧
        enclosing.backticks = 1 ∧ 1 ≤ 2 ∧ enclosing.backticks ≤ 2) ∧
    ∃ lexemes, quotedCount.lexemes = .ok lexemes ∧
      (⟨.hole 0, .substitution 1, ⟨1, true, false⟩⟩ ∈ lexemes ∧
        ∀ value, ∃ error, fillHole {} (.substitution 1) ⟨1, true, false⟩ value = .error error) ∧
      (⟨.hole 1, .parameter, ⟨0, false, true⟩⟩ ∈ lexemes ∧
        ∀ value, ∃ error, fillHole {} .parameter ⟨0, false, true⟩ value = .error error) ∧
      ∃ error, quotedCount.compile {} = .error error := by
  constructor
  · have hholes : listedInput.lexemes.map (·.filter (·.token.isHole)) =
        .ok [⟨.hole 0, .bare, {}⟩, ⟨.hole 1, .substitution 2, ⟨1, false, false⟩⟩] := by
      decide +kernel
    have htokens : (listedInput.tokens {}).map List.length = .ok 8 := by decide +kernel
    obtain ⟨lexemes, hlexemes, hmem⟩ := exists_lexemes_of_holes hholes
    obtain ⟨hfirst, hrest⟩ := List.forall_mem_cons.1 hmem
    obtain ⟨hsecond, -⟩ := List.forall_mem_cons.1 hrest
    obtain ⟨tokens, hfilled, -⟩ := map_eq_ok_iff.1 htokens
    rw [Template.tokens_of_lexemes hlexemes, mapError_eq_ok_iff] at hfilled
    obtain ⟨hagrees, hspliced, -⟩ := quoting_tells_enclosing hlexemes
    exact ⟨lexemes, tokens, hlexemes, hfilled,
      ⟨_, _, hfirst, hspliced _ _ _ hfilled _ _ _ _ hfirst rfl⟩,
      _, hsecond, rfl, (hagrees _ hsecond).2.2 2 rfl⟩
  · have hholes : quotedCount.lexemes.map (·.filter (·.token.isHole)) =
        .ok [⟨.hole 0, .substitution 1, ⟨1, true, false⟩⟩,
          ⟨.hole 1, .parameter, ⟨0, false, true⟩⟩] := by
      decide +kernel
    obtain ⟨lexemes, hlexemes, hmem⟩ := exists_lexemes_of_holes hholes
    obtain ⟨hfirst, hrest⟩ := List.forall_mem_cons.1 hmem
    obtain ⟨hsecond, -⟩ := List.forall_mem_cons.1 hrest
    obtain ⟨-, -, hrefused⟩ := quoting_tells_enclosing hlexemes
    obtain ⟨hraw, -, hcompile⟩ := hrefused _ _ _ hfirst (.inr rfl) {}
    obtain ⟨hlist, -, -⟩ := hrefused _ _ _ hsecond (.inl rfl) {}
    exact ⟨lexemes, hlexemes,
      ⟨hfirst, fun value ↦ (hraw value).elim (fun ⟨_, h⟩ ↦ ⟨_, h⟩) fun ⟨_, _, h⟩ ↦ ⟨_, h⟩⟩,
      ⟨hsecond, fun value ↦ (hlist value).elim (fun ⟨_, h⟩ ↦ ⟨_, h⟩) fun ⟨_, _, h⟩ ↦ ⟨_, h⟩⟩,
      hcompile⟩

end ShellTemplate
