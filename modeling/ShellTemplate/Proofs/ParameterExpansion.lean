import ShellTemplate.Proofs.SpecialParameters

/-!
# Holes in parameter expansions

A parameter expansion stays open until its brace, whatever quotes and further
expansions open inside it. As long as it is open, no value can be filled in.
-/

namespace ShellTemplate

open Scanner

namespace Scanner

variable {scope : Scope} {s : Scanner} {c : Char}

/-- A parameter expansion of the current command is open. -/
def InParameter (s : Scanner) : Prop := (commandFrames s.frames).any Frame.isParameter = true

theorem commandFrames_cons (frame : Frame) (rest : List Frame) :
    commandFrames (frame :: rest) =
      if frame.isSubstitution then [] else frame :: commandFrames rest := by
  cases h : frame.isSubstitution <;> simp [commandFrames, h]

namespace InParameter

theorem of_frames {t : Scanner} (h : s.InParameter) (hframes : t.frames = s.frames) :
    t.InParameter := by
  unfold InParameter at h ⊢
  rwa [hframes]

theorem frames_ne_nil (h : s.InParameter) : s.frames ≠ [] := by
  intro hframes
  simp [InParameter, hframes, commandFrames] at h

/-- Nothing but a command substitution hides the expansion. -/
theorem enter (h : s.InParameter) (frame : Frame) (hframe : frame.isSubstitution = false) :
    (s.enter frame).InParameter := by
  unfold InParameter at h ⊢
  simp [Scanner.enter, commandFrames_cons, hframe, h]

theorem leave (h : s.InParameter) {frame : Frame} {rest : List Frame}
    (hframes : s.frames = frame :: rest) (hframe : frame.isParameter = false) :
    s.leave.InParameter := by
  unfold InParameter at h ⊢
  rw [hframes, commandFrames_cons] at h
  split_ifs at h
  · cases h
  · simpa [Scanner.leave, hframes, hframe] using h

theorem not_substitution (h : s.InParameter) {opened parens : Nat} {rest : List Frame} :
    s.frames ≠ .substitution opened parens :: rest := by
  intro hframes
  simp [InParameter, hframes, commandFrames_cons, Frame.isSubstitution] at h

theorem completion (h : s.InParameter) (hparen : c ≠ '(') {step : Step}
    (hstep : Completion scope c s step) : step.1.InParameter := by
  cases hstep with
  | commentOn => exact h
  | commentEnd => exact h.of_frames (emitOperator_frames _ (s.inMode .plain)).1
  | escaped => exact h.of_frames (readEscaped_fields s c).frames
  | openParameter opened => exact h.enter (.parameter opened) rfl
  | openSubstitution _ _ hc => exact absurd hc hparen
  | operator => exact h.of_frames (emitOperator_frames _ (s.inMode .plain)).1

theorem move (h : s.InParameter) (hbrace : c ≠ '\x7d') {place : Nat} {step : Step}
    (hmove : Move scope place c s step) : step.1.InParameter := by
  have hquote : ∀ {frame : Frame}, QuoteFrame c frame →
      frame.isSubstitution = false ∧ frame.isParameter = false := by
    rintro frame (⟨-, p, rfl⟩ | ⟨-, p, rfl⟩) <;> exact ⟨rfl, rfl⟩
  cases hmove with
  | blank => exact h.of_frames (emitBlank_frames s).1
  | operator _ op => exact h.of_frames (emitOperator_frames op s).1
  | angle _ mode => exact h.of_frames (readAngle_frames mode s).1
  | comment | begin | keep | glob | backslash | dollar => exact h.of_frames rfl
  | openQuote _ frame hframe => exact h.enter frame (hquote hframe).1
  | openInner _ _ _ _ frame hframe => exact h.enter frame (hquote hframe).1
  | closeQuote frame rest hframes hframe => exact h.leave hframes (hquote hframe).2
  | closeExpansion frame rest hframes hframe =>
      rcases hframe with ⟨-, opened, rfl⟩ | ⟨hc, -⟩
      · exact absurd hframes h.not_substitution
      · exact absurd hc hbrace
  | nest opened parens parens' rest hframes => exact absurd hframes h.not_substitution

/-- Only the brace closes the expansion, and only a command substitution hides it. -/
theorem stepChar (h : s.InParameter) (hbrace : c ≠ '\x7d') (hparen : c ≠ '(') (place : Nat) :
    (s.stepChar scope c place).1.InParameter := by
  unfold Scanner.stepChar
  cases hc : s.complete? scope c with
  | some step => exact h.completion hparen (complete_completion hc)
  | none =>
      have hsettled := h.of_frames (settleBefore_settlement hc).frames
      dsimp only [Step.andThen_fst]
      exact hsettled.move hbrace readChar_move

/-- Every text without these characters is read inside the expansion. -/
theorem exists_scan (h : s.InParameter) {text : List Char}
    (htext : ∀ c ∈ ['\x7d', '(', '\x60'], c ∉ text) :
    ∃ out, scan scope s (charItems text) = .ok out ∧ out.1.InParameter ∧ Filled out.2 := by
  induction text generalizing s with
  | nil => exact ⟨(s, []), scan_nil scope s, h, .nil⟩
  | cons c rest ih =>
      have hne : ∀ d ∈ ['\x7d', '(', '\x60'], c ≠ d ∧ d ∉ rest := fun d hd ↦ by
        simpa [eq_comm] using htext d hd
      have hstep := @stepChar scope s c h (hne _ (by simp)).1 (hne _ (by simp)).1 0
      obtain ⟨out, hscan, hout, hfilled⟩ := ih hstep fun d hd ↦ (hne d hd).2
      refine ⟨(s.stepChar scope c 0).before out, ?_, hout,
        Filled.append_iff.2 ⟨.stepChar c 0, hfilled⟩⟩
      rw [charItems_cons, scan_char _ _ (not_opensBodyAt_of_ne (hne '\x60' (by simp)).1), hscan]
      rfl

/-- A hole is reported inside the expansion, in whichever quotes it stands. -/
theorem exists_stepHole (h : s.InParameter) (hs : s.Sound) (index : Nat) :
    ∃ lead quoting enclosing,
      (s.stepHole scope index).2 = lead ++ [⟨.hole index, quoting, enclosing⟩] ∧ Filled lead ∧
        quoting ≠ .bare ∧ enclosing.parameter = true := by
  have hquoting : scope.quoting s.frames ≠ .bare := by
    obtain ⟨frame, rest, hframes⟩ := List.exists_cons_of_ne_nil h.frames_ne_nil
    cases frame <;> simp [Scope.quoting, hframes]
  have hmove : HoleMove scope index s (s.stepHole scope index) := stepHole_holeMove
  generalize s.stepHole scope index = step at hmove
  cases hmove with
  | comment hmode => exact absurd (hs.bare (by simp [hmode, Mode.isBare])) h.frames_ne_nil
  | operator pending hmode => exact absurd (hs.bare_of_pending hmode) h.frames_ne_nil
  | escaped => exact ⟨_, _, _, rfl, .flush, escapedQuoting_ne_bare, h⟩
  | dollar => exact ⟨_, _, _, rfl, .flush, hquoting, h⟩
  | plain => exact ⟨_, _, _, rfl, .flush, hquoting, h⟩

end InParameter

/-- A dollar sign and a brace open a parameter expansion, unless a backslash or a single quote
stands before them or a comment goes on. -/
theorem exists_scan_parameter (hs : s.Sound) (hcomment : s.mode ≠ .comment)
    (hescape : s.mode ≠ .escape) (hsingle : s.inSingle = false) :
    ∃ out, scan scope s (charItems ['$', '\x7b']) = .ok out ∧ out.1.InParameter ∧
      Filled out.2 := by
  obtain ⟨u, -, -, hdollar⟩ := @stepChar_dollar_of_bare scope s hs hcomment hescape hsingle
  have hbrace : (u.inMode (.dollar 0)).stepChar scope '\x7b' 0 =
      ((((u.inMode .plain).push scope ['$', '\x7b'] ['$', '\x7b']).markExpands).enter
        (.parameter 0), []) := rfl
  refine ⟨(s.stepChar scope '$' 0).before
    (((((u.inMode .plain).push scope ['$', '\x7b'] ['$', '\x7b']).markExpands).enter
      (.parameter 0)), []), ?_, ?_, Filled.append_iff.2 ⟨.stepChar '$' 0, .nil⟩⟩
  · rw [charItems_cons, charItems_cons, charItems_nil,
      scan_char _ _ (not_opensBodyAt_of_ne (by decide)), hdollar,
      scan_char _ _ (not_opensBodyAt_of_ne (by decide)), hbrace, scan_nil]
    rfl
  · rfl

end Scanner

/-- No value is filled in inside a parameter expansion; shell syntax is refused for another
reason. -/
theorem fillHole_in_parameter {quoting : Quoting} {enclosing : Enclosing}
    (hquoting : quoting ≠ .bare) (hparameter : enclosing.parameter = true) (value : Value)
    (options : FillOptions) :
    fillHole options quoting enclosing value = .error (.fill (.unsafeContext .parameterExpansion)) ∨
      ∃ text, value = .raw text ∧
        fillHole options quoting enclosing value = .error (.fill (.rawInContext quoting)) := by
  refine fillHole_of_unsafeContext hquoting ?_ value
  simp [Value.unsafeContext?, hparameter]

/-- A template refuses the value of its first hole where it cannot be filled in. -/
theorem Template.compile_of_first_hole {t : Template} {options : FillOptions} {value : Value}
    {values : List Value} {lead more : List Lexeme} {quoting : Quoting} {enclosing : Enclosing}
    {error : FillError} (hvalues : t.holes = value :: values) (hlead : Filled lead)
    (hlexemes : t.lexemes = .ok (lead ++ ⟨.hole 0, quoting, enclosing⟩ :: more))
    (hfill : fillHole options quoting enclosing value = .error (.fill error)) :
    t.compile options = .error (.fill error) := by
  have hfirst : (t.holes)[0]? = some value := by rw [hvalues]; rfl
  have hfilled : fill options t.holes (lead ++ ⟨.hole 0, quoting, enclosing⟩ :: more) =
      .error (.fill error) := by
    rw [fill_append, fill_of_not_hole hlead, fill_hole hfirst, hfill]
    rfl
  exact Template.compile_of_fill_error hlexemes hfilled

section Template

variable {a opening b : List Char} {value : Value} {rest : List Segment} {t : Template}

/-- Where a text that opens a parameter expansion is read, the hole behind it is reported inside
the expansion. -/
theorem exists_lexemes_in_parameter {lexemes : List Lexeme} (ha : lexemesOfText a = .ok lexemes)
    (hhash : '#' ∉ a) (hopening : opening = [] ∨ opening = ['"'])
    (hb : ∀ c ∈ ['\x7d', '(', '\x60'], c ∉ b)
    (ht : t.segments = [.literal a, .literal opening, .literal ['$', '\x7b'], .literal b,
      .hole value] ++ rest) {all : List Lexeme} (hall : t.lexemes = .ok all) :
    ∃ lead quoting enclosing more, all = lead ++ ⟨.hole 0, quoting, enclosing⟩ :: more ∧
      Filled lead ∧ quoting ≠ .bare ∧ enclosing.parameter = true := by
  obtain ⟨before, hbefore, hs, hescape, hsingle⟩ := exists_scan_opening ha hopening
  have hcomment : before.1.mode ≠ .comment :=
    mode_ne_comment_of_scan (by rcases hopening with rfl | rfl <;> simpa using hhash) hbefore
  obtain ⟨opened, hopened, hin, hfilled⟩ :=
    @exists_scan_parameter {} before.1 hs hcomment hescape hsingle
  obtain ⟨inner, hinner, hstill, hfilled'⟩ := @InParameter.exists_scan {} opened.1 hin b hb
  have hsound : inner.1.Sound :=
    (scans_of_scan hinner).sound ((scans_of_scan hopened).sound hs)
  obtain ⟨lead, quoting, enclosing, hstep, hlead, hquoting, hparameter⟩ :=
    @InParameter.exists_stepHole {} inner.1 hstill hsound 0
  have hitems : unplaced t.symbols = charItems (a ++ opening) ++ (charItems ['$', '\x7b'] ++
      (charItems b ++ ⟨.hole 0, 0⟩ :: unplaced (symbolsFrom 1 rest))) := by
    simp [Template.symbols, ht, symbolsFrom, unplaced, charItems, Function.comp_def]
  rw [Template.lexemes_eq_ok_iff, hitems, scanAll_eq_scanRest, scanRest_append hbefore,
    scanRest_append hopened, scanRest_append hinner,
    scanRest_of_map (scan_hole _ _ 0 0 _)] at hall
  simp only [map_map, map_eq_ok_iff] at hall
  obtain ⟨more, -, rfl⟩ := hall
  have hplain := (scans_of_scan hbefore).filled (plain_charItems _)
  refine ⟨before.2 ++ opened.2 ++ inner.2 ++ lead, quoting, enclosing, more, ?_, ?_, hquoting,
    hparameter⟩
  · simp [hstep]
  · simp [hplain, hfilled, hfilled', hlead]

/-- Behind a brace that opens a parameter expansion no value compiles, whatever its kind and
whatever stands behind it. Neither quotes nor backslashes nor further expansions between the brace
and the hole make it acceptable. -/
theorem compile_in_parameter {lexemes : List Lexeme} (ha : lexemesOfText a = .ok lexemes)
    (hhash : '#' ∉ a) (hopening : opening = [] ∨ opening = ['"'])
    (hb : ∀ c ∈ ['\x7d', '(', '\x60'], c ∉ b)
    (ht : t.segments = [.literal a, .literal opening, .literal ['$', '\x7b'], .literal b,
      .hole value] ++ rest) (options : FillOptions) :
    ∃ error, t.compile options = .error error ∧
      ((∃ e, t.lexemes = .error e ∧ error = .lex e) ∨
        error = .fill (.unsafeContext .parameterExpansion) ∨
        ∃ text quoting, value = .raw text ∧ error = .fill (.rawInContext quoting)) := by
  cases hall : t.lexemes with
  | error e => exact ⟨.lex e, Template.compile_of_lexemes_error hall, .inl ⟨e, rfl, rfl⟩⟩
  | ok all =>
      have hvalues : t.holes = value :: Template.holes ⟨rest⟩ := by
        rw [Template.holes, ht]
        rfl
      obtain ⟨lead, quoting, enclosing, more, rfl, hlead, hquoting, hparameter⟩ :=
        exists_lexemes_in_parameter ha hhash hopening hb ht hall
      rcases fillHole_in_parameter hquoting hparameter value options with
        hfill | ⟨text, hraw, hfill⟩
      · exact ⟨_, Template.compile_of_first_hole hvalues hlead hall hfill, .inr (.inl rfl)⟩
      · exact ⟨_, Template.compile_of_first_hole hvalues hlead hall hfill,
          .inr (.inr ⟨text, quoting, hraw, rfl⟩)⟩

end Template

/-- The default of an expansion inside double quotes, with a hole in double quotes of its own. -/
def quotedDefault : Template :=
  ⟨[.literal "cat ".toList, .literal ['"'], .literal ['$', '\x7b'], .literal "dir:-'\"".toList,
    .hole (.str ['x']), .literal ['"', '\'', '\x7d', '"']]⟩

theorem compile_in_parameter_quotedDefault :
    (∃ lexemes, lexemesOfText "cat ".toList = .ok lexemes) ∧ '#' ∉ "cat ".toList ∧
      (∀ c ∈ ['\x7d', '(', '\x60'], c ∉ "dir:-'\"".toList) ∧
      quotedDefault.compile {} = .error (.fill (.unsafeContext .parameterExpansion)) := by
  have htext : (lexemesOfText "cat ".toList).map (fun _ ↦ ()) = .ok () := by decide +kernel
  obtain ⟨lexemes, hlexemes, -⟩ := map_eq_ok_iff.1 htext
  have hhash : '#' ∉ "cat ".toList := by decide
  have hb : ∀ c ∈ ['\x7d', '(', '\x60'], c ∉ "dir:-'\"".toList := by simp
  have hreads : quotedDefault.lexemes.map (fun _ ↦ ()) = .ok () := by decide +kernel
  obtain ⟨all, hall, -⟩ := map_eq_ok_iff.1 hreads
  have hsegments : quotedDefault.segments = [.literal "cat ".toList, .literal ['"'],
      .literal ['$', '\x7b'], .literal "dir:-'\"".toList, .hole (.str ['x'])] ++
        [.literal ['"', '\'', '\x7d', '"']] := rfl
  obtain ⟨error, herror, hkind⟩ :=
    compile_in_parameter hlexemes hhash (.inr rfl) hb hsegments {}
  refine ⟨⟨lexemes, hlexemes⟩, hhash, hb, ?_⟩
  rcases hkind with ⟨e, hnot, -⟩ | rfl | ⟨text, quoting, hraw, -⟩
  · cases hall.symm.trans hnot
  · exact herror
  · cases hraw

end ShellTemplate
