import ShellTemplate.Proofs.Exchanged.Tied

/-!
# What a character writes on both lines

A character of the template writes the same on both lines, sooner or later. A descriptor number is
taken off the lines before its operator is written, so the lines are also known to be read alike
without the digits at their ends.
-/

namespace ShellTemplate

namespace Scanner

variable {free free' loose loose' : Prop} {b : Nat} {scope : Scope} {s s' t u v : Scanner}
  {tokens tokens' : List Token} {c : Char}

theorem core_dropped (h : s.mode ≠ .escape) : ({ s with piece := {} } : Scanner).core.raw = [] := by
  rw [@core_of_ne { s with piece := {} } h]

/-- Without the digits that are being read, both lines have been read alike. -/
def TiedDigits (b : Nat) (scope : Scope) (s : Scanner) (tokens tokens' : List Token) : Prop :=
  s.frames = [] → s.previous ≠ .word → (∀ c ∈ s.piece.raw, isDigit c = true) →
    Tied True False b scope { s with piece := {} } tokens tokens'

theorem tiedDigits_of_notDigits (h : NotDigits s.piece.raw) :
    TiedDigits b scope s tokens tokens' := by
  intro _ _ hdigits
  obtain ⟨c, hc, hdigit⟩ := h
  rw [hdigits c hc] at hdigit
  cases hdigit

/-- What holds between two symbols of the template. -/
structure Along (loose : Prop) (b : Nat) (scope : Scope) (s : Scanner)
    (tokens tokens' : List Token) : Prop where
  tied : Tied (s.mode = .plain) loose b scope s tokens tokens'
  digits : s.mode = .plain → TiedDigits b scope s tokens tokens'

theorem Along.imp (h : Along loose b scope s tokens tokens') (hloose : loose → loose') :
    Along loose' b scope s tokens tokens' :=
  ⟨h.tied.of_same rfl rfl rfl id hloose, h.digits⟩

theorem Tied.along (h : Tied True False b scope s tokens tokens')
    (hdigits : s.mode = .plain → TiedDigits b scope s tokens tokens') :
    Along loose b scope s tokens tokens' :=
  ⟨h.of_same rfl rfl rfl (fun _ ↦ trivial) False.elim, hdigits⟩

theorem Tied.along_of_empty (h : Tied True False b scope s tokens tokens') (hraw : s.piece.raw = [])
    (hempty : s.piece.raw = [] → s.piece = {}) : Along loose b scope s tokens tokens' := by
  refine h.along fun _ _ _ _ ↦ ?_
  have hsame : { s with piece := {} } = s := by
    rw [← hempty hraw]
  rwa [hsame]

section Operator

variable {op : Operator} (hs : s.Sound) (hescape : s.mode ≠ .escape) (hbare : s.frames = [])
include hs hescape hbare

/-- An operator is written that was undecided, or that ends a comment. -/
theorem Along.emitOperator (h : Along loose b scope s tokens tokens') (hop : op ≠ .openParen) :
    Along loose' b scope ((s.inMode .plain).emitOperator op).1
      (tokens ++ ((s.inMode .plain).emitOperator op).2.map Lexeme.token)
      (tokens' ++ ((s.inMode .plain).emitOperator op).2.map Lexeme.token) := by
  have hsettled := hs.settled hescape
  have hempty := hsettled.piece_empty rfl
  have hcore : (s.inMode .plain).core.raw = s.core.raw := by
    rw [core_of_ne hescape]
    rfl
  have hplain : Tied False loose b scope (s.inMode .plain) tokens tokens' :=
    h.tied.of_same rfl hcore rfl False.elim id
  have hpiece : ((s.inMode .plain).emitOperator op).1.piece = {} := by rw [emitOperator_eq hempty]
  exact (hplain.emitOperator rfl hempty hbare fun heq ↦ absurd heq hop).along_of_empty
    (raw_emitOperator _ op) fun _ ↦ hpiece

end Operator

theorem ne_openParen_of_pending {mode : Mode} {pending : Operator}
    (h : mode.pending? = some pending) : pending ≠ .openParen := by
  rintro rfl
  cases mode <;> simp [Mode.pending?] at h

theorem Tied.dollar (h : Tied free loose b scope s tokens tokens') (hs : s.Sound)
    (hpaired : s.Paired) {opened : Nat} (hmode : s.mode = .dollar opened) {e : Bool}
    (hpush : Pushed s s' '$' e s.frames) (hfree : ¬ free') :
    Tied free' loose' b scope s' tokens tokens' := by
  obtain ⟨t, ht, hguides, -, hgo⟩ := h.exists_reader
  have hescape : s.mode ≠ .escape := by simp [hmode]
  have hescape' : s'.mode ≠ .escape := by simp [hpush.mode]
  have hline : ∀ tokens : List Token, s'.decided b tokens = s.decided b tokens ++ ['$'] := by
    intro tokens
    rw [decided_eq_line hescape', decided_eq_line hescape, line_push b tokens hpush]
  have hreader : ∃ v, t.ReadsTo scope ['$'] v ∧ Guides free' loose' s' v := by
    refine hguides.reads_on ht (fun _ ↦ by decide) (by simp) fun u hplain hu ↦ ?_
    have hsingle : u.inSingle = false := by
      rw [inSingle_of_frames hu.frames]
      exact hs.dollar opened hmode
    refine ⟨u.inMode (.dollar 0), ⟨_, reads_dollar hplain hsingle⟩,
      hu.frames.trans hpush.frames.symm,
      by simp [inMode], by simp [inMode], hu.previous, fun _ ↦ .inl (.inr ⟨0, rfl⟩), hu.inside,
      fun _ _ ↦ .inl ⟨hfree, ?_⟩⟩
    have heven := hpaired (hs.dollar opened hmode)
    rw [core_of_ne hescape] at heven
    rw [core_of_ne hescape', hpush.raw]
    exact endsInUnescapedDollar_concat heven
  obtain ⟨v, hv, hguides'⟩ := hreader
  exact hgo (hline tokens) (hline tokens') hv hguides' fun hnil ↦
    .inl (hpush.frames.symm.trans hnil)

/-- What the next character decides is written. -/
theorem Along.settle (h : Along loose b scope s tokens tokens') (hs : s.Sound) (hpaired : s.Paired)
    (hnone : s.complete? scope c = none) :
    Tied (c = '\x7b' ∨ c = '(') (loose ∧ s.mode = .plain) b scope (s.settleBefore scope c).1
        (tokens ++ (s.settleBefore scope c).2.map Lexeme.token)
        (tokens' ++ (s.settleBefore scope c).2.map Lexeme.token) ∧
      TiedDigits b scope (s.settleBefore scope c).1
        (tokens ++ (s.settleBefore scope c).2.map Lexeme.token)
        (tokens' ++ (s.settleBefore scope c).2.map Lexeme.token) := by
  have hsettlement := settleBefore_settlement hnone
  generalize s.settleBefore scope c = step at hsettlement
  have hdollar : ∀ {opened : Nat} {s' : Scanner} {e : Bool}, s.mode = .dollar opened →
      ¬ (c = '\x7b' ∨ c = '(') → Pushed s s' '$' e s.frames →
      Tied (c = '\x7b' ∨ c = '(') (loose ∧ s.mode = .plain) b scope s' (tokens ++ [])
          (tokens' ++ []) ∧
        TiedDigits b scope s' (tokens ++ []) (tokens' ++ []) := by
    intro opened s' e hmode hfree hpush
    rw [List.append_nil, List.append_nil]
    refine ⟨h.tied.dollar hs hpaired hmode hpush hfree, tiedDigits_of_notDigits ⟨'$', ?_, rfl⟩⟩
    simp [hpush.raw]
  cases hsettlement with
  | plain hmode =>
      rw [List.map_nil, List.append_nil, List.append_nil]
      exact ⟨h.tied.of_same rfl rfl rfl (fun _ ↦ hmode) fun hloose ↦ ⟨hloose, hmode⟩,
        h.digits hmode⟩
  | dollar opened hmode hparameter hsubstitution =>
      exact hdollar hmode (not_or.2 ⟨hparameter, hsubstitution⟩)
        ⟨rfl, rfl, rfl, rfl, (Bool.or_true _).symm⟩
  | lone opened hmode hparameter hsubstitution =>
      exact hdollar hmode (not_or.2 ⟨hparameter, hsubstitution⟩)
        ⟨rfl, rfl, rfl, rfl, (Bool.or_false _).symm⟩
  | operator pending hmode =>
      have hafter : Along (loose ∧ s.mode = .plain) b scope _ _ _ :=
        h.emitOperator hs (ne_escape_of_pending hmode) (hs.bare_of_pending hmode)
          (ne_openParen_of_pending hmode)
      have hplain := (emitOperator_frames pending (s.inMode .plain)).2
      exact ⟨hafter.tied.of_same rfl rfl rfl (fun _ ↦ hplain) id, hafter.digits hplain⟩

theorem Tied.along_push (h : Tied (c = '\x7b' ∨ c = '(') loose b scope s tokens tokens')
    (hnext : loose → c ∉ ['#', '\x7b', '(']) (hd : TiedDigits b scope s tokens tokens')
    (hmode : s.mode = .plain) {e : Bool} {frames : List Frame} {lexemes : List Lexeme}
    (hread : s.readChar scope c 0 = (s', lexemes))
    (hpush : Pushed s s' c e frames) (hbody : ¬ (c = '\x60' ∧ s.opensBody = true))
    (hbare : s.frames = [] → c ∉ ['|', '&', '>'] ∧ (c = '#' → s.atWordStart = false))
    (hquote : s.frames ≠ frames → c ∈ ['\'', '"', '(', ')', '\x7d']) :
    Along loose' b scope s' tokens tokens' := by
  refine (h.push hnext hmode hread hpush hbody hbare hquote).along fun _ hnil hprevious hdigits ↦ ?_
  rw [hpush.raw] at hdigits
  have hc := hdigits c (by simp)
  have hsame : s.frames = frames := by
    by_contra hne
    have hmem := hquote hne
    simp only [List.mem_cons, List.not_mem_nil, or_false] at hmem
    rcases hmem with rfl | rfl | rfl | rfl | rfl <;> cases hc
  have hframes : s'.frames = s.frames := hpush.frames.trans hsame.symm
  have hbefore := hd (hframes ▸ hnil) (hpush.previous ▸ hprevious)
    fun d hd ↦ hdigits d (List.mem_append_left _ hd)
  refine hbefore.of_same hframes ?_ hpush.previous id id
  rw [core_dropped (by simp [hpush.mode]), core_dropped (by simp [hmode])]

theorem bare_of_push {frames : List Frame}
    (ordinary : s.frames = [] → frames = [] → c ∉ bareSyntax ∧ (c = '#' → s.atWordStart = false))
    (quote : s.frames ≠ frames → c ∈ ['\'', '"', '(', ')', '\x7d']) (hbare : s.frames = []) :
    c ∉ ['|', '&', '>'] ∧ (c = '#' → s.atWordStart = false) := by
  by_cases hframes : frames = []
  · obtain ⟨hother, hstart⟩ := ordinary hbare hframes
    refine ⟨fun hmem ↦ hother ?_, hstart⟩
    simp only [List.mem_cons, List.not_mem_nil, or_false] at hmem
    rcases hmem with rfl | rfl | rfl <;> decide
  · have hc := quote fun heq ↦ hframes (heq.symm.trans hbare)
    simp only [List.mem_cons, List.not_mem_nil, or_false] at hc
    rcases hc with rfl | rfl | rfl | rfl | rfl <;> exact ⟨by decide, fun heq ↦ by cases heq⟩

theorem Tied.readAngle (h : Tied free loose b scope s tokens tokens')
    (hd : TiedDigits b scope s tokens tokens') (hmode : s.mode = .plain) (hbare : s.frames = [])
    {mode : Option Nat → Mode} (hangle : (c = '>' ∧ mode = .greater) ∨ (c = '<' ∧ mode = .less)) :
    Along loose b scope (s.readAngle mode) tokens tokens' := by
  have hne : ∀ fd, mode fd ≠ .plain ∧ mode fd ≠ .escape := by
    intro fd
    rcases hangle with ⟨-, rfl⟩ | ⟨-, rfl⟩ <;> simp
  have hescape : s.mode ≠ .escape := by simp [hmode]
  unfold Scanner.readAngle
  cases hfd : s.writtenDescriptor? with
  | none =>
      have hcore : ({ s with mode := mode none } : Scanner).core.raw = s.core.raw := by
        rw [core_of_ne (hne none).2, core_of_ne hescape]
      exact ⟨h.of_same rfl hcore rfl (fun hplain ↦ absurd hplain (hne none).1) id,
        fun hplain ↦ absurd hplain (hne none).1⟩
  | some fd =>
      -- the digits are taken off the line
      obtain ⟨-, hprevious, hdescriptor⟩ := writtenDescriptor?_eq_some_iff.1 hfd
      have hbefore := hd hbare hprevious (digits_of_readDescriptor? hdescriptor).2.1
      have hcore := @core_dropped { s with mode := mode (some fd) } (hne (some fd)).2
      exact ⟨hbefore.of_same rfl (hcore.trans (core_dropped hescape).symm) rfl (fun _ ↦ trivial)
        False.elim, fun hplain ↦ absurd hplain (hne (some fd)).1⟩

theorem Tied.readChar (h : Tied (c = '\x7b' ∨ c = '(') loose b scope s tokens tokens')
    (hnext : loose → c ∉ ['#', '\x7b', '(']) (hd : TiedDigits b scope s tokens tokens')
    (hs : s.Sound) (hmode : s.mode = .plain) (hbody : ¬ (c = '\x60' ∧ s.opensBody = true)) :
    Along (loose ∧ (s.readChar scope c 0).1.mode ≠ .plain) b scope (s.readChar scope c 0).1
      (tokens ++ (s.readChar scope c 0).2.map Lexeme.token)
      (tokens' ++ (s.readChar scope c 0).2.map Lexeme.token) := by
  have hempty := hs.piece_empty hmode
  have hwithin : Within s s [] := ⟨(List.append_nil _).symm, .inl rfl, by simp⟩
  have hparallel : Parallel scope scope c s s [] _ _ :=
    parallel_readChar hwithin hmode hmode fun _ _ ↦ rfl
  generalize hstep : s.readChar scope c 0 = step at hparallel
  have hwait : ∀ {s' : Scanner}, s'.mode ≠ .plain → s'.frames = s.frames →
      s'.core.raw = s.core.raw → s'.previous = s.previous →
      Along (loose ∧ s'.mode ≠ .plain) b scope s' (tokens ++ []) (tokens' ++ []) := by
    intro s' hmode' hframes hraw hprevious
    rw [List.append_nil, List.append_nil]
    exact ⟨h.of_same hframes hraw hprevious (fun hplain ↦ absurd hplain hmode') (⟨·, hmode'⟩),
      fun hplain ↦ absurd hplain hmode'⟩
  cases hparallel with
  | blank hbare =>
      have hplain := (emitBlank_frames s).2.trans hmode
      exact (h.emitBlank hmode hempty hbare).along_of_empty (raw_emitBlank s)
        ((hs.emitBlank hmode hbare).piece_empty hplain)
  | operator hbare op hop =>
      have hplain := (emitOperator_frames op s).2.trans hmode
      refine (h.emitOperator hmode hempty hbare fun hparen ↦ ?_).along_of_empty
        (raw_emitOperator s op) ((hs.emitOperator hmode hbare op).1.piece_empty hplain)
      rw [hparen] at hop
      have hc : c = '(' := (List.head_eq_of_cons_eq hop).symm
      exact ⟨.inr hc, fun hloose ↦ hnext hloose (by simp [hc])⟩
  | comment => exact hwait (by simp [inMode]) rfl (by simp [core, inMode, hmode]) rfl
  | begin _ mode hbegin =>
      rcases hbegin with ⟨-, rfl⟩ | ⟨-, rfl⟩ <;>
        exact hwait (by simp [inMode]) rfl (by simp [core, inMode, hmode]) rfl
  | dollar => exact hwait (by simp [inMode]) rfl (by simp [core, inMode, hmode]) rfl
  | backslash =>
      refine hwait (by simp [readBackslash, inMode]) rfl ?_ rfl
      rw [core_readBackslash, core_of_plain hmode]
  | angle hbare mode hangle =>
      rw [List.map_nil, List.append_nil, List.append_nil]
      refine (h.readAngle hd hmode hbare hangle).imp fun hloose ↦ ⟨hloose, ?_⟩
      obtain ⟨-, fd, hfd⟩ := readAngle_frames mode s
      dsimp only
      rw [hfd]
      rcases hangle with ⟨-, rfl⟩ | ⟨-, rfl⟩ <;> simp
  | push e _ frames hpush _ _ _ ordinary quote =>
      rw [List.map_nil, List.append_nil, List.append_nil]
      exact h.along_push hnext hd hmode hstep hpush hbody (bare_of_push ordinary quote) quote

/-- A text is written that is no number and decides what was undecided before it. -/
theorem Tied.write (h : Tied free loose b scope s tokens tokens') {text : List Char}
    (hline : ∀ tokens : List Token, s'.decided b tokens = s.decided b tokens ++ c :: text)
    (hc : c ∉ ['|', '&', '>', '\x7b', '(']) (hnumber : NotDigits (c :: text))
    (hframes : s'.frames = [] → s.frames = [])
    (hread : ∀ u : Scanner, u.mode = .plain → u.frames = s.frames →
      ∃ v lexemes, Reads scope u (c :: text) (.ok (v, lexemes)) ∧ v.mode = .plain ∧
        v.frames = s'.frames ∧ v.previous = u.previous ∧ v.piece.raw = u.piece.raw ++ c :: text) :
    Tied free' loose' b scope s' tokens tokens' := by
  obtain ⟨t, ht, hguides, -, hgo⟩ := h.exists_reader
  simp only [List.mem_cons, List.not_mem_nil, or_false, not_or] at hc
  obtain ⟨v, hv, hguides'⟩ : ∃ v, t.ReadsTo scope (c :: text) v ∧ Guides free' loose' s' v := by
    refine hguides.reads_on ht (fun _ ↦ by simp [hc]) (by simp [hc]) fun u hplain hu ↦ ?_
    obtain ⟨v, lexemes, hreads, hmode, hsame, hprevious, hraw⟩ := hread u hplain hu.frames
    exact ⟨v, ⟨lexemes, hreads⟩, hu.grown hmode hsame hprevious hraw hnumber⟩
  exact hgo (hline tokens) (hline tokens') hv hguides' fun hnil ↦ .inl (hframes hnil)

theorem Along.escaped (h : Along loose b scope s tokens tokens') (hs : s.Sound)
    (hmode : s.mode = .escape) (c : Char) :
    Along loose' b scope (s.readEscaped scope c) tokens tokens' := by
  obtain ⟨hbackslash, hsingle⟩ := hs.escape hmode
  have hfields := @readEscaped_fields scope s c
  have hraw : (s.readEscaped scope c).piece.raw = s.core.raw ++ ['\\', c] := by
    rw [hfields.raw, hbackslash, List.append_assoc]
    rfl
  have hescape : (s.readEscaped scope c).mode ≠ .escape := by simp [hfields.mode]
  have hline : ∀ tokens : List Token,
      (s.readEscaped scope c).decided b tokens = s.decided b tokens ++ ['\\', c] := by
    intro tokens
    rw [decided, decided, core_of_ne hescape, hraw, List.append_assoc]
  refine (h.tied.write hline (by decide) ⟨'\\', by simp, rfl⟩ (fun hnil ↦ hfields.frames ▸ hnil)
    fun u hplain hframes ↦ ?_).along fun _ ↦ tiedDigits_of_notDigits ⟨'\\', by simp [hraw], rfl⟩
  have hfields' := @readEscaped_fields scope (u.readBackslash scope) c
  refine ⟨_, _, reads_escaped c hplain (by rw [inSingle_of_frames hframes, hsingle]), hfields'.mode,
    hfields'.frames.trans (hframes.trans hfields.frames.symm), hfields'.previous, ?_⟩
  rw [hfields'.raw]
  simp [readBackslash, pushSyntax, Scanner.push, inMode]

theorem Along.openExpansion (h : Along loose b scope s tokens tokens') (hs : s.Sound)
    (hmode : s.mode = .dollar 0) {frame : Frame}
    (hframe : (c = '\x7b' ∧ frame = .parameter 0) ∨ (c = '(' ∧ frame = .substitution 0 0)) :
    Along loose' b scope
      ((((s.inMode .plain).push scope ['$', c] ['$', c]).markExpands).enter frame) tokens
      tokens' := by
  have hraw : ∀ u : Scanner, ((((u.inMode .plain).push scope ['$', c] ['$', c]).markExpands).enter
      frame).piece.raw = u.piece.raw ++ ['$', c] := fun _ ↦ rfl
  have hline : ∀ tokens : List Token,
      ((((s.inMode .plain).push scope ['$', c] ['$', c]).markExpands).enter frame).decided b
        tokens = s.decided b tokens ++ ['$', c] := by
    intro tokens
    rw [decided, decided, core_of_plain rfl, core_of_ne (by simp [hmode]), hraw, List.append_assoc]
  refine (h.tied.write hline (by decide) ⟨'$', by simp, rfl⟩ (fun hnil ↦ by cases hnil)
    fun u hplain hframes ↦ ?_).along fun _ ↦ tiedDigits_of_notDigits ⟨'$', by simp [hraw], rfl⟩
  have hsingle : u.inSingle = false := by
    rw [inSingle_of_frames hframes]
    exact hs.dollar 0 hmode
  exact ⟨_, _, reads_openExpansion hplain hsingle hframe, rfl, congrArg (frame :: ·) hframes, rfl,
    rfl⟩

theorem Along.completion (h : Along loose b scope s tokens tokens') (hs : s.Sound)
    (herase : s.erase = s) {step : Step} (hstep : Completion scope c s step) :
    Along (loose ∧ step.1.mode ≠ .plain) b scope step.1 (tokens ++ step.2.map Lexeme.token)
      (tokens' ++ step.2.map Lexeme.token) := by
  have hplace : ∀ opened, s.mode = .dollar opened → opened = 0 := by
    intro opened hmode
    have heq := congrArg Scanner.mode herase
    simp only [erase, hmode, Mode.erase, Mode.dollar.injEq] at heq
    exact heq.symm
  cases hstep with
  | commentOn hmode =>
      rw [List.map_nil, List.append_nil, List.append_nil]
      exact h.imp fun hloose ↦ ⟨hloose, by simp [hmode]⟩
  | commentEnd hmode =>
      have hbare : s.frames = [] := hs.bare (by simp [hmode, Mode.isBare])
      exact h.emitOperator hs (by simp [hmode]) hbare (by simp)
  | escaped hmode =>
      rw [List.map_nil, List.append_nil, List.append_nil]
      exact h.escaped hs hmode c
  | openParameter opened hmode hc =>
      subst hc
      obtain rfl := hplace opened hmode
      rw [List.map_nil, List.append_nil, List.append_nil]
      exact h.openExpansion hs hmode (.inl ⟨rfl, rfl⟩)
  | openSubstitution opened hmode hc =>
      subst hc
      obtain rfl := hplace opened hmode
      rw [List.map_nil, List.append_nil, List.append_nil]
      exact h.openExpansion hs hmode (.inr ⟨rfl, rfl⟩)
  | operator pending op hmode _ hop =>
      refine h.emitOperator hs (ne_escape_of_pending hmode) (hs.bare_of_pending hmode) ?_
      rintro rfl
      rcases hop with htext | ⟨heq, -⟩
      · have hlength := congrArg List.length htext
        rw [List.length_append] at hlength
        exact text_ne_nil pending (List.length_eq_zero_iff.1 (Nat.succ.inj hlength).symm)
      · exact ne_openParen_of_pending hmode heq.symm

/-- A character is read in the template. Behind a hole that holds no text it must not be one that
could change what that hole has left on the line. -/
theorem Along.stepChar (h : Along loose b scope s tokens tokens') (hs : s.Sound)
    (hpaired : s.Paired) (herase : s.erase = s) (hclosed : ¬ s.OpensBodyAt scope c)
    (hnext : loose → s.mode = .plain → c ∉ ['#', '\x7b', '(']) :
    Along (loose ∧ (s.stepChar scope c 0).1.mode ≠ .plain) b scope (s.stepChar scope c 0).1
      (tokens ++ (s.stepChar scope c 0).2.map Lexeme.token)
      (tokens' ++ (s.stepChar scope c 0).2.map Lexeme.token) := by
  unfold Scanner.stepChar
  cases hcomplete : s.complete? scope c with
  | some step => exact h.completion hs herase (complete_completion hcomplete)
  | none =>
      obtain ⟨hsound, hplain⟩ := hs.settlement (settleBefore_settlement hcomplete)
      obtain ⟨htied, hdigits⟩ := @Along.settle _ _ _ _ _ _ c h hs hpaired hcomplete
      have hread := htied.readChar (fun hloose ↦ hnext hloose.1 hloose.2) hdigits hsound hplain
        fun hopen ↦ hclosed ⟨hcomplete, hopen.1, hopen.2⟩
      rw [Step.andThen_fst, Step.andThen_snd, List.map_append, ← List.append_assoc,
        ← List.append_assoc]
      exact hread.imp fun hloose ↦ ⟨hloose.1.1, hloose.2⟩

end Scanner

end ShellTemplate
