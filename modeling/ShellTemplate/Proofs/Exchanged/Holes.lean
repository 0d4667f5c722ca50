import ShellTemplate.Proofs.Exchanged.Steps

/-!
# Different texts on both lines

A hole is filled with different texts on the two lines. Each of them is read as a part of one word
that is no number, so nothing behind them is read in two ways. Only where a dollar sign is
undecided before a text in double quotes could the text decide what it is.
-/

namespace ShellTemplate

open Scanner

theorem Scanner.Twin.grown {t t' v v' : Scanner} {raw raw' text text' : List Char}
    {frames : List Frame} (h : t.Twin t') (hv : Grown t v raw text frames)
    (hv' : Grown t' v' raw' text' frames) (hnumber : NotDigits (t.piece.raw ++ raw))
    (hnumber' : NotDigits (t'.piece.raw ++ raw')) : v.Twin v' where
  frames := hv'.frames.trans hv.frames.symm
  mode := hv'.mode.trans hv.mode.symm
  previous := by rw [hv.previous, hv'.previous, h.previous]
  expands := by rw [hv.expands, hv'.expands, h.expands]
  raw := .inr ⟨hv.raw ▸ hnumber, hv'.raw ▸ hnumber'⟩

/-- Both lines have been read up to a word that is no number, inside these frames. -/
def ReadToWord (scope : Scope) (frames : List Frame) (line line' : List Char) : Prop :=
  ∃ v v', ReadAlike scope line line' v v' ∧ v.mode = .plain ∧ v.frames = frames ∧
    v.previous ≠ .word ∧ NotDigits v.piece.raw

theorem ReadAlike.grow {scope : Scope} {line line' raw raw' : List Char} {t t' : Scanner}
    {frames : List Frame} (h : ReadAlike scope line line' t t') (hmode : t.mode = .plain)
    (hprevious : t.previous ≠ .word) (hnumber : NotDigits t.piece.raw)
    (hread : ∀ u : Scanner, u.frames = t.frames → u.mode = .plain →
      (∃ text, Grows scope u raw text frames) ∧ ∃ text, Grows scope u raw' text frames) :
    ReadToWord scope frames (line ++ raw) (line' ++ raw') := by
  obtain ⟨text, v, hreads, hgrown⟩ := (hread t rfl hmode).1
  obtain ⟨text', v', hreads', hgrown'⟩ := (hread t' h.twin.frames (h.twin.mode.trans hmode)).2
  have hnumber' : NotDigits t'.piece.raw := by
    rcases h.twin.raw with heq | ⟨-, hne⟩
    · rwa [heq]
    · exact hne
  have htwin := h.twin.grown hgrown hgrown' (hnumber.append_left raw) (hnumber'.append_left raw')
  exact ⟨v, v', h.append hreads hreads' ⟨htwin, .nil⟩, hgrown.mode, hgrown.frames,
    hgrown.previous ▸ hprevious, hgrown.raw ▸ hnumber.append_left raw⟩

namespace Scanner

variable {free loose loose' : Prop} {b : Nat} {scope : Scope} {s : Scanner}
  {tokens tokens' : List Token}

/-- Behind a backslash that is taken back a text is written as it is without one. -/
theorem write_escapedQuoting (hsingle : s.inSingle = false) (text : List Char) :
    s.escapedQuoting.write text = (scope.quoting s.frames).write text := by
  unfold escapedQuoting Scope.quoting
  cases hframes : s.frames with
  | nil => dsimp only; split_ifs <;> rfl
  | cons frame rest =>
      cases frame with
      | single place => simp [inSingle, hframes] at hsingle
      | double | substitution | parameter => rfl

theorem unsafeContext?_escapedQuoting (h : Value.unsafeContext? s.escapedQuoting
    (scope.enclosing s.frames) = none) :
    Value.unsafeContext? (scope.quoting s.frames) (scope.enclosing s.frames) = none := by
  unfold Value.unsafeContext? at h ⊢
  split_ifs at h with hparameter hquoted
  have hfree : (scope.enclosing s.frames).parameter = false := by simp_all
  have hquoting : scope.quoting s.frames ≠ .parameter := by
    unfold Scope.quoting
    split
    · split_ifs <;> simp
    · simp
    · simp
    · rename_i hframes
      simp [hframes, Scope.enclosing, commandFrames, Frame.isSubstitution, Frame.isParameter]
        at hfree
    · simp
  rw [if_neg (by simp [hfree, hquoting]), if_neg hquoted]

theorem ReadToWord.tied (h : ReadToWord scope s.frames (s.decided b tokens) (s.decided b tokens'))
    (hends : s.frames = [] → ∃ c, (s.decided b tokens).getLast? = some c ∧
      (s.decided b tokens').getLast? = some c ∧ isBlank c = false) :
    Tied free loose b scope s tokens tokens' := by
  obtain ⟨v, v', hread, hmode, hframes, hprevious, hnumber⟩ := h
  refine ⟨⟨v, v', hread, guides_of_plain hmode hframes hprevious (fun _ ↦ .inl hnumber.ne_nil)
    fun _ ↦ hnumber⟩, fun hbare ↦ ?_⟩
  obtain ⟨c, hlast, hlast', hblank⟩ := hends hbare
  exact hread.ends hlast hblank hlast' hblank

/-- Two texts are read where one hole stands. -/
theorem Tied.readTexts (h : Tied free loose b scope s tokens tokens') (hs : s.Sound)
    (hmode : s.mode = .plain) (hsafe : Safe scope s.frames)
    (hdollar : s.escapedQuoting = .double → EndsInUnescapedDollar s.piece.raw → free)
    (text text' : List Char) :
    ReadToWord scope s.frames (s.line b tokens ++ (scope.quoting s.frames).write text)
      (s.line b tokens' ++ (scope.quoting s.frames).write text') := by
  have hescape : s.mode ≠ .escape := by simp [hmode]
  obtain ⟨t, t', hread, hguides⟩ := h.reads
  rw [decided_eq_line hescape, decided_eq_line hescape] at hread
  have hinside : s.frames ≠ [] → (∀ place, t.mode ≠ .dollar place) →
      ReadToWord scope s.frames (s.line b tokens ++ (scope.quoting s.frames).write text)
        (s.line b tokens' ++ (scope.quoting s.frames).write text') := by
    intro hne hnone
    rcases hguides.word (hs.going hne) with (⟨hplain, -⟩ | ⟨place, hplace⟩) | ⟨-, hbehind⟩
    · exact hread.grow hplain hguides.previous (hguides.inside (by rwa [hguides.frames]))
        fun u hu hplain ↦ ⟨hsafe.grows (hu.trans hguides.frames) hplain text,
          hsafe.grows (hu.trans hguides.frames) hplain text'⟩
    · exact absurd hplace (hnone place)
    · exact absurd hbehind.frames hne
  cases id hsafe with
  | words hwords hwrite =>
      -- the opening quote decides what is undecided, and the texts stand behind it
      obtain ⟨hnone, hplain, hu⟩ := @Guides.settle _ _ scope s t '\'' hguides hread.sound (by simp)
        (by simp)
      obtain ⟨w, hreads, hgrown⟩ := @grows_openQuote scope _ hplain (by rwa [hu.frames])
      obtain ⟨w', hquoted⟩ := hread.append_same (Reads.of_settled hnone hplain hreads)
      have hclose : ∀ (u : Scanner) (text : List Char), u.frames = w.frames → u.mode = .plain →
          ∃ text', Grows scope u (escapeSingle text ++ ['\'']) text' s.frames := by
        intro u text hframes hmode
        rw [hgrown.frames, hu.frames] at hframes
        exact ⟨_, (grows_escapeSingle text hmode hframes hwords).append fun x hx hmode' ↦
          grows_closeQuote hmode' hx⟩
      have hboth := hquoted.grow hgrown.mode (hgrown.previous ▸ hu.previous)
        ⟨'\'', by simp [hgrown.raw], rfl⟩ fun u hframes hmode' ↦
          ⟨hclose u text hframes hmode', hclose u text' hframes hmode'⟩
      rw [List.append_assoc, List.append_assoc] at hboth
      rw [hwrite, hwrite]
      exact hboth
  | single outer hframes =>
      refine hinside (by simp [hframes]) fun place hplace ↦ ?_
      have hquotable := hread.sound.dollar place hplace
      rw [inSingle_of_frames hguides.frames] at hquotable
      simp [inSingle, hframes] at hquotable
  | double outer hframes =>
      refine hinside (by simp [hframes]) fun place hplace ↦ ?_
      rcases hguides.dollar place hplace with ⟨hfree, hlast⟩ | ⟨-, hbehind⟩
      · rw [core_of_plain hmode] at hlast
        exact hfree (hdollar (by simp [escapedQuoting, hframes]) hlast)
      · cases hframes.symm.trans hbehind.frames

/-- Before a hole that is not escaped everything undecided is decided, by the scanner `u` and these
lexemes. -/
structure SettledHole (loose : Prop) (b : Nat) (scope : Scope) (s : Scanner)
    (tokens tokens' : List Token) (index : Nat) (u : Scanner) (first : List Lexeme) : Prop where
  step : s.stepHole scope index = Step.andThen (u, first) (·.readHole scope index)
  filled : Filled first
  frames : u.frames = s.frames
  mode : u.mode = .plain
  sound : u.Sound
  erase : u.erase = u
  tied : Tied True (loose ∧ s.mode = .plain) b scope u (tokens ++ first.map Lexeme.token)
    (tokens' ++ first.map Lexeme.token)

theorem Along.settleHole (h : Along loose b scope s tokens tokens') (hs : s.Sound)
    (herase : s.erase = s) (hcomment : s.mode ≠ .comment) (hescape : s.mode ≠ .escape)
    (index : Nat) :
    ∃ u first, SettledHole loose b scope s tokens tokens' index u first := by
  have hmove : HoleMove scope index s (s.stepHole scope index) := stepHole_holeMove
  generalize hstep : s.stepHole scope index = step at hmove
  cases hmove with
  | comment hmode => exact absurd hmode hcomment
  | escaped hmode => exact absurd hmode hescape
  | plain hmode =>
      refine ⟨s, [], hstep, .nil, rfl, hmode, hs, herase, ?_⟩
      rw [List.map_nil, List.append_nil, List.append_nil]
      exact h.tied.of_same rfl rfl rfl (fun _ ↦ hmode) (⟨·, hmode⟩)
  | dollar opened hmode =>
      have hsingle := hs.dollar opened hmode
      have hline : ∀ tokens : List Token, ((s.inMode .plain).push scope ['\\', '$'] ['$']).decided b
          tokens = s.decided b tokens ++ ['\\', '$'] := by
        intro tokens
        rw [decided, decided, core_of_plain rfl, core_of_ne hescape, List.append_assoc]
        rfl
      refine ⟨_, [], hstep, .nil, rfl, rfl, sound_of_pushed rfl hs.nested (by simp),
        erase_escapeDollar herase, ?_⟩
      rw [List.map_nil, List.append_nil, List.append_nil]
      refine h.tied.write hline (by decide) ⟨'\\', by simp, rfl⟩ id fun u hplain hframes ↦ ?_
      obtain ⟨v, hreads, hgrown⟩ : Grows scope u ['\\', '$'] ['$'] u.frames :=
        grows_escaped hplain (by rw [inSingle_of_frames hframes, hsingle]) (by decide) (.inl rfl)
      exact ⟨v, [], hreads, hgrown.mode, hgrown.frames.trans hframes, hgrown.previous, hgrown.raw⟩
  | operator pending hpending =>
      have hbare := hs.bare_of_pending hpending
      obtain ⟨hsound, hplain⟩ := (hs.settled hescape).emitOperator rfl hbare pending
      have hafter : Along (loose ∧ s.mode = .plain) b scope _ _ _ :=
        h.emitOperator hs hescape hbare (ne_openParen_of_pending hpending)
      exact ⟨_, _, hstep, .emitOperator pending, (emitOperator_frames pending _).1, hplain, hsound,
        erase_emitPending herase pending, hafter.tied.of_same rfl rfl rfl (fun _ ↦ hplain) id⟩

section Filling

variable {options : FillOptions} {values values' : List Value} {own own' : List Token} {index : Nat}
  (hholds : HoldsText values index) (hholds' : HoldsText values' index)
include hholds hholds'

theorem Tied.emitHole (h : Tied free loose b scope s tokens tokens') (hs : s.Sound)
    (hmode : s.mode = .plain) (herase : s.erase = s) (hb : scope.backticks = b) {quoting : Quoting}
    (hquoting : quoting = scope.quoting s.frames ∨ s.inSingle = false ∧ quoting = s.escapedQuoting)
    (hdollar : s.escapedQuoting = .double → EndsInUnescapedDollar s.piece.raw → free)
    (hfill : fill options values
      ((s.emitHole index quoting (scope.enclosing s.frames)).2.map (Lexeme.lower b)) = .ok own)
    (hfill' : fill options values'
      ((s.emitHole index quoting (scope.enclosing s.frames)).2.map (Lexeme.lower b)) = .ok own') :
    Along loose' b scope (s.emitHole index quoting (scope.enclosing s.frames)).1 (tokens ++ own)
      (tokens' ++ own') := by
  have hempty := hs.piece_empty hmode
  obtain ⟨hrefused, text, p, hraw, -, rfl⟩ := fill_emitHole hempty hb hholds hfill
  obtain ⟨-, text', p', hraw', -, rfl⟩ := fill_emitHole hempty hb hholds' hfill'
  have hrefused' : Value.unsafeContext? (scope.quoting s.frames) (scope.enclosing s.frames) =
      none := by
    rcases hquoting with rfl | ⟨-, rfl⟩
    · exact hrefused
    · exact unsafeContext?_escapedQuoting hrefused
  have hwrite : ∀ text, quoting.write text = (scope.quoting s.frames).write text := by
    rcases hquoting with rfl | ⟨hsingle, rfl⟩
    · exact fun _ ↦ rfl
    · exact write_escapedQuoting hsingle
  have hsafe := hs.safe herase hrefused'
  rw [hwrite] at hraw hraw'
  have hread := h.readTexts hs hmode hsafe hdollar text text'
  rw [emitHole_eq hempty]
  have hline : ∀ (tokens : List Token) (p : Piece),
      ({ s with piece := {}, previous := .word } : Scanner).decided b
        (tokens ++ (s.flush.2.map Lexeme.token ++ [.piece p])) = s.line b tokens ++ p.raw := by
    intro tokens p
    rw [decided_eq_line (by simp [hmode]), line_of_flushed b _ rfl, ← List.append_assoc,
      written_piece, written_flush]
  rw [← hraw, ← hraw', ← hline, ← hline] at hread
  refine (ReadToWord.tied hread fun hbare ↦ ⟨'\'', ?_, ?_, rfl⟩).along fun _ _ hne ↦ absurd rfl hne
  all_goals
    have hnil : s.frames = [] := hbare
    rw [hnil] at hraw hraw' hsafe
    rw [hsafe.write_of_nil] at hraw hraw'
    rw [hline, List.getLast?_append]
  · rw [hraw, getLast?_singleQuote, Option.some_or]
  · rw [hraw', getLast?_singleQuote, Option.some_or]

theorem Along.stepHole (h : Along loose b scope s tokens tokens') (hs : s.Sound)
    (herase : s.erase = s) (hb : scope.backticks = b)
    (hguard : s.mode = .escape → s.escapedQuoting = .double → ¬ EndsInUnescapedDollar s.core.raw)
    (hfill : fill options values ((s.stepHole scope index).2.map (Lexeme.lower b)) = .ok own)
    (hfill' : fill options values' ((s.stepHole scope index).2.map (Lexeme.lower b)) = .ok own') :
    Along (loose ∧ (s.stepHole scope index).1.mode ≠ .plain) b scope (s.stepHole scope index).1
      (tokens ++ own) (tokens' ++ own') := by
  by_cases hcomment : s.mode = .comment
  · have hskip : s.stepHole scope index = (s, []) := by simp [Scanner.stepHole, hcomment]
    rw [hskip] at hfill hfill' ⊢
    cases hfill
    cases hfill'
    rw [List.append_nil, List.append_nil]
    exact h.imp fun hloose ↦ ⟨hloose, by simp [hcomment]⟩
  by_cases hescape : s.mode = .escape
  · have hmove : HoleMove scope index s (s.stepHole scope index) := stepHole_holeMove
    generalize s.stepHole scope index = step at hmove hfill hfill'
    cases hmove with
    | comment hmode | plain hmode | dollar _ hmode => simp [hescape] at hmode
    | operator _ hmode => simp [hescape, Mode.pending?] at hmode
    | escaped =>
        have htied : Tied False loose b scope { s with mode := .plain, piece := s.core } tokens
            tokens' := h.tied.of_same rfl (congrArg Piece.raw (core_of_plain rfl)) rfl False.elim id
        have hsound : ({ s with mode := .plain, piece := s.core } : Scanner).Sound :=
          sound_of_plain rfl hs.nested hs.empty hs.going
        have herase' : ({ s with mode := .plain, piece := s.core } : Scanner).erase =
            { s with mode := .plain, piece := s.core } :=
          congrArg (fun frames ↦ { s with frames := frames, mode := .plain, piece := s.core })
            (congrArg Scanner.frames herase)
        exact htied.emitHole hholds hholds' hsound rfl herase' hb
          (.inr ⟨(hs.escape hescape).2, rfl⟩)
          (fun hdouble hlast ↦ hguard hescape hdouble hlast) hfill hfill'
  · obtain ⟨u, first, hsettled⟩ := h.settleHole hs herase hcomment hescape index
    rw [hsettled.step] at hfill hfill'
    obtain ⟨hole, hhole, rfl⟩ := hsettled.filled.fill_front_lower_iff.1 hfill
    obtain ⟨hole', hhole', rfl⟩ := hsettled.filled.fill_front_lower_iff.1 hfill'
    rw [hsettled.step, Step.andThen_fst, ← List.append_assoc, ← List.append_assoc]
    exact hsettled.tied.emitHole hholds hholds' hsettled.sound hsettled.mode hsettled.erase hb
      (.inl rfl) (fun _ _ ↦ trivial) hhole hhole'

end Filling

end Scanner

end ShellTemplate
