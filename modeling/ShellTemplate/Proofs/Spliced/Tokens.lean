import ShellTemplate.Proofs.Spliced.Behind

/-!
# Tokens that can be spliced

Where every hole of a text stands outside all constructs, each piece that is read between the holes
can be read again behind another piece. The run of the scanner keeps what is needed for that, of the
piece that it is reading and of the operator that it has not decided yet.
-/

namespace ShellTemplate

/-- The text ends in a dollar sign that is not quoted, so that a brace behind it would open an
expansion. -/
def EndsInBareDollar (text : List Char) : Prop := ['$'] <:+ text ∧ ¬ ['\\', '$'] <:+ text

instance : DecidablePred EndsInBareDollar := fun _ ↦ instDecidableAnd

/-- Behind another piece, or as a word of its own, the text of the piece is read as the piece. -/
structure Piece.Spliceable (scope : Scope) (p : Piece) : Prop where
  nonempty : p.raw ≠ []
  starts : ∀ c ∈ p.raw.head?, c ∉ delimiters
  ends : ∀ c ∈ p.raw.getLast?, c ≠ ' ' ∧ c ≠ '\n' ∧ c ≠ '\\'
  reads : ∀ u : Scanner, u.Receives p.raw → ∃ t, u.LeadsTo scope p.raw t ∧ t.frames = [] ∧
    t.mode.endsWord ∧ (t.mode ≠ .plain → EndsInBareDollar p.raw) ∧
      u.piece.Glued p (t.settle scope).1.piece

/-- A token that is read back behind whatever stands before it. -/
def Token.Spliceable (scope : Scope) : Token → Prop
  | .piece p => p.Spliceable scope
  | .operator op => (Token.operator op).Legible scope
  | .blank | .hole _ => True

namespace Scanner

variable {scope : Scope} {s t u : Scanner} {c : Char} {op : Operator}

theorem staysInWord_of_ne (hmode : t.mode.endsWord) (hc : c ∉ delimiters) (hhash : c ≠ '#') :
    t.StaysInWord c := by
  unfold StaysInWord
  rcases hmode with hplain | ⟨place, hdollar⟩
  · rw [hplain]
    exact fun _ ↦ ⟨hc, fun heq ↦ absurd heq hhash⟩
  · rw [hdollar]
    exact .inr fun _ ↦ hc

theorem Behind.atWordStart {before : Piece} (h : Behind before s t)
    (hraw : before.raw ++ s.piece.raw ≠ []) : t.atWordStart = false := by
  unfold Scanner.atWordStart
  rw [h.piece.raw]
  simp [hraw]

/-- Behind a letter a scanner can be in any place of a piece. -/
theorem exists_behind (s : Scanner) : ∃ t, Behind ⟨['a'], ['a'], false⟩ s t :=
  ⟨{ s with piece := Piece.append ⟨['a'], ['a'], false⟩ s.piece, previous := .boundary },
    rfl, rfl, by simp, .refl _ _⟩

theorem Recalled.reads_dollar (h : s.Recalled scope) (hmode : s.mode = .dollar 0)
    (hsingle : s.inSingle = false) (hu : u.Receives s.piece.raw) :
    ∃ t, u.LeadsTo scope (s.piece.raw ++ ['$']) t ∧ Behind u.piece s t := by
  obtain ⟨t, hleads, hends, hsettles⟩ := h u hu
  obtain ⟨hnone, w, hbefore, hbehind⟩ := hsettles '$' (by decide)
  have hsingle' : w.inSingle = false := by
    unfold inSingle at hsingle ⊢
    rwa [hbehind.frames]
  have hstep : t.stepChar scope '$' 0 = (w.inMode (.dollar 0), []) := by
    unfold stepChar
    rw [hnone]
    simp only [hbefore, Step.andThen, readChar_dollar hsingle', List.nil_append]
  refine ⟨w.inMode (.dollar 0), hleads.append (.char (by decide) ?_ hstep), ?_⟩
  · exact staysInWord_of_ne hends (by decide) (by decide)
  · exact ⟨hbehind.frames, hmode.symm, hbehind.own, hbehind.piece⟩

/-- What is read of a piece so far, with a dollar sign that is undecided, is read again. -/
def Reread (scope : Scope) (s : Scanner) : Prop :=
  s.mode = .plain ∧ s.Tracked scope ∨ s.mode = .dollar 0 ∧ s.Recalled scope

theorem Reread.endsWord (h : s.Reread scope) : s.mode.endsWord :=
  h.imp And.left fun h ↦ ⟨0, h.1⟩

theorem Tracked.goesOn (h : s.Tracked scope) (hmode : s.mode = .plain) (hc : s.GoesOn c)
    (hslash : c ≠ '\\') (hbody : c ≠ '\x60') :
    ∃ s', s.stepChar scope c 0 = (s', []) ∧ Spells c s s' ∧ s'.Reread scope ∧
      (s'.frames = [] → c ≠ ' ' ∧ c ≠ '\n') := by
  rw [stepChar_of_plain hmode]
  obtain ⟨letter, hletter⟩ := exists_behind s
  obtain ⟨s', -, hs', -, -, hspells, hnext⟩ :=
    @Behind.readChar scope _ _ _ _ hletter hmode hc hslash fun _ _ ↦ hletter.atWordStart (by simp)
  refine ⟨s', hs', hspells, ?_⟩
  rcases hnext with ⟨hplain, hlast⟩ | ⟨rfl, -, rfl⟩
  · have hraw : s'.piece.raw = s.piece.raw ++ [c] := by
      have hspelled := hspells.spelled
      rwa [spelled_of_plain hplain, spelled_of_plain hmode] at hspelled
    refine ⟨.inl ⟨hplain, fun u hu ↦ ?_⟩, hlast⟩
    rw [hraw] at hu ⊢
    obtain ⟨t, hleads, hbehind⟩ := h u hu.of_append
    have hhash : c = '#' → t.atWordStart = false := fun hhash ↦ hbehind.atWordStart fun hnil ↦ by
      obtain ⟨hbefore, hnone⟩ := List.append_eq_nil_iff.1 hnil
      have hstart := hu.start hbefore
      rw [hnone] at hstart
      exact hstart (congrArg some hhash)
    obtain ⟨s'', t', hs'', ht', hbehind', -⟩ :=
      @Behind.readChar scope _ _ _ _ hbehind hmode hc hslash fun _ ↦ hhash
    obtain rfl : s' = s'' := congrArg Prod.fst (hs'.symm.trans hs'')
    have hplain' := hbehind.mode.trans hmode
    refine ⟨t', hleads.append (.char hbody ?_ ?_), hbehind'⟩
    · unfold StaysInWord
      rw [hplain']
      exact fun hbare ↦ ⟨(hc (hbehind.frames ▸ hbare)).1, hhash⟩
    · rwa [stepChar_of_plain hplain']
  · exact ⟨.inr ⟨rfl, h.recalled hmode 0⟩, fun _ ↦ by decide⟩

/-- A brace or a parenthesis behind a dollar sign opens a construct. -/
theorem Recalled.opens (h : s.Recalled scope) (hmode : s.mode = .dollar 0)
    (hsingle : s.inSingle = false) (frame : Frame) (hc : c = '\x7b' ∨ c = '(')
    (hcomplete : ∀ w : Scanner, w.mode = .dollar 0 → w.complete? scope c = some
      ((((w.inMode .plain).push scope ['$', c] ['$', c]).markExpands).enter frame, [])) :
    ∃ s', s.stepChar scope c 0 = (s', []) ∧ Spells c s s' ∧ s'.Reread scope ∧
      (s'.frames = [] → c ≠ ' ' ∧ c ≠ '\n') := by
  have hstep : ∀ w : Scanner, w.mode = .dollar 0 → w.stepChar scope c 0 =
      ((((w.inMode .plain).push scope ['$', c] ['$', c]).markExpands).enter frame, []) := by
    intro w hw
    unfold Scanner.stepChar
    rw [hcomplete w hw]
  refine ⟨_, hstep s hmode, ⟨?_, .inl rfl, rfl⟩, .inl ⟨rfl, fun u hu ↦ ?_⟩, fun hbare ↦ ?_⟩
  · simp [spelled, hmode, Scanner.enter, Scanner.markExpands, Scanner.push, Scanner.inMode]
  · change u.Receives (s.piece.raw ++ ['$', c]) at hu
    change ∃ t, u.LeadsTo scope (s.piece.raw ++ ['$', c]) t ∧ _
    obtain ⟨t, hleads, hbehind⟩ := h.reads_dollar hmode hsingle hu.of_append
    have hopened := hleads.append (.char (c := c) ?_ ?_ (hstep t (hbehind.mode.trans hmode)))
    · rw [List.append_assoc] at hopened
      exact ⟨_, hopened, (((hbehind.inMode .plain).push _ _).markExpands).enter frame⟩
    · rcases hc with rfl | rfl <;> decide
    · unfold StaysInWord
      rw [hbehind.mode, hmode]
      rcases hc with rfl | rfl
      · exact .inr fun _ ↦ by decide
      · exact .inl rfl
  · cases hbare

theorem Recalled.goesOn (h : s.Recalled scope) (hmode : s.mode = .dollar 0)
    (hsingle : s.inSingle = false) (hc : s.StaysInWord c) (hslash : c ≠ '\\')
    (hbody : c ≠ '\x60') :
    ∃ s', s.stepChar scope c 0 = (s', []) ∧ Spells c s s' ∧ s'.Reread scope ∧
      (s'.frames = [] → c ≠ ' ' ∧ c ≠ '\n') := by
  -- a brace or a parenthesis opens a construct, any other character decides the dollar sign
  by_cases hopen : c = '\x7b' ∨ c = '('
  · rcases hopen with rfl | rfl
    · exact h.opens hmode hsingle (.parameter 0) (.inl rfl) fun w hw ↦ by
        simp [complete?, hw]
    · exact h.opens hmode hsingle (.substitution 0 0) (.inr rfl) fun w hw ↦ by
        simp [complete?, hw]
  · have hne := not_or.1 hopen
    have hgoes : s.frames = [] → c ∉ delimiters := by
      unfold StaysInWord at hc
      rw [hmode] at hc
      exact hc.resolve_left hne.2
    obtain ⟨letter, hletter⟩ := exists_behind s
    obtain ⟨w, w', hnone, hbefore, -, -, hbehind, hplain, hframes, hprevious, hraw⟩ :=
      @Behind.settleDollar scope _ _ _ hletter hmode c c hne hne
    have hstart : w.atWordStart = false := by simp [Scanner.atWordStart, hraw]
    have hgoes' : w.GoesOn c := fun hbare ↦ ⟨hgoes (hframes ▸ hbare), fun _ ↦ hstart⟩
    obtain ⟨s', -, hs', -, -, hspells, hnext⟩ :=
      @Behind.readChar scope _ _ _ _ hbehind hplain hgoes' hslash fun _ _ ↦
        hbehind.atWordStart (by simp)
    have hstep : s.stepChar scope c 0 = (s', []) := by
      unfold Scanner.stepChar
      rw [hnone]
      simp only [hbefore, Step.andThen, hs', List.nil_append]
    have hspelled : w.spelled = s.spelled := by
      rw [spelled_of_plain hplain, hraw, spelled, hmode]
    refine ⟨s', hstep, ⟨hspelled ▸ hspells.spelled, hspells.mode, hspells.previous.trans hprevious⟩,
      ?_⟩
    rcases hnext with ⟨hplain', hlast⟩ | ⟨rfl, -, rfl⟩
    · have hraw' : s'.piece.raw = s.piece.raw ++ ['$'] ++ [c] := by
        have hspelled' := hspells.spelled
        rwa [spelled_of_plain hplain', spelled_of_plain hplain, hraw] at hspelled'
      refine ⟨.inl ⟨hplain', fun u hu ↦ ?_⟩, hlast⟩
      rw [hraw'] at hu ⊢
      obtain ⟨t, hleads, htracked⟩ := h.reads_dollar hmode hsingle hu.of_append.of_append
      obtain ⟨x, x', -, hx, hnone', hx', hbehind', -⟩ :=
        @Behind.settleDollar scope _ _ _ htracked hmode c c hne hne
      obtain rfl : w = x := congrArg Prod.fst (hbefore.symm.trans hx)
      obtain ⟨s'', t', hs'', ht', hbehind'', -⟩ :=
        @Behind.readChar scope _ _ _ _ hbehind' hplain hgoes' hslash fun _ _ ↦
          hbehind'.atWordStart (by simp [hraw])
      obtain rfl : s' = s'' := congrArg Prod.fst (hs'.symm.trans hs'')
      refine ⟨t', hleads.append (.char hbody ?_ ?_), hbehind''⟩
      · unfold StaysInWord
        rw [htracked.mode, hmode]
        exact .inr fun hbare ↦ hgoes (htracked.frames ▸ hbare)
      · unfold Scanner.stepChar
        rw [hnone']
        simp only [hx', Step.andThen, ht', List.nil_append]
    · refine ⟨.inr ⟨rfl, fun u hu ↦ ?_⟩, fun _ ↦ by decide⟩
      change u.Receives w.piece.raw at hu
      change ∃ t, u.LeadsTo scope w.piece.raw t ∧ _
      rw [hraw] at hu ⊢
      obtain ⟨t, hleads, htracked⟩ := h.reads_dollar hmode hsingle hu.of_append
      refine ⟨t, hleads, .inr ⟨0, htracked.mode.trans hmode⟩, fun d hd ↦ ?_⟩
      obtain ⟨x, x', -, hx, hnone', hx', hbehind', -⟩ :=
        @Behind.settleDollar scope _ _ _ htracked hmode '$' d (by decide) hd
      obtain rfl : w = x := congrArg Prod.fst (hbefore.symm.trans hx)
      exact ⟨hnone', x', hx', ⟨hbehind'.frames, hbehind'.mode.trans hplain, hbehind'.own,
        hbehind'.piece⟩⟩

/-- A character that goes on with the word is read again with it. -/
theorem Reread.goesOn (h : s.Reread scope) (hs : s.Sound) (hc : s.StaysInWord c) (hslash : c ≠ '\\')
    (hbody : c ≠ '\x60') :
    ∃ s', s.stepChar scope c 0 = (s', []) ∧ Spells c s s' ∧ s'.Reread scope ∧
      (s'.frames = [] → c ≠ ' ' ∧ c ≠ '\n') := by
  rcases h with ⟨hmode, htracked⟩ | ⟨hmode, hrecalled⟩
  · unfold StaysInWord at hc
    rw [hmode] at hc
    exact htracked.goesOn hmode hc hslash hbody
  · exact hrecalled.goesOn hmode (hs.dollar 0 hmode) hc hslash hbody

/-- The piece that the scanner is reading can be spliced once it is complete. -/
structure Going (scope : Scope) (s : Scanner) : Prop where
  reread : s.Reread scope
  bare : s.spelled = [] → s.frames = []
  starts : ∀ c ∈ s.spelled.head?, c ∉ delimiters
  slash : '\\' ∉ s.spelled
  ends : s.frames = [] → ∀ c ∈ s.spelled.getLast?, c ≠ ' ' ∧ c ≠ '\n'

/-- A piece that ends is spliceable. -/
theorem Going.spliceable (h : s.Going scope) (hs : s.Sound) (hframes : s.frames = [])
    (hne : s.spelled ≠ []) : (s.settle scope).1.piece.Spliceable scope := by
  obtain ⟨h, -, hstarts, hslash, hends⟩ := h
  have hraw := @raw_settle scope s h.endsWord
  refine ⟨hraw.symm ▸ hne, hraw.symm ▸ hstarts, fun c hc ↦ ?_, fun u hu ↦ ?_⟩
  · rw [hraw] at hc
    obtain ⟨hspace, hnewline⟩ := hends hframes c hc
    exact ⟨hspace, hnewline, fun hc' ↦ hslash (hc' ▸ List.mem_of_getLast? hc)⟩
  unfold EndsInBareDollar
  rw [hraw] at hu ⊢
  rcases h with ⟨hmode, htracked⟩ | ⟨hmode, hrecalled⟩
  · rw [spelled_of_plain hmode] at hu ⊢
    obtain ⟨t, hleads, hbehind⟩ := htracked u hu
    have hplain := hbehind.mode.trans hmode
    rw [settle_of_plain hmode]
    refine ⟨t, hleads, hbehind.frames.trans hframes, .inl hplain, fun hne ↦ absurd hplain hne, ?_⟩
    rw [settle_of_plain hplain]
    exact hbehind.piece
  · -- where the piece is read again, the dollar sign at its end is undecided as well
    have hspelled : s.spelled = s.piece.raw ++ ['$'] := by simp [spelled, hmode]
    rw [hspelled] at hu hslash ⊢
    obtain ⟨t, hleads, hbehind⟩ := hrecalled.reads_dollar hmode (hs.dollar 0 hmode) hu.of_append
    have hmode' := hbehind.mode.trans hmode
    refine ⟨t, hleads, hbehind.frames.trans hframes, .inr ⟨0, hmode'⟩,
      fun _ ↦ ⟨?_, fun hquoted ↦ ?_⟩, ?_⟩
    · exact List.suffix_append _ _
    · exact hslash (hquoted.mem (by simp))
    · have hsettle : ∀ r : Scanner, r.mode = .dollar 0 →
          (r.settle scope).1.piece = r.piece.append ⟨['$'], ['$'], false⟩ := fun r hr ↦ by
        simp [settle, hr, pushChar, push, Scanner.inMode, Piece.append]
      rw [hsettle s hmode, hsettle t hmode']
      exact hbehind.piece.append ⟨rfl, .inl rfl⟩ rfl

/-- The dollar sign before a hole is quoted, and what is read before it is read again. -/
theorem Recalled.spliceable_quoted (h : s.Recalled scope) (hframes : s.frames = [])
    (hstarts : ∀ c ∈ s.piece.raw.head?, c ∉ delimiters) :
    ((s.inMode .plain).push scope ['\\', '$'] ['$']).piece.Spliceable scope := by
  refine ⟨by simp [push], ?_, ?_, fun u hu ↦ ?_⟩
  · change ∀ c ∈ (s.piece.raw ++ ['\\', '$']).head?, c ∉ delimiters
    cases hraw : s.piece.raw with
    | nil =>
        rintro c ⟨⟩
        decide
    | cons d rest =>
        rw [hraw] at hstarts
        exact hstarts
  · change ∀ c ∈ (s.piece.raw ++ ['\\', '$']).getLast?, c ≠ ' ' ∧ c ≠ '\n' ∧ c ≠ '\\'
    simp
  · change u.Receives (s.piece.raw ++ ['\\', '$']) at hu
    change ∃ t, u.LeadsTo scope (s.piece.raw ++ ['\\', '$']) t ∧ _
    obtain ⟨t, hleads, hends, hsettles⟩ := h u hu.of_append
    obtain ⟨hnone, w, hbefore, hbehind⟩ := hsettles '\\' (by decide)
    have hbare : w.frames = [] := hbehind.frames.trans hframes
    have hbackslash : t.stepChar scope '\\' 0 = (w.readBackslash scope, []) := by
      unfold stepChar
      rw [hnone]
      simp only [hbefore, Step.andThen, List.nil_append]
      rw [readChar_backslash (by simp [inSingle, hbare])]
    have hescaped : (w.readBackslash scope).stepChar scope '$' 0 =
        ((w.readBackslash scope).readEscaped scope '$', []) := by
      simp [stepChar, complete?, readBackslash, Scanner.inMode]
    have hfields := @readEscaped_fields scope (w.readBackslash scope) '$'
    have htext := @readEscaped_text scope (w.readBackslash scope) '$' (by decide) (.inl (by decide))
    refine ⟨_, hleads.append (LeadsTo.append (.char (by decide) ?_ hbackslash)
      (.char (by decide) trivial hescaped)), hfields.frames.trans hbare, .inl hfields.mode,
      fun hne ↦ absurd hfields.mode hne, ?_⟩
    · exact staysInWord_of_ne hends (by decide) (by decide)
    · rw [settle_of_plain hfields.mode]
      have hpiece : ((w.readBackslash scope).readEscaped scope '$').piece =
          w.piece.append ⟨['\\', '$'], ['$'], false⟩ := by
        refine piece_eq ?_ ?_ ?_
        · rw [hfields.raw]
          simp [readBackslash, pushSyntax, push, Scanner.inMode, Piece.append]
        · rw [htext]
          simp [readBackslash, pushSyntax, push, Scanner.inMode, Piece.append]
        · rw [hfields.expands]
          simp [readBackslash, pushSyntax, push, Scanner.inMode, Piece.append]
      have hsame : ((s.inMode .plain).push scope ['\\', '$'] ['$']).piece =
          s.piece.append ⟨['\\', '$'], ['$'], false⟩ := by
        simp [push, Scanner.inMode, Piece.append]
      rw [hpiece, hsame]
      exact hbehind.piece.append ⟨rfl, .inl rfl⟩ rfl

/-- What the scanner holds can be spliced: a piece that it is reading, or an operator that is not
decided yet with the piece before it. -/
inductive Splicing (scope : Scope) (s : Scanner) : Prop
  | word (going : s.Going scope)
  | comment (mode : s.mode = .comment) (bare : s.frames = []) (piece : s.piece = {})
  | pending (op : Operator) (mode : s.mode.pending? = some op) (bare : s.frames = [])
      (empty : s.piece.raw = [] → s.piece = {}) (legible : (Token.operator op).Legible scope)
      (whole : s.piece.raw ≠ [] → s.piece.Spliceable scope)

/-- A step completes tokens that can be spliced, and so can what the scanner holds behind it. -/
structure Splices (scope : Scope) (step : Step) : Prop where
  scanner : step.1.Splicing scope
  tokens : ∀ token ∈ step.2.map Lexeme.token, token.Spliceable scope

/-- Nothing is undecided outside all constructs, and the piece that was read is complete. -/
structure Whole (scope : Scope) (u : Scanner) : Prop where
  mode : u.mode = .plain
  bare : u.frames = []
  empty : u.piece.raw = [] → u.piece = {}
  spliceable : u.piece.raw ≠ [] → u.piece.Spliceable scope

theorem splicing_of_empty (hmode : s.mode = .plain) (hframes : s.frames = [])
    (hpiece : s.piece = {}) : s.Splicing scope := by
  have hspelled : s.spelled = [] := by rw [spelled_of_plain hmode, hpiece]
  refine .word ⟨.inl ⟨hmode, tracked_of_empty hframes hmode hpiece⟩, fun _ ↦ hframes, ?_, ?_,
    fun _ ↦ ?_⟩ <;> rw [hspelled]
  · exact fun c hc ↦ by cases hc
  · exact List.not_mem_nil
  · exact fun c hc ↦ by cases hc

theorem splices_silent (h : s.Splicing scope) : Splices scope (s, []) := ⟨h, by simp⟩

theorem Splices.andThen {step : Step} {next : Scanner → Step} (h : Splices scope step)
    (hnext : Splices scope (next step.1)) : Splices scope (step.andThen next) where
  scanner := hnext.scanner
  tokens := fun token htoken ↦ by
    rw [Step.andThen_snd, List.map_append, List.mem_append] at htoken
    exact htoken.elim (h.tokens token) (hnext.tokens token)

theorem Splices.before {step after : Step} (h : Splices scope step) (hafter : Splices scope after) :
    Splices scope (step.before after) where
  scanner := hafter.scanner
  tokens := fun token htoken ↦ by
    rw [Step.before, List.map_append, List.mem_append] at htoken
    exact htoken.elim (h.tokens token) (hafter.tokens token)

namespace Whole

variable (hu : u.Whole scope)
include hu

theorem mem_flush {token : Token} (htoken : token ∈ u.flush.2.map Lexeme.token) :
    token.Spliceable scope := by
  rw [map_token_flush, Piece.tokens] at htoken
  split_ifs at htoken with hraw
  · cases htoken
  · rw [List.mem_singleton.1 htoken]
    exact hu.spliceable hraw

theorem emitOperator (hop : (Token.operator op).Legible scope) :
    Splices scope (u.emitOperator op) := by
  obtain ⟨hresting, -, htokens⟩ := resting_emitOperator hu.empty hu.bare hu.mode op
  refine ⟨splicing_of_empty hresting.mode hresting.frames hresting.piece, fun token htoken ↦ ?_⟩
  rw [htokens, List.mem_append, List.mem_singleton] at htoken
  rcases htoken with htoken | rfl
  · exact hu.mem_flush htoken
  · exact hop

theorem emitBlank : Splices scope u.emitBlank := by
  constructor
  · rw [emitBlank_eq hu.empty]
    exact splicing_of_empty hu.mode hu.bare rfl
  · unfold Scanner.emitBlank
    rw [Step.andThen_snd]
    intro token htoken
    rw [List.map_append, List.mem_append] at htoken
    rcases htoken with htoken | htoken
    · exact hu.mem_flush htoken
    · split_ifs at htoken
      · cases htoken
      · obtain rfl := List.mem_singleton.1 htoken
        trivial

theorem emitHole {index : Nat} {quoting : Quoting} {enclosing : Enclosing} :
    Splices scope (u.emitHole index quoting enclosing) := by
  rw [emitHole_eq hu.empty]
  refine ⟨splicing_of_empty hu.mode hu.bare rfl, fun token htoken ↦ ?_⟩
  rw [List.map_append, List.mem_append] at htoken
  rcases htoken with htoken | htoken
  · exact hu.mem_flush htoken
  · obtain rfl := List.mem_singleton.1 htoken
    trivial

theorem begin {mode : Mode} (hmode : mode.pending? = some op)
    (hop : (Token.operator op).Legible scope) : Splices scope (u.inMode mode, []) :=
  splices_silent (.pending op hmode hu.bare hu.empty hop hu.spliceable)

/-- A number before a redirection leaves the piece. -/
theorem readAngle {mode : Option Nat → Mode} (hmode : mode = .greater ∨ mode = .less) :
    Splices scope (u.readAngle mode, []) := by
  have hpending : ∀ fd, ∃ kind, (mode fd).pending? = some (.redirect ⟨fd, kind⟩) := by
    rcases hmode with rfl | rfl <;> exact fun fd ↦ ⟨_, rfl⟩
  unfold Scanner.readAngle
  cases hwritten : u.writtenDescriptor? with
  | none =>
      obtain ⟨kind, hkind⟩ := hpending none
      exact hu.begin hkind trivial
  | some fd =>
      obtain ⟨kind, hkind⟩ := hpending (some fd)
      obtain ⟨-, -, hread⟩ := writtenDescriptor?_eq_some_iff.1 hwritten
      obtain ⟨-, -, hsize⟩ := digits_of_readDescriptor? hread
      exact splices_silent (.pending _ hkind hu.bare (fun _ ↦ rfl) hsize fun hraw ↦ absurd rfl hraw)

theorem readDelimiter (hc : c ∈ delimiters ∨ (c = '#' ∧ u.atWordStart = true)) :
    Splices scope (u.readChar scope c 0) := by
  have hmove : DelimiterMove c u (u.readChar scope c 0) := readChar_delimiterMove hu.bare hc
  generalize u.readChar scope c 0 = step at hmove ⊢
  cases hmove with
  | blank => exact hu.emitBlank
  | operator op hop hsingle =>
      refine hu.emitOperator ?_
      simp only [List.mem_cons, List.not_mem_nil, or_false] at hsingle
      rcases hsingle with rfl | rfl | rfl | rfl <;> trivial
  | comment hstart =>
      unfold atWordStart at hstart
      have hraw := List.isEmpty_iff.1 (Bool.and_eq_true_iff.1 hstart).1
      exact splices_silent (.comment rfl hu.bare (hu.empty hraw))
  | begin mode hmode => rcases hmode with ⟨-, rfl⟩ | ⟨-, rfl⟩ <;> exact hu.begin rfl trivial
  | angle mode hmode => exact hu.readAngle (hmode.imp And.right And.right)

end Whole

section Step

variable (hs : s.Sound) (hslash : c ≠ '\\') (hbody : c ≠ '\x60')

include hs in
/-- A word that ends outside all constructs is complete. -/
theorem Going.whole (h : s.Going scope) (hframes : s.frames = []) :
    (s.settle scope).1.Whole scope := by
  have hmode := h.reread.endsWord
  obtain ⟨-, -, -, hplain, hframes', -⟩ :=
    settled_of_endsWord scope (c := ' ') hmode (by decide) (by decide) fun hc ↦ by simp at hc
  have hraw := @raw_settle scope s hmode
  refine ⟨hplain, hframes'.trans hframes, fun hnil ↦ ?_, fun hne ↦ ?_⟩
  · rcases hmode with hmode | ⟨place, hmode⟩
    · rw [settle_of_plain hmode] at hnil ⊢
      exact hs.piece_empty hmode hnil
    · simp [hraw, spelled, hmode] at hnil
  · exact h.spliceable hs hframes (hraw ▸ hne)

include hslash in
/-- The piece goes on with a character. -/
theorem Going.concat (h : s.Going scope) (hstay : s.StaysInWord c) {s' : Scanner}
    (hspells : Spells c s s') (hreread : s'.Reread scope)
    (hlast : s'.frames = [] → c ≠ ' ' ∧ c ≠ '\n') : s'.Going scope := by
  refine ⟨hreread, fun hnil ↦ ?_, ?_, ?_, fun hframes ↦ ?_⟩
  · rw [hspells.spelled] at hnil
    simp at hnil
  · rw [hspells.spelled]
    cases hspelled : s.spelled with
    | cons d word =>
        have hstarts := h.starts
        rw [hspelled] at hstarts
        exact hstarts
    | nil =>
        rintro d ⟨⟩
        unfold StaysInWord at hstay
        rcases h.reread with ⟨hmode, -⟩ | ⟨hmode, -⟩
        · rw [hmode] at hstay
          exact (hstay (h.bare hspelled)).1
        · simp [spelled, hmode] at hspelled
  · rw [hspells.spelled, List.mem_append, List.mem_singleton, not_or]
    exact ⟨h.slash, hslash.symm⟩
  · rw [hspells.spelled, List.getLast?_concat]
    rintro d ⟨⟩
    exact hlast hframes

include hs hslash hbody

/-- A character goes on with the word, or it is read where the word has ended. -/
theorem Going.stepChar (h : s.Going scope) : Splices scope (s.stepChar scope c 0) := by
  by_cases hstay : s.StaysInWord c
  · obtain ⟨s', hstep, hspells, hreread, hlast⟩ := h.reread.goesOn hs hstay hslash hbody
    rw [hstep]
    exact splices_silent (.word (h.concat hslash hstay hspells hreread hlast))
  · obtain ⟨hframes, hmode, hopen, hc⟩ :=
      ends_of_not_staysInWord (h.reread.endsWord.imp_right .inr) hstay
    have hwhole := h.whole hs hframes
    obtain ⟨hnone, hbefore⟩ := @settled_of_delimiter scope s c
      (hc.imp_right fun hhash ↦ hhash.2.1) hmode hopen
    have hstep : s.stepChar scope c 0 = (s.settle scope).1.readChar scope c 0 := by
      unfold Scanner.stepChar
      rw [hnone]
      simp only [hbefore, Step.andThen, settle_silent hmode, List.nil_append]
    rw [hstep]
    refine hwhole.readDelimiter (hc.imp_right fun hhash ↦ ⟨hhash.1, ?_⟩)
    rw [settle_of_plain hhash.2.1]
    exact hhash.2.2

/-- Whatever is read, it can be spliced. -/
theorem Splicing.stepChar (h : s.Splicing scope) : Splices scope (s.stepChar scope c 0) := by
  cases h with
  | word hgoing => exact hgoing.stepChar hs hslash hbody
  | comment hmode hbare hpiece =>
      by_cases hnewline : c = '\n'
      · have hstep : s.stepChar scope c 0 = (s.inMode .plain).emitOperator .newline := by
          simp [Scanner.stepChar, complete?, hmode, hnewline]
        have hwhole : (s.inMode .plain).Whole scope :=
          ⟨rfl, hbare, fun _ ↦ hpiece, fun hraw ↦ absurd (by rw [Scanner.inMode, hpiece]) hraw⟩
        rw [hstep]
        exact hwhole.emitOperator trivial
      · have hstep : s.stepChar scope c 0 = (s, []) := by
          simp [Scanner.stepChar, complete?, hmode, hnewline]
        rw [hstep]
        exact splices_silent (.comment hmode hbare hpiece)
  | pending op hmode hbare hempty hlegible hwhole =>
      have hwhole : (s.inMode .plain).Whole scope := ⟨rfl, hbare, hempty, hwhole⟩
      cases hcompleted : s.mode.completed? c with
      | some op' =>
          have hstep : s.stepChar scope c 0 = (s.inMode .plain).emitOperator op' := by
            unfold Scanner.stepChar
            rw [complete?_of_pending hmode, hcompleted]
            rfl
          rw [hstep]
          obtain ⟨hop, -⟩ := @completed_apart True scope _ _ _ _ hmode hcompleted
          exact hwhole.emitOperator (hop hlegible)
      | none =>
          have hnone : s.complete? scope c = none := by
            rw [complete?_of_pending hmode, hcompleted]
            rfl
          have hbefore := @settleBefore_of_pending scope _ _ hmode c
          obtain ⟨hsound, hplain⟩ :=
            (hs.settled (ne_escape_of_pending hmode)).emitOperator rfl hbare op
          obtain ⟨hresting, -, -⟩ := resting_emitOperator (s := s.inMode .plain) hempty hbare rfl op
          have hemitted := hwhole.emitOperator hlegible
          have hstep : s.stepChar scope c 0 = ((s.inMode .plain).emitOperator op).andThen
              (·.stepChar scope c 0) := by
            unfold Scanner.stepChar
            rw [hnone]
            simp only [hbefore, complete?_of_plain hplain, settleBefore_of_plain hplain,
              Step.andThen, List.nil_append]
          rw [hstep]
          refine hemitted.andThen (Going.stepChar hsound hslash hbody ?_)
          cases hemitted.scanner with
          | word hgoing => exact hgoing
          | comment hmode' => simp [hplain] at hmode'
          | pending op' hmode' => simp [hplain, Mode.pending?] at hmode'

end Step

section Hole

variable {index : Nat}

omit scope in
theorem frames_of_quoting {scope : Scope} {frames : List Frame} (h : scope.quoting frames = .bare) :
    frames = [] := by
  unfold Scope.quoting at h
  split at h <;> first | rfl | cases h

/-- A hole outside all constructs ends the piece before it. -/
theorem Splicing.stepHole (h : s.Splicing scope) (hs : s.Sound)
    (hbare : ∀ lexeme ∈ (s.stepHole scope index).2, lexeme.token.isHole = true →
      lexeme.quoting = .bare) : Splices scope (s.stepHole scope index) := by
  have hmove : HoleMove scope index s (s.stepHole scope index) := stepHole_holeMove
  generalize s.stepHole scope index = step at hmove hbare ⊢
  have hread : ∀ {u : Scanner}, (∀ lexeme ∈ (u.readHole scope index).2,
      lexeme.token.isHole = true → lexeme.quoting = .bare) → u.frames = [] := by
    intro u hu
    refine frames_of_quoting (hu
      ⟨.hole index, scope.quoting u.frames, scope.enclosing u.frames⟩ ?_ rfl)
    unfold readHole emitHole
    rw [Step.andThen_snd]
    exact List.mem_append_right _ List.mem_cons_self
  cases h with
  | word hgoing =>
      cases hmove with
      | comment hmode =>
          rcases hgoing.reread.endsWord with hmode' | ⟨place, hmode'⟩ <;> simp [hmode] at hmode'
      | escaped hmode =>
          rcases hgoing.reread.endsWord with hmode' | ⟨place, hmode'⟩ <;> simp [hmode] at hmode'
      | operator pending hmode =>
          rcases hgoing.reread.endsWord with hmode' | ⟨place, hmode'⟩ <;>
            simp [hmode', Mode.pending?] at hmode
      | plain hmode =>
          have hwhole := hgoing.whole hs (hread hbare)
          rw [settle_of_plain hmode] at hwhole
          exact hwhole.emitHole
      | dollar opened hmode =>
          rcases hgoing.reread with ⟨hmode', -⟩ | ⟨hmode', hrecalled⟩
          · simp [hmode'] at hmode
          · -- the dollar sign directly before the hole has been quoted
            have hframes : s.frames = [] :=
              @hread ((s.inMode .plain).push scope ['\\', '$'] ['$']) hbare
            have hraw : ((s.inMode .plain).push scope ['\\', '$'] ['$']).piece.raw ≠ [] := by
              simp [push]
            refine Whole.emitHole (u := (s.inMode .plain).push scope ['\\', '$'] ['$'])
              ⟨rfl, hframes, fun hnil ↦ absurd hnil hraw, fun _ ↦
                hrecalled.spliceable_quoted hframes fun c hc ↦ hgoing.starts c ?_⟩
            have hspelled : s.spelled = s.piece.raw ++ ['$'] := by simp [spelled, hmode]
            rw [hspelled, List.head?_append, Option.mem_def.1 hc]
            rfl
  | comment hmode hframes hpiece =>
      cases hmove with
      | comment => exact splices_silent (.comment hmode hframes hpiece)
      | escaped hmode' | dollar _ hmode' | plain hmode' => simp [hmode] at hmode'
      | operator _ hmode' => simp [hmode, Mode.pending?] at hmode'
  | pending op hmode hframes hempty hlegible hwhole =>
      cases hmove with
      | comment hmode' | escaped hmode' | dollar _ hmode' | plain hmode' =>
          simp [hmode', Mode.pending?] at hmode
      | operator op' hmode' =>
          obtain rfl : op = op' := Option.some.inj (hmode.symm.trans hmode')
          have hwhole : (s.inMode .plain).Whole scope := ⟨rfl, hframes, hempty, hwhole⟩
          obtain ⟨hresting, -, -⟩ :=
            resting_emitOperator (s := s.inMode .plain) hempty hframes rfl op
          refine (hwhole.emitOperator hlegible).andThen (Whole.emitHole ?_)
          exact ⟨hresting.mode, hresting.frames, fun _ ↦ hresting.piece, fun hraw ↦
            absurd (by rw [hresting.piece]) hraw⟩

end Hole

/-- What is held at the end of the text can be spliced. -/
theorem Splicing.finish (h : s.Splicing scope) (hs : s.Sound) {final : List Lexeme}
    (hfinish : s.finish scope = .ok final) :
    ∀ token ∈ final.map Lexeme.token, token.Spliceable scope := by
  obtain ⟨hframes, -, rfl⟩ := finish_eq_ok_iff.1 hfinish
  cases h with
  | word hgoing =>
      have hwhole := hgoing.whole hs hframes
      rw [Step.andThen_snd, settle_silent hgoing.reread.endsWord, List.nil_append]
      exact fun token ↦ hwhole.mem_flush
  | comment hmode _ hpiece =>
      have hsettle : s.settle scope = (s, []) := by simp [Scanner.settle, hmode]
      rw [hsettle, Step.andThen_snd, List.nil_append, map_token_flush, hpiece]
      exact fun token htoken ↦ by cases htoken
  | pending op hmode _ hempty hlegible hwhole =>
      have hwhole : (s.inMode .plain).Whole scope := ⟨rfl, hframes, hempty, hwhole⟩
      change ∀ token ∈ s.held scope, _
      rw [held_of_pending hmode, @flush_congr s (s.inMode .plain) rfl]
      intro token htoken
      rw [List.mem_append, List.mem_singleton] at htoken
      rcases htoken with htoken | rfl
      · exact hwhole.mem_flush htoken
      · exact hlegible

end Scanner

open Scanner

/-- Text whose places do not matter and that escapes nothing, neither by itself nor as the body of a
substitution in backticks. -/
def EscapelessItems (items : List Item) : Prop :=
  ∀ item ∈ items, item.place = 0 ∧ ∀ c, item.symbol = .char c → c ≠ '\\' ∧ c ≠ '\x60'

theorem Scans.splices {cond : HoleCondition} {scope : Scope} {s : Scanner} {items : List Item}
    {out : Step} (h : Scans cond scope s items out) (hitems : EscapelessItems items)
    (hbare : ∀ lexeme ∈ out.2, lexeme.token.isHole = true → lexeme.quoting = .bare) (hs : s.Sound)
    (hsplicing : s.Splicing scope) : Splices scope out := by
  induction h with
  | nil => exact splices_silent hsplicing
  | @hole scope s index place rest after met tail ih =>
      have hstep := hsplicing.stepHole hs fun lexeme hl ↦ hbare lexeme (List.mem_append_left _ hl)
      refine hstep.before (ih (fun item hi ↦ hitems item (List.mem_cons_of_mem _ hi)) ?_
        (hs.stepHole index) hstep.scanner)
      exact fun lexeme hl ↦ hbare lexeme (List.mem_append_right _ hl)
  | @char scope s c place rest after closed tail ih =>
      obtain ⟨rfl, hc⟩ := hitems _ List.mem_cons_self
      obtain ⟨hslash, hbody⟩ := hc c rfl
      have hstep := hsplicing.stepChar hs hslash hbody
      refine hstep.before (ih (fun item hi ↦ hitems item (List.mem_cons_of_mem _ hi)) ?_
        (hs.stepChar c 0) hstep.scanner)
      exact fun lexeme hl ↦ hbare lexeme (List.mem_append_right _ hl)
  | @body scope s c place rest body behind inner after final opened cut within ended tail ihin ih =>
      obtain ⟨-, hc⟩ := hitems _ List.mem_cons_self
      exact absurd opened.2.1 (hc c rfl).2

/-- All tokens of a text can be spliced where its holes stand outside all constructs. -/
theorem spliceable_of_scanAll {scope : Scope} {items : List Item} {lexemes : List Lexeme}
    (h : scanAll scope items = .ok lexemes) (hitems : EscapelessItems items)
    (hbare : ∀ lexeme ∈ lexemes, lexeme.token.isHole = true → lexeme.quoting = .bare) :
    ∀ token ∈ lexemes.map Lexeme.token, token.Spliceable scope := by
  obtain ⟨out, final, hscan, hfinish, rfl⟩ := scanAll_eq_ok_iff.1 h
  have hrun := scans_of_scan hscan
  have hsplices := hrun.splices hitems (fun lexeme hl ↦ hbare lexeme (List.mem_append_left _ hl))
    sound_empty (splicing_of_empty rfl rfl rfl)
  intro token htoken
  rw [List.map_append, List.mem_append] at htoken
  exact htoken.elim (hsplices.tokens token)
    (hsplices.scanner.finish (hrun.sound sound_empty) hfinish token)

end ShellTemplate
