import Mathlib.Data.List.Infix
import ShellTemplate.Proofs.Backticked
import ShellTemplate.Proofs.Lexeme.Parallel
import ShellTemplate.Proofs.Lexeme.Pending

/-!
# Two spellings of command substitution

A body inside `$(…)` is read by the scanner around it, where only quotes, expansions and
parentheses count. The same body in backticks is scanned as a command of its own. The quoting
constructs that are open are the same all along, unless the body holds a comment: this is skipped
in backticks only. So the holes of the body stand in the same contexts.
-/

namespace ShellTemplate

open Scanner

/-- The template as the body of a substitution with parentheses. -/
def Template.inParentheses (t : Template) : Template :=
  ⟨.literal "$(".toList :: t.segments ++ [.literal ")".toList]⟩

/-- The template between backticks, as it stands. -/
def Template.inBackticks (t : Template) : Template :=
  ⟨.literal ['\x60'] :: t.segments ++ [.literal ['\x60']]⟩

/-- A lexeme with one more pair of backticks around it. -/
def Lexeme.inBackticks (lexeme : Lexeme) : Lexeme :=
  { lexeme with enclosing := lexeme.enclosing.deeper }

/-- A symbol that neither ends a substitution nor escapes anything. -/
def Symbol.isInner : Symbol → Bool
  | .char c => c ∉ ['\x60', '\\', '(', ')']
  | .hole _ => true

/-- No part of the template is skipped as a comment. -/
def Template.isCommentFree (t : Template) : Bool :=
  t.symbols.inits.all fun front ↦
    (scan {} {} (unplaced front)).toOption.all fun step ↦ step.1.mode ≠ .comment

theorem symbolsFrom_append_literal (next : Nat) (segments : List Segment) (text : List Char) :
    symbolsFrom next (segments ++ [.literal text]) =
      symbolsFrom next segments ++ text.map .char := by
  rw [symbolsFrom_append]
  simp [symbolsFrom]

theorem Template.symbols_inParentheses (t : Template) :
    t.inParentheses.symbols = .char '$' :: .char '(' :: (t.symbols ++ [.char ')']) :=
  congrArg (Symbol.char '$' :: Symbol.char '(' :: ·) (symbolsFrom_append_literal 0 t.segments [')'])

theorem Template.symbols_inBackticks (t : Template) :
    t.inBackticks.symbols = .char '\x60' :: (t.symbols ++ [.char '\x60']) :=
  congrArg (Symbol.char '\x60' :: ·) (symbolsFrom_append_literal 0 t.segments ['\x60'])

theorem cutBody_of_isInner {symbols : List Symbol}
    (h : ∀ symbol ∈ symbols, symbol.isInner = true) (behind : List Symbol) :
    cutBody (unplaced (symbols ++ .char '\x60' :: behind)) =
      some (unplaced symbols, unplaced behind) := by
  induction symbols with
  | nil => simp [unplaced, cutBody]
  | cons symbol rest ih =>
      have hrest := ih fun other ho ↦ h other (by simp [ho])
      have hinner := h symbol List.mem_cons_self
      simp only [unplaced, List.cons_append, List.map_cons] at hrest ⊢
      rw [cutBody, if_neg, hrest]
      · rfl
      · rintro rfl
        simp [Symbol.isInner] at hinner
      · rintro p c q tail hfirst -
        cases hfirst
        simp [Symbol.isInner] at hinner

namespace Scanner

variable {scope : Scope}

/-- The first scanner reads inside parentheses what the second one reads as a command. An operator
is undecided only for the second. -/
structure SameBody (s t : Scanner) : Prop where
  frames : s.frames = t.frames ++ [.substitution 0 0]
  mode : (s.mode = t.mode ∧ (t.mode = .plain ∨ ∃ place, t.mode = .dollar place)) ∨
    (s.mode = .plain ∧ t.frames = [] ∧ ∃ op, t.mode.pending? = some op)

namespace SameBody

variable {scope scope' : Scope} {s t : Scanner} {c : Char}

theorem of_plain (hframes : s.frames = t.frames ++ [.substitution 0 0]) (hs : s.mode = .plain)
    (ht : t.mode = .plain) : s.SameBody t :=
  ⟨hframes, .inl ⟨hs.trans ht.symm, .inl ht⟩⟩

theorem of_dollar {place : Nat} (hframes : s.frames = t.frames ++ [.substitution 0 0])
    (hs : s.mode = .dollar place) (ht : t.mode = .dollar place) : s.SameBody t :=
  ⟨hframes, .inl ⟨hs.trans ht.symm, .inr ⟨place, ht⟩⟩⟩

/-- A character that is an operator or a blank for the second scanner only. -/
theorem readSubstitution_keep (hc : c ∉ [')', '(', '\'', '"', '\\', '$']) (opened parens : Nat) :
    s.readSubstitution scope c 0 opened parens = s.pushChar scope c := by
  simp only [List.mem_cons, List.not_mem_nil, or_false, not_or] at hc
  simp [readSubstitution, hc]

theorem readBare (hs : s.frames = [.substitution 0 0]) (ht : t.frames = [])
    (hplain : s.mode = .plain) (hplain' : t.mode = .plain) (hc : c ∉ ['\x60', '\\', '(', ')'])
    (hcomment : (t.readBare scope' c 0).1.mode ≠ .comment) :
    (s.readSubstitution scope c 0 0 0).SameBody (t.readBare scope' c 0).1 := by
  by_cases hsingle : c = '\''
  · subst hsingle
    refine .of_plain ?_ hplain hplain'
    simp [Scanner.readBare, readSubstitution, pushSyntax, pushChar, push, enter, hs, ht]
  by_cases hdouble : c = '"'
  · subst hdouble
    refine .of_plain ?_ hplain hplain'
    simp [Scanner.readBare, readSubstitution, pushSyntax, pushChar, push, enter, hs, ht]
  have hkeep : c ≠ '$' → s.readSubstitution scope c 0 0 0 = s.pushChar scope c := fun hdollar ↦
    readSubstitution_keep (by simp_all) 0 0
  have hframes : s.frames = t.frames ++ [.substitution 0 0] := by rw [hs, ht]; rfl
  have hmove : Move scope' 0 c t (t.readBare scope' c 0) := readBare_move ht
  generalize t.readBare scope' c 0 = step at hmove hcomment ⊢
  cases hmove with
  | blank _ hblank =>
      have hemit := emitBlank_frames t
      rw [hkeep (by rintro rfl; simp at hblank)]
      exact .of_plain (by rw [hemit.1]; exact hframes) hplain (hemit.2.trans hplain')
  | operator _ op hop hop' =>
      have hemit := emitOperator_frames op t
      have hdollar : c ≠ '$' := by
        rintro rfl
        simp only [List.mem_cons, List.not_mem_nil, or_false] at hop'
        rcases hop' with rfl | rfl | rfl | rfl <;> simp [Operator.text] at hop
      rw [hkeep hdollar]
      exact .of_plain (by rw [hemit.1]; exact hframes) hplain (hemit.2.trans hplain')
  | comment => exact absurd rfl hcomment
  | begin _ mode hbegin =>
      rw [hkeep (by rintro rfl; simp at hbegin)]
      refine ⟨hframes, .inr ⟨hplain, ht, ?_⟩⟩
      rcases hbegin with ⟨-, rfl⟩ | ⟨-, rfl⟩ <;> exact ⟨_, rfl⟩
  | angle _ mode hangle =>
      obtain ⟨hsame, fd, hmode⟩ := readAngle_frames mode t
      rw [hkeep (by rintro rfl; simp at hangle)]
      refine ⟨by rw [hsame]; exact hframes, .inr ⟨hplain, hsame.trans ht, ?_⟩⟩
      rw [hmode]
      rcases hangle with ⟨-, rfl⟩ | ⟨-, rfl⟩ <;> exact ⟨_, rfl⟩
  | keep hordinary =>
      rw [hkeep (by rintro rfl; simp [Ordinary, ht, bareSyntax] at hordinary)]
      exact .of_plain hframes hplain hplain'
  | glob _ hordinary =>
      rw [hkeep (by rintro rfl; simp [Ordinary, ht, bareSyntax] at hordinary)]
      exact .of_plain hframes hplain hplain'
  | openQuote _ frame hframe =>
      rcases hframe with ⟨rfl, -⟩ | ⟨rfl, -⟩
      · exact absurd rfl hsingle
      · exact absurd rfl hdouble
  | closeQuote frame rest hcons => simp [ht] at hcons
  | openInner outer rest hcons => simp [ht] at hcons
  | closeExpansion frame rest hcons => simp [ht] at hcons
  | nest opened parens parens' rest hcons => simp [ht] at hcons
  | backslash _ hbackslash => simp [hbackslash] at hc
  | dollar _ hdollar =>
      subst hdollar
      exact @of_dollar _ _ 0 (by simpa [readSubstitution, inMode] using hframes)
        (by simp [readSubstitution, inMode]) rfl

theorem readChar (h : s.SameBody t) (hplain : s.mode = .plain) (hplain' : t.mode = .plain)
    (hc : c ∉ ['\x60', '\\', '(', ')'])
    (hcomment : (t.readChar scope' c 0).1.mode ≠ .comment) :
    (s.readChar scope c 0).1.SameBody (t.readChar scope' c 0).1 := by
  have hframes := h.frames
  by_cases hbare : t.frames = []
  · rw [hbare, List.nil_append] at hframes
    have hread : t.readChar scope' c 0 = t.readBare scope' c 0 := by
      simp [Scanner.readChar, hbare]
    have hread' : s.readChar scope c 0 = (s.readSubstitution scope c 0 0 0, []) := by
      simp [Scanner.readChar, hframes]
    rw [hread] at hcomment ⊢
    rw [hread']
    exact readBare hframes hbare hplain hplain' hc hcomment
  · have hwithin : t.Within s [.substitution 0 0] := ⟨hframes, .inr hbare, by simp [Frame.isDouble]⟩
    have hparallel := @parallel_readChar scope' scope c t s _ hwithin hplain' hplain
      fun hnil ↦ absurd hnil hbare
    generalize t.readChar scope' c 0 = step at hparallel ⊢
    generalize s.readChar scope c 0 = step' at hparallel ⊢
    cases hparallel with
    | blank hnil => exact absurd hnil hbare
    | operator hnil => exact absurd hnil hbare
    | comment hnil => exact absurd hnil hbare
    | begin hnil => exact absurd hnil hbare
    | angle hnil => exact absurd hnil hbare
    | push e e' frames hpush hpush' =>
        exact .of_plain (by rw [hpush.frames, hpush'.frames]) hpush'.mode hpush.mode
    | backslash _ hbackslash => simp [hbackslash] at hc
    | dollar => exact .of_dollar hframes rfl rfl

/-- A character that completes an operator is a plain one inside parentheses. -/
theorem stepChar (h : s.SameBody t) (hc : c ∉ ['\x60', '\\', '(', ')'])
    (hcomment : (t.stepChar scope' c 0).1.mode ≠ .comment) :
    (s.stepChar scope c 0).1.SameBody (t.stepChar scope' c 0).1 := by
  rcases h.mode with ⟨hmode, hplain | ⟨place, hdollar⟩⟩ | ⟨hplain, hbare, op, hpending⟩
  · rw [hplain] at hmode
    rw [stepChar_of_plain hplain] at hcomment ⊢
    rw [stepChar_of_plain hmode]
    exact h.readChar hmode hplain hc hcomment
  · rw [hdollar] at hmode
    by_cases hbrace : c = '\x7b'
    · subst hbrace
      have hs : s.stepChar scope '\x7b' 0 = ((((s.inMode .plain).push scope ['$', '\x7b']
          ['$', '\x7b']).markExpands).enter (.parameter place), []) := by
        simp [Scanner.stepChar, Scanner.complete?, hmode]
      have ht : t.stepChar scope' '\x7b' 0 = ((((t.inMode .plain).push scope' ['$', '\x7b']
          ['$', '\x7b']).markExpands).enter (.parameter place), []) := by
        simp [Scanner.stepChar, Scanner.complete?, hdollar]
      rw [hs, ht]
      exact .of_plain (congrArg (Frame.parameter place :: ·) h.frames) rfl rfl
    · have hparen : c ≠ '(' := by
        rintro rfl
        simp at hc
      have hsettled : ∀ (scope : Scope) (u : Scanner), u.mode = .dollar place →
          u.complete? scope c = none ∧ (u.settleBefore scope c).1.frames = u.frames ∧
            (u.settleBefore scope c).1.mode = .plain := by
        intro scope u hu
        refine ⟨by simp [Scanner.complete?, hu, hbrace, hparen], ?_⟩
        unfold Scanner.settleBefore
        rw [hu]
        dsimp only
        split_ifs <;> exact ⟨rfl, rfl⟩
      obtain ⟨hnone, hframes, hplain⟩ := hsettled scope s hmode
      obtain ⟨hnone', hframes', hplain'⟩ := hsettled scope' t hdollar
      unfold Scanner.stepChar at hcomment ⊢
      rw [hnone'] at hcomment ⊢
      rw [hnone]
      exact (of_plain (by rw [hframes, hframes', h.frames]) hplain hplain').readChar hplain hplain'
        hc hcomment
  · have hframes := h.frames
    rw [hbare, List.nil_append] at hframes
    have hread : s.stepChar scope c 0 = (s.readSubstitution scope c 0 0 0, []) := by
      rw [stepChar_of_plain hplain]
      simp [Scanner.readChar, hframes]
    unfold Scanner.stepChar at hcomment
    have hcomplete := @complete?_of_pending scope' t op hpending c
    cases hcompleted : t.mode.completed? c with
    | some done =>
        rw [hcompleted, Option.map_some] at hcomplete
        have hemit := emitOperator_frames done (t.inMode .plain)
        have hkeep : c ∉ [')', '(', '\'', '"', '\\', '$'] := by
          rintro hmem
          simp only [List.mem_cons, List.not_mem_nil, or_false] at hmem
          rcases hmem with rfl | rfl | rfl | rfl | rfl | rfl <;>
            cases hmode : t.mode <;> simp [hmode, Mode.completed?] at hcompleted
        have ht : t.stepChar scope' c 0 = (t.inMode .plain).emitOperator done := by
          unfold Scanner.stepChar
          rw [hcomplete]
        rw [hread, ht, readSubstitution_keep hkeep]
        exact .of_plain (by rw [hemit.1]; exact h.frames) hplain hemit.2
    | none =>
        rw [hcompleted, Option.map_none] at hcomplete
        rw [hcomplete] at hcomment
        have hemit := emitOperator_frames op (t.inMode .plain)
        have hsettle : t.settleBefore scope' c = (t.inMode .plain).emitOperator op :=
          settleBefore_of_pending hpending c
        have ht : t.stepChar scope' c 0 = (t.settleBefore scope' c).andThen
            (·.readChar scope' c 0) := by
          unfold Scanner.stepChar
          rw [hcomplete]
        have hsame : s.SameBody ((t.inMode .plain).emitOperator op).1 :=
          .of_plain (by rw [hemit.1]; exact h.frames) hplain hemit.2
        rw [stepChar_of_plain hplain, ht, hsettle]
        rw [hsettle] at hcomment
        exact hsame.readChar hplain hemit.2 hc hcomment

section Holes

theorem readHole_frames (scope : Scope) (index : Nat) (u : Scanner) :
    (u.readHole scope index).1.frames = u.frames ∧ (u.readHole scope index).1.mode = u.mode :=
  emitHole_frames index _ _ u

/-- The parentheses and the backticks count as one substitution each. -/
theorem quoting_eq (hframes : s.frames = t.frames ++ [.substitution 0 0]) :
    (Scope.deeper {}).quoting t.frames = ({} : Scope).quoting s.frames := by
  rw [hframes]
  cases t.frames with
  | nil => rfl
  | cons frame rest =>
      cases frame with
      | single | double | parameter => rfl
      | substitution opened parens =>
          have hlast : [Frame.substitution 0 0].countP Frame.isSubstitution = 1 := rfl
          change Quoting.substitution _ = Quoting.substitution _
          simp only [Scope.substitutions, List.countP_append, hlast, Scope.deeper]
          congr 1
          omega

theorem enclosing_eq (hframes : s.frames = t.frames ++ [.substitution 0 0]) :
    (Scope.deeper {}).enclosing t.frames = (({} : Scope).enclosing s.frames).deeper := by
  have hcommand : commandFrames s.frames = commandFrames t.frames := by
    rw [hframes]
    unfold commandFrames
    induction t.frames with
    | nil => rfl
    | cons frame rest ih =>
        rw [List.cons_append, List.takeWhile_cons, List.takeWhile_cons, ih]
  unfold Scope.enclosing
  rw [hcommand]
  rfl

/-- A hole that is read with nothing undecided is reported in the same context. -/
theorem readHole (hframes : s.frames = t.frames ++ [.substitution 0 0]) (hplain : s.mode = .plain)
    (hplain' : t.mode = .plain) (index : Nat) :
    (s.readHole {} index).1.SameBody (t.readHole (Scope.deeper {}) index).1 ∧
      holeLexemes (t.readHole (Scope.deeper {}) index).2 =
        (holeLexemes (s.readHole {} index).2).map Lexeme.inBackticks := by
  obtain ⟨hs, hs'⟩ := readHole_frames {} index s
  obtain ⟨ht, ht'⟩ := readHole_frames (Scope.deeper {}) index t
  refine ⟨.of_plain (by rw [hs, ht, hframes]) (hs'.trans hplain) (ht'.trans hplain'), ?_⟩
  unfold Scanner.readHole
  rw [holeLexemes_emitHole, holeLexemes_emitHole, quoting_eq hframes, enclosing_eq hframes]
  rfl

theorem stepHole (h : s.SameBody t) (index : Nat) :
    (s.stepHole {} index).1.SameBody (t.stepHole (Scope.deeper {}) index).1 ∧
      holeLexemes (t.stepHole (Scope.deeper {}) index).2 =
        (holeLexemes (s.stepHole {} index).2).map Lexeme.inBackticks := by
  have hplainly : ∀ (scope : Scope) (u : Scanner), u.mode = .plain →
      u.stepHole scope index = u.readHole scope index := by
    intro scope u hu
    unfold Scanner.stepHole
    rw [hu]
    simp only [settle_of_plain hu, Step.andThen, List.nil_append]
  rcases h.mode with ⟨hmode, hplain | ⟨place, hdollar⟩⟩ | ⟨hplain, hbare, op, hpending⟩
  · rw [hplain] at hmode
    rw [hplainly _ s hmode, hplainly _ t hplain]
    exact readHole h.frames hmode hplain index
  · rw [hdollar] at hmode
    have hescaped : ∀ (scope : Scope) (u : Scanner), u.mode = .dollar place →
        u.stepHole scope index =
          ((u.inMode .plain).push scope ['\\', '$'] ['$']).readHole scope index := by
      intro scope u hu
      unfold Scanner.stepHole
      rw [hu]
    have hread := readHole (s := (s.inMode .plain).push {} ['\\', '$'] ['$'])
      (t := (t.inMode .plain).push (Scope.deeper {}) ['\\', '$'] ['$']) h.frames rfl rfl index
    rw [hescaped _ s hmode, hescaped _ t hdollar]
    exact hread
  · have hemit := emitOperator_frames op (t.inMode .plain)
    have hread := readHole (s := s) (t := ((t.inMode .plain).emitOperator op).1)
      (by rw [hemit.1]; exact h.frames) hplain hemit.2 index
    have hmove := @stepHole_holeMove (Scope.deeper {}) t index
    rw [hplainly _ s hplain]
    generalize t.stepHole (Scope.deeper {}) index = step at hmove ⊢
    cases hmove with
    | comment hmode => simp [hmode, Mode.pending?] at hpending
    | escaped hmode => simp [hmode, Mode.pending?] at hpending
    | dollar opened hmode => simp [hmode, Mode.pending?] at hpending
    | plain hmode => simp [hmode, Mode.pending?] at hpending
    | operator op' hmode =>
        obtain rfl : op = op' := Option.some.inj (hpending.symm.trans hmode)
        refine ⟨hread.1, ?_⟩
        rw [Step.andThen_snd, holeLexemes_append, (Filled.emitOperator op).holeLexemes_eq_nil]
        exact hread.2

end Holes

/-- The bodies are read alike up to any point behind which parentheses are read on. -/
theorem scan {symbols : List Symbol} (h : s.SameBody t)
    (hinner : ∀ symbol ∈ symbols, symbol.isInner = true)
    (hcomment : ∀ front, front <+: symbols → ∀ step,
      ShellTemplate.scan (Scope.deeper {}) t (unplaced front) = .ok step → step.1.mode ≠ .comment)
    (behind : List Item) :
    ∃ out out' : Step, ShellTemplate.scan {} s (unplaced symbols ++ behind) =
        (ShellTemplate.scan {} out.1 behind).map out.before ∧
      ShellTemplate.scan (Scope.deeper {}) t (unplaced symbols) = .ok out' ∧
        holeLexemes out'.2 = (holeLexemes out.2).map Lexeme.inBackticks := by
  induction symbols generalizing s t with
  | nil =>
      refine ⟨(s, []), (t, []), ?_, scan_nil _ _, rfl⟩
      cases hscan : ShellTemplate.scan {} s behind <;> simp [unplaced, hscan, Except.map, Step.before]
  | cons symbol rest ih =>
      have hinner' : ∀ other ∈ rest, other.isInner = true := fun other ho ↦
        hinner other (by simp [ho])
      -- One step of either scanner, then the rest of the body.
      have hstep : ∀ step step' : Step, step.1.SameBody step'.1 →
          holeLexemes step'.2 = (holeLexemes step.2).map Lexeme.inBackticks →
          (∀ items, ShellTemplate.scan {} s (⟨symbol, 0⟩ :: items) =
            (ShellTemplate.scan {} step.1 items).map step.before) →
          (∀ items, ShellTemplate.scan (Scope.deeper {}) t (⟨symbol, 0⟩ :: items) =
            (ShellTemplate.scan (Scope.deeper {}) step'.1 items).map step'.before) →
          ∃ out out' : Step, ShellTemplate.scan {} s (unplaced (symbol :: rest) ++ behind) =
              (ShellTemplate.scan {} out.1 behind).map out.before ∧
            ShellTemplate.scan (Scope.deeper {}) t (unplaced (symbol :: rest)) = .ok out' ∧
              holeLexemes out'.2 = (holeLexemes out.2).map Lexeme.inBackticks := by
        intro step step' hsame hholes hscan hscan'
        obtain ⟨out, out', hout, hout', hmore⟩ := ih hsame hinner' fun front hfront after hafter ↦
          hcomment (symbol :: front) (List.cons_prefix_cons.2 ⟨rfl, hfront⟩) (step'.before after) (by
            change ShellTemplate.scan _ t (⟨symbol, 0⟩ :: unplaced front) = _
            rw [hscan', hafter]
            rfl)
        refine ⟨step.before out, step'.before out', ?_, ?_, ?_⟩
        · change ShellTemplate.scan _ s (⟨symbol, 0⟩ :: (unplaced rest ++ behind)) = _
          rw [hscan, hout]
          exact map_before_map _ _ _
        · change ShellTemplate.scan _ t (⟨symbol, 0⟩ :: unplaced rest) = _
          rw [hscan', hout']
          rfl
        · simp only [Step.before, holeLexemes_append, hholes, hmore, List.map_append]
      cases symbol with
      | hole index =>
          obtain ⟨hsame, hholes⟩ := h.stepHole index
          exact hstep _ _ hsame hholes (scan_hole _ _ _ _) (scan_hole _ _ _ _)
      | char c =>
          have hc : c ∉ ['\x60', '\\', '(', ')'] := by
            simpa [Symbol.isInner] using hinner _ List.mem_cons_self
          have hbody : ∀ (scope : Scope) (u : Scanner), ¬ u.OpensBodyAt scope c := fun scope u ↦
            not_opensBodyAt_of_ne fun hc' ↦ hc (by simp [hc'])
          have hscan' : ∀ items, ShellTemplate.scan (Scope.deeper {}) t (⟨.char c, 0⟩ :: items) = _ :=
            fun items ↦ scan_char _ _ (hbody _ _)
          have hfirst := hcomment [.char c] (by simp) _ ((hscan' []).trans (by
            rw [scan_nil]
            rfl))
          refine hstep _ _ (h.stepChar hc hfirst) ?_ (fun items ↦ scan_char _ _ (hbody _ _)) hscan'
          rw [(Filled.stepChar c 0).holeLexemes_eq_nil, (Filled.stepChar c 0).holeLexemes_eq_nil]
          rfl

end SameBody

end Scanner

/-- The scanner behind the opening of a substitution with parentheses. -/
def substitutionOpened : Scanner :=
  ((({} : Scanner).push {} ['$', '('] ['$', '(']).markExpands).enter (.substitution 0 0)

theorem stepChar_dollar :
    ({} : Scanner).stepChar {} '$' 0 = (({} : Scanner).inMode (.dollar 0), []) :=
  rfl

theorem stepChar_dollarParen :
    (({} : Scanner).inMode (.dollar 0)).stepChar {} '(' 0 = (substitutionOpened, []) := rfl

/-- Scanning one substitution deeper skips the same comments. -/
theorem Template.isCommentFree_deeper {t : Template} (h : t.isCommentFree = true)
    {front : List Symbol} (hfront : front <+: t.symbols) {step : Step}
    (hscan : scan (Scope.deeper {}) {} (unplaced front) = .ok step) :
    step.1.mode ≠ .comment := by
  have hdeeper := @scan_retold .deeper {} {} {} (unplaced front) retold_empty
  rw [Retelling.map_item_deeper] at hdeeper
  change SameOutcome _ _ (scan (Scope.deeper {}) {} (unplaced front)) at hdeeper
  rw [hscan] at hdeeper
  generalize hout : scan {} {} (unplaced front) = out at hdeeper
  cases out with
  | error e => cases hdeeper
  | ok first =>
      cases hdeeper with
      | ok hsame =>
          have hfree := List.all_eq_true.1 h front ((List.mem_inits _ _).2 hfront)
          rw [hout] at hfree
          rw [hsame.scanner.mode, ne_eq, Mode.moved_eq_comment_iff]
          simpa [Except.toOption] using hfree

/-- Both spellings of a substitution report the same holes in the same contexts, unless a comment
is skipped in backticks. -/
theorem holeLexemes_inBackticks {t : Template} {lexemes lexemes' : List Lexeme}
    (hinner : ∀ symbol ∈ t.symbols, symbol.isInner = true) (hcomment : t.isCommentFree = true)
    (hparentheses : t.inParentheses.lexemes = .ok lexemes)
    (hbackticks : t.inBackticks.lexemes = .ok lexemes') :
    holeLexemes lexemes' = (holeLexemes lexemes).map Lexeme.inBackticks := by
  rw [Template.lexemes_eq_ok_iff, Template.symbols_inParentheses, scanAll_eq_ok_iff] at hparentheses
  rw [Template.lexemes_eq_ok_iff, Template.symbols_inBackticks,
    scanAll_cutBody (cutBody_of_isInner hinner []), map_eq_ok_iff] at hbackticks
  obtain ⟨out, final, hscan, hfinish, rfl⟩ := hparentheses
  obtain ⟨inner, hinnerScan, rfl⟩ := hbackticks
  obtain ⟨out', final', hscan', hfinish', rfl⟩ := scanAll_eq_ok_iff.1 hinnerScan
  have hopening : scan {} {} (unplaced (.char '$' :: .char '(' :: (t.symbols ++ [.char ')']))) =
      (scan {} substitutionOpened (unplaced t.symbols ++ unplaced [.char ')'])).map
        (Step.before (substitutionOpened, [])) := by
    have hdollar : ¬ ({} : Scanner).OpensBodyAt {} '$' := not_opensBodyAt_of_ne (by decide)
    have hparen : ¬ (({} : Scanner).inMode (.dollar 0)).OpensBodyAt {} '(' :=
      not_opensBodyAt_of_ne (by decide)
    have hitems : unplaced (.char '$' :: .char '(' :: (t.symbols ++ [.char ')'])) =
        ⟨.char '$', 0⟩ :: ⟨.char '(', 0⟩ :: (unplaced t.symbols ++ unplaced [.char ')']) := by
      simp [unplaced]
    rw [hitems, scan_char _ _ hdollar, stepChar_dollar, scan_char _ _ hparen, stepChar_dollarParen,
      map_before_map]
    rfl
  have hsame : substitutionOpened.SameBody {} := .of_plain rfl rfl rfl
  obtain ⟨body, body', hbody, hbody', hholes⟩ := hsame.scan hinner
    (fun front hfront step ↦ Template.isCommentFree_deeper hcomment hfront) (unplaced [.char ')'])
  obtain rfl : body' = out' := Except.ok.inj (hbody'.symm.trans hscan')
  -- The closing parenthesis and the ends of the texts complete no holes.
  have hclosing : ¬ body.1.OpensBodyAt {} ')' := not_opensBodyAt_of_ne (by decide)
  have hlast : scan {} body.1 (unplaced [.char ')']) = .ok (body.1.stepChar {} ')' 0) := by
    have hscan := @scan_char {} body.1 ')' 0 [] hclosing
    rw [scan_nil] at hscan
    refine hscan.trans (congrArg Except.ok ?_)
    simp [Step.before]
  rw [hopening, hbody, hlast] at hscan
  cases hscan
  rw [holeLexemes_backtickedLexemes]
  simp only [holeLexemes_append, Step.before, List.nil_append,
    (Filled.finish hfinish).holeLexemes_eq_nil, (Filled.finish hfinish').holeLexemes_eq_nil,
    (Filled.stepChar ')' 0).holeLexemes_eq_nil, List.append_nil, hholes]

/-- Holes in single quotes, behind an operator and in double quotes. -/
def quotedBody : Template :=
  ⟨[.literal "a '".toList, .hole (.str "x".toList), .literal "'; b>".toList,
    .hole (.str "y".toList), .literal " \"c#".toList, .hole (.str "z".toList), .literal "\"".toList]⟩

theorem holeLexemes_inBackticks_quotedBody :
    (∀ symbol ∈ quotedBody.symbols, symbol.isInner = true) ∧ quotedBody.isCommentFree = true ∧
      ∃ lexemes lexemes', quotedBody.inParentheses.lexemes = .ok lexemes ∧
        quotedBody.inBackticks.lexemes = .ok lexemes' ∧
          holeLexemes lexemes =
            [⟨.hole 0, .single, {}⟩, ⟨.hole 1, .substitution 1, {}⟩, ⟨.hole 2, .double, {}⟩] ∧
          holeLexemes lexemes' = (holeLexemes lexemes).map Lexeme.inBackticks := by
  have hinner : ∀ symbol ∈ quotedBody.symbols, symbol.isInner = true := by decide +kernel
  have hcomment : quotedBody.isCommentFree = true := by decide +kernel
  have hparentheses : quotedBody.inParentheses.lexemes.map holeLexemes =
      .ok [⟨.hole 0, .single, {}⟩, ⟨.hole 1, .substitution 1, {}⟩, ⟨.hole 2, .double, {}⟩] := by
    decide +kernel
  have hbackticks : quotedBody.inBackticks.lexemes.map (fun _ ↦ ()) = .ok () := by decide +kernel
  obtain ⟨lexemes, hlexemes, hholes⟩ := map_eq_ok_iff.1 hparentheses
  obtain ⟨lexemes', hlexemes', -⟩ := map_eq_ok_iff.1 hbackticks
  exact ⟨hinner, hcomment, lexemes, lexemes', hlexemes, hlexemes', hholes,
    holeLexemes_inBackticks hinner hcomment hlexemes hlexemes'⟩

/-- A hole in a comment. -/
def commentedHole : Template :=
  ⟨[.literal "a # ".toList, .hole (.str "x".toList), .literal "\n".toList]⟩

/-- The hole of a comment is reported with parentheses and dropped in backticks. -/
theorem commentedHole_reported_in_parentheses :
    (∀ symbol ∈ commentedHole.symbols, symbol.isInner = true) ∧
      commentedHole.inParentheses.lexemes.map holeLexemes =
        .ok [⟨.hole 0, .substitution 1, {}⟩] ∧
          commentedHole.inBackticks.lexemes.map holeLexemes = .ok [] := by
  decide +kernel

end ShellTemplate
