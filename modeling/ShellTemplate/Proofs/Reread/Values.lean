import ShellTemplate.Proofs.Reread.Characters

/-!
# Reading a value

The text of a hole is written as its context asks. Read again, it makes the word
grow by what is written, whatever characters the text holds.
-/

namespace ShellTemplate

/-- The hole with this number holds a text, if it holds anything. -/
def HoldsText (values : List Value) (index : Nat) : Prop :=
  ∀ value, values[index]? = some value → value.literalText?.isSome = true

instance (values : List Value) (index : Nat) : Decidable (HoldsText values index) :=
  decidable_of_iff ((values[index]?.all fun value ↦ value.literalText?.isSome) = true)
    (by cases h : values[index]? <;> simp [HoldsText, h])

/-- All the holes among the lexemes hold texts. -/
def HoldTexts (values : List Value) (lexemes : List Lexeme) : Prop :=
  ∀ lexeme ∈ lexemes, ∀ index, lexeme.token = .hole index → HoldsText values index

theorem holdsText_of_texts {values : List Value}
    (h : ∀ value ∈ values, value.literalText?.isSome = true) (index : Nat) :
    HoldsText values index :=
  fun value hvalue ↦ h value (List.mem_of_getElem? hvalue)

theorem Grown.continues {s s' : Scanner} {raw text : List Char} {frames : List Frame}
    (h : Grown s s' raw text frames) (hne : raw ≠ []) (b : Nat) (tokens : List Token) :
    Scanner.Continues b s tokens s' tokens raw false :=
  Scanner.continues_of_raw b tokens h.previous h.raw (by rw [h.expands, Bool.or_false])
    fun _ hnil ↦ by simp [h.raw, hne] at hnil

namespace Scanner

variable {strict : Prop} {b : Nat} {scope : Scope} {s s' t : Scanner} {tokens more : List Token}

theorem head_singleQuote (text : List Char) : (singleQuote text).head? = some '\'' := rfl

theorem getLast?_singleQuote (text : List Char) : (singleQuote text).getLast? = some '\'' :=
  List.getLast?_concat

theorem notDigits_singleQuote (text : List Char) : NotDigits (singleQuote text) :=
  ⟨'\'', List.mem_cons_self, rfl⟩

/-- Where a value is safe its text is written outside quotes, in single quotes around which words
may stand, or in double quotes. -/
inductive Safe (scope : Scope) (frames : List Frame) : Prop
  | words (hwords : holdsWords frames = true)
      (hwrite : ∀ text, (scope.quoting frames).write text = singleQuote text)
  | single (outer : List Frame) (hframes : frames = .single 0 :: outer)
      (houter : holdsWords outer = true)
  | double (outer : List Frame) (hframes : frames = .double 0 :: outer)

theorem Sound.safe (hs : s.Sound) (herase : s.erase = s)
    (hsafe : Value.unsafeContext? (scope.quoting s.frames) (scope.enclosing s.frames) = none) :
    Safe scope s.frames := by
  have hplaces : s.frames.map Frame.erase = s.frames := congrArg Scanner.frames herase
  unfold Value.unsafeContext? at hsafe
  split_ifs at hsafe with hparameter _
  cases hframes : s.frames with
  | nil =>
      refine .words rfl fun text ↦ ?_
      unfold Scope.quoting
      dsimp only
      split_ifs <;> rfl
  | cons frame rest =>
      rw [hframes, List.map_cons, List.cons.injEq] at hplaces
      rw [hframes] at hparameter
      have hnested := hs.nested
      rw [hframes, List.isChain_cons] at hnested
      cases frame with
      | double place =>
          obtain rfl : 0 = place := Frame.double.inj hplaces.1
          exact .double rest rfl
      | parameter place => simp [Scope.quoting] at hparameter
      | substitution opened parens => exact .words rfl fun _ ↦ rfl
      | single place =>
          obtain rfl : 0 = place := Frame.single.inj hplaces.1
          refine .single rest rfl ?_
          cases rest with
          | nil => rfl
          | cons outer rest =>
              obtain ⟨hquote, _⟩ := hnested.1 outer rfl
              cases outer with
              | single place | double place => simp [Frame.isQuote] at hquote
              | substitution opened parens => rfl
              | parameter place =>
                  simp [Scope.enclosing, commandFrames, Frame.isSubstitution, Frame.isParameter]
                    at hparameter

theorem Safe.grows {frames : List Frame} (h : Safe scope frames) (hframes : t.frames = frames)
    (hmode : t.mode = .plain) (text : List Char) :
    ∃ text', Grows scope t ((scope.quoting frames).write text) text' frames := by
  cases h with
  | words hwords hwrite =>
      rw [hwrite, ← hframes]
      exact ⟨_, grows_singleQuote text hmode (by rwa [hframes])⟩
  | single outer hsingle houter =>
      subst hsingle
      exact ⟨_, grows_escapeSingle text hmode hframes houter⟩
  | double outer hdouble =>
      subst hdouble
      exact ⟨_, grows_escapeDouble text hmode hframes⟩

theorem Safe.write_of_nil (h : Safe scope []) (text : List Char) :
    (scope.quoting []).write text = singleQuote text := by
  cases h with
  | words _ hwrite => exact hwrite text
  | single outer hframes _ => cases hframes
  | double outer hframes => cases hframes

theorem Continues.refl (b : Nat) (s : Scanner) (tokens : List Token) :
    Continues b s tokens s tokens [] false :=
  continues_of_raw b tokens rfl (List.append_nil _).symm (Bool.or_false _).symm id

theorem Follows.readValue {next : Char → Prop} (h : Follows strict b scope next s tokens)
    (hs : s.Sound) (hmode : s.mode = .plain) (hsafe : Safe scope s.frames) {text : List Char}
    (hfirst : ∀ c ∈ ((scope.quoting s.frames).write text).head?, next c)
    (hnone : (scope.quoting s.frames).write text = [] → ∀ c, next c) {p : Piece}
    (hraw : p.raw = (scope.quoting s.frames).write text) (hexpands : p.expands = false) :
    Keeps strict b scope { s with piece := {}, previous := .word }
      (tokens ++ (s.flush.2.map Lexeme.token ++ [.piece p])) := by
  have hempty := hs.piece_empty hmode
  have hnumber : ∀ t more, Aligned strict b s tokens t more →
      NotDigits (((assembly tokens).wordWith s.piece).raw ++ p.raw) := by
    intro t more ht
    rw [hraw]
    by_cases hframes : s.frames = []
    · rw [hframes] at hsafe ⊢
      rw [hsafe.write_of_nil]
      exact (notDigits_singleQuote text).append_right _
    · exact (ht.inside (.inl hframes)).append_left _
  have hgrow : ∀ {t t' : Scanner} {more : List Token}, Aligned strict b s tokens t more →
      Continues b t more t' more p.raw false → t'.frames = s.frames → t'.mode = .plain →
      t'.previous = t.previous →
      Aligned strict b { s with piece := {}, previous := .word }
        (tokens ++ (s.flush.2.map Lexeme.token ++ [.piece p])) t' more := by
    intro t t' more ht hcontinues hframes hplain hprevious
    have hpiece := continues_piece (b := b) hempty hexpands (hnumber t more ht)
    refine ht.grow hpiece hcontinues (.refl false) hframes hplain ?_ hprevious ?_ ?_ ?_
    · rw [hframes, ← ht.frames]
      exact ht.sound.nested
    · rw [hpiece.raw]
      exact (hnumber t more ht).ne_nil
    · rintro (hne | he) hbare
      · exact absurd hbare hne
      · cases he
    · intro hbare
      have hframes' : s.frames = [] := hbare
      rw [hframes'] at hraw hsafe
      rw [hraw, hsafe.write_of_nil, getLast?_singleQuote]
      exact ⟨_, rfl, rfl⟩
  have hfollows : Follows strict b scope (fun _ ↦ True) { s with piece := {}, previous := .word }
      (tokens ++ (s.flush.2.map Lexeme.token ++ [.piece p])) := by
    have hline : ({ s with piece := {}, previous := .word } : Scanner).line b
        (tokens ++ (s.flush.2.map Lexeme.token ++ [.piece p])) = s.line b tokens ++ p.raw := by
      rw [line_of_flushed b _ rfl, ← List.append_assoc, written_piece, written_flush]
    cases hwrite : p.raw with
    | nil =>
        -- Nothing is written, so nothing can have been left undecided.
        rw [hwrite, List.append_nil] at hline
        refine (h.weaken fun c _ ↦ hnone (by rw [← hraw, hwrite]) c).keep hline fun t more ht ↦ ?_
        exact hgrow ht (hwrite ▸ .refl b t more) ht.frames ht.mode rfl
    | cons c rest =>
        have hc : next c := hfirst c (by rw [← hraw, hwrite]; rfl)
        refine h.extend c rest hc (hwrite ▸ hline) fun t more ht ↦ ?_
        obtain ⟨text', t', hreads, hgrown⟩ := hsafe.grows ht.frames ht.mode text
        rw [← hraw] at hreads hgrown
        have haligned := hgrow ht (hgrown.continues (by simp [hwrite]) b more) hgrown.frames
          hgrown.mode hgrown.previous
        exact ⟨t', [], hwrite ▸ hreads, by simpa using haligned.alignedFor _⟩
  refine keeps_of_plain hmode hfollows (fun _ hprevious ↦ absurd rfl hprevious) fun _ hword ↦ ?_
  rw [← List.append_assoc, assembly_append] at hword
  cases hword

section Filling

variable {options : FillOptions} {values : List Value} {own : List Token} {index : Nat}

/-- What a text in a hole adds to the tokens, seen from the backticks around it. -/
theorem fill_emitHole (hempty : s.piece.raw = [] → s.piece = {}) (hb : scope.backticks = b)
    (hholds : HoldsText values index) {quoting : Quoting}
    (hfill : fill options values
      ((s.emitHole index quoting (scope.enclosing s.frames)).2.map (Lexeme.lower b)) = .ok own) :
    Value.unsafeContext? quoting (scope.enclosing s.frames) = none ∧
      ∃ text p, p.raw = quoting.write text ∧ p.expands = false ∧
        own = s.flush.2.map Lexeme.token ++ [.piece p] := by
  rw [emitHole_eq hempty] at hfill
  obtain ⟨own, hown, rfl⟩ := Filled.flush.fill_front_lower_iff.1 hfill
  obtain ⟨value, hole, none, hvalue, hhole, hnone, rfl⟩ := fill_hole_eq_ok_iff.1 hown
  cases hnone
  obtain ⟨text, htext⟩ := Option.isSome_iff_exists.1 (hholds value hvalue)
  rw [fillHole_of_text htext] at hhole
  rw [unsafeContext?_lower] at hhole
  split at hhole
  · cases hhole
  · rename_i hsafe
    cases hhole
    refine ⟨hsafe, text, _, ?_, rfl, rfl⟩
    have hlevels : ((scope.enclosing s.frames).lower b).backticks = 0 := by
      simp [Enclosing.lower, Scope.enclosing, hb]
    rw [literalPiece, hlevels]
    rfl

theorem Follows.readHole {next : Char → Prop} (h : Follows strict b scope next s tokens)
    (hs : s.Sound) (hmode : s.mode = .plain) (herase : s.erase = s) (hb : scope.backticks = b)
    (hvalues : ∀ value ∈ values, value.literalText?.isSome = true)
    (hfirst : ∀ text, ∀ c ∈ ((scope.quoting s.frames).write text).head?, next c)
    (hnone : ∀ text, (scope.quoting s.frames).write text = [] → ∀ c, next c)
    (hfill : fill options values ((s.readHole scope index).2.map (Lexeme.lower b)) = .ok own) :
    Keeps strict b scope (s.readHole scope index).1 (tokens ++ own) := by
  have hempty := hs.piece_empty hmode
  obtain ⟨hrefused, text, p, hraw, hexpands, rfl⟩ := fill_emitHole hempty hb
    (holdsText_of_texts hvalues index) hfill
  have hkeeps := h.readValue hs hmode (hs.safe herase hrefused) (hfirst text) (hnone text) hraw
    hexpands
  rwa [Scanner.readHole, emitHole_eq hempty]

theorem erase_escapeDollar (h : s.erase = s) :
    ((s.inMode .plain).push scope ['\\', '$'] ['$']).erase =
      (s.inMode .plain).push scope ['\\', '$'] ['$'] := by
  rw [erase_push, erase_inMode, h]
  rfl

theorem erase_emitPending (h : s.erase = s) (pending : Operator) :
    ((s.inMode .plain).emitOperator pending).1.erase =
      ((s.inMode .plain).emitOperator pending).1 := by
  have hsame := @erase_emitOperator (s.inMode .plain) pending
  rw [erase_inMode, h] at hsame
  exact (congrArg Prod.fst hsame).symm

theorem Keeps.escapeDollar (h : Keeps strict b scope s tokens) (hs : s.Sound) {opened : Nat}
    (hmode : s.mode = .dollar opened) (hlast : strict → s.piece.raw.getLast? ≠ some '$') :
    Follows strict b scope (fun _ ↦ True) ((s.inMode .plain).push scope ['\\', '$'] ['$'])
      tokens := by
  have hnext : nextChar strict s '\\' := by
    unfold nextChar
    rw [hmode]
    exact .inr ⟨rfl, hlast⟩
  have hcontinues : Continues b s tokens ((s.inMode .plain).push scope ['\\', '$'] ['$']) tokens
      ['\\', '$'] false :=
    continues_of_raw b tokens rfl rfl (Bool.or_false _).symm fun _ hnil ↦ by simp [push] at hnil
  refine h.follows.extend '\\' ['$'] hnext hcontinues.line fun t more ht ↦ ?_
  have hsingle : t.inSingle = false := by
    rw [inSingle_of_frames ht.frames]
    exact hs.dollar opened hmode
  obtain ⟨t', hreads, hgrown⟩ : Grows scope t ['\\', '$'] ['$'] t.frames :=
    grows_escaped ht.mode hsingle (by decide) (.inl rfl)
  have haligned := ht.grow hcontinues (hgrown.continues (by simp) b more) (.refl false)
    (hgrown.frames.trans ht.frames) hgrown.mode (hgrown.frames ▸ ht.sound.nested) hgrown.previous
    (by simp [Assembly.wordWith, Word.push, push]) (fun _ _ ↦ ⟨'$', by simp, rfl⟩)
    fun _ ↦ ⟨'$', rfl, rfl⟩
  exact ⟨t', [], hreads, by simpa using haligned.alignedFor _⟩

theorem Keeps.stepHole (h : Keeps strict b scope s tokens) (hs : s.Sound) (herase : s.erase = s)
    (hb : scope.backticks = b) (hvalues : ∀ value ∈ values, value.literalText?.isSome = true)
    (hlast : strict → (∃ opened, s.mode = .dollar opened) → s.piece.raw.getLast? ≠ some '$')
    (hfill : fill options values ((s.stepHole scope index).2.map (Lexeme.lower b)) = .ok own) :
    Keeps strict b scope (s.stepHole scope index).1 (tokens ++ own) := by
  have hmove : HoleMove scope index s (s.stepHole scope index) := stepHole_holeMove
  generalize s.stepHole scope index = step at hmove hfill
  cases hmove with
  | comment _ =>
      cases hfill
      rwa [List.append_nil]
  | escaped hmode => exact absurd hmode h.unescaped
  | plain hmode =>
      have hfollows := h.follows
      rw [nextChar, hmode] at hfollows
      exact hfollows.readHole hs hmode herase hb hvalues (fun _ _ _ ↦ trivial)
        (fun _ _ _ ↦ trivial) hfill
  | dollar opened hmode =>
      have hfollows := h.escapeDollar hs hmode fun hstrict ↦ hlast hstrict ⟨opened, hmode⟩
      have hsound : ((s.inMode .plain).push scope ['\\', '$'] ['$']).Sound :=
        sound_of_pushed rfl hs.nested (by simp [push])
      exact hfollows.readHole hsound rfl (erase_escapeDollar herase) hb hvalues
        (fun _ _ _ ↦ trivial) (fun _ _ _ ↦ trivial) hfill
  | operator pending hpending =>
      have hbare := hs.bare_of_pending hpending
      have hsettled := hs.settled (ne_escape_of_pending hpending)
      have hempty := hsettled.piece_empty rfl
      obtain ⟨hsound, hplain⟩ := hsettled.emitOperator rfl hbare pending
      have hframes : ((s.inMode .plain).emitOperator pending).1.frames = [] := by
        rw [emitOperator_eq hempty]
        exact hbare
      have hquote : ∀ text, (scope.quoting ((s.inMode .plain).emitOperator pending).1.frames).write
          text = singleQuote text := by
        intro text
        rw [hframes]
        unfold Scope.quoting
        dsimp only
        split_ifs <;> rfl
      obtain ⟨more, hmore, rfl⟩ := (Filled.emitOperator pending).fill_front_lower_iff.1 hfill
      have hkeeps := (h.settle_pending hs hpending).readHole hsound hplain
        (erase_emitPending herase pending) hb hvalues (fun text c hc ↦ ?_)
        (fun text hnil ↦ ?_) hmore
      · simpa using hkeeps
      · rw [hquote, head_singleQuote] at hc
        cases hc
        unfold Mode.completed?
        split <;> rfl
      · rw [hquote] at hnil
        cases hnil

end Filling

end Scanner

end ShellTemplate
