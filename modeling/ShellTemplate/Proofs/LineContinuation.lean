import ShellTemplate.Proofs.Lexeme.Continuation
import ShellTemplate.Proofs.StagesAlike
import ShellTemplate.Proofs.Words

/-!
# Line continuations

A backslash before a newline joins two lines. Within a word, and before one, the command is the
same as without it. Elsewhere it makes a word of its own, which is empty behind quote removal.
-/

namespace ShellTemplate

open Scanner

/-- The shell text of the word that the last of these lexemes is a part of. -/
def goingOn (lexemes : List Lexeme) : List Char :=
  match lexemes.getLast? with
  | some ⟨.piece p, _, _⟩ => p.raw
  | _ => []

/-- The text ends in a dollar sign that may still open a construct. -/
def EndsInDollar (text : List Char) : Prop :=
  ∃ out opened, scan {} {} (charItems text) = .ok out ∧ out.1.mode = .dollar opened

section Scanning

variable {scope : Scope} {s : Scanner}

theorem goingOn_flush (lexemes : List Lexeme)
    (h : s.piece.raw = [] → Previous.boundary.after lexemes ≠ .word) :
    goingOn (lexemes ++ s.flush.2) = s.piece.raw := by
  unfold goingOn flush
  split_ifs with hraw
  · rw [List.append_nil, hraw]
    have hprevious := h hraw
    unfold Previous.after at hprevious
    split
    · rename_i hlast
      simp [hlast, Token.previous] at hprevious
    · rfl
  · rw [List.getLast?_append]
    rfl

/-- A scanner that has read a line continuation with nothing undecided before it. -/
def Scanner.continued (scope : Scope) (s : Scanner) : Scanner :=
  (s.readBackslash scope).readEscaped scope '\n'

theorem continued_continued (hplain : s.mode = .plain) (hframes : s.frames = []) :
    s.Continued (s.continued scope) where
  frames := rfl
  mode := hplain.symm
  previous := rfl
  text := by simp [Scanner.continued, readBackslash, readEscaped, pushSyntax, push, Scanner.inMode]
  expands := rfl
  plain := hplain
  bare := hframes
  continued := ⟨'\n', by simp [Scanner.continued, readBackslash, readEscaped, push, Scanner.inMode],
    rfl⟩

theorem sound_continued (hs : s.Sound) (hplain : s.mode = .plain) (hframes : s.frames = []) :
    (s.continued scope).Sound := by
  have hbackslash := @Sound.stepChar scope s hs '\\' 0
  rw [stepChar_of_plain hplain, readChar_backslash (by simp [inSingle, hframes])] at hbackslash
  exact @Sound.stepChar scope _ hbackslash '\n' 0

/-- Up to the newline behind the backslash. -/
theorem scanRest_continuation (hs : s.Sound) (hframes : s.frames = [])
    (hcomment : s.mode ≠ .comment) (hescape : s.mode ≠ .escape) (behind : List Char) :
    scanRest scope s (charItems ('\\' :: '\n' :: behind)) =
      (scanRest scope ((s.settle scope).1.continued scope) (charItems behind)).map
        ((s.settle scope).2 ++ ·) := by
  have hnone : s.complete? scope '\\' = none := by
    unfold complete?
    split <;> simp_all
  have hsettled := settleBefore_settlement hnone
  have hplain := (hs.settlement hsettled).2
  have hsingle : (s.settleBefore scope '\\').1.inSingle = false := by
    simp [inSingle, hsettled.frames, hframes]
  have hreads := (reads_escaped '\n' hplain hsingle).of_settled hnone hplain behind
  rw [settleBefore_eq_settle rfl] at hreads
  change scan scope s _ = (scan scope ((s.settle scope).1.continued scope) _).map
    (Step.before ((s.settle scope).before (_, []))) at hreads
  rw [List.cons_append, List.cons_append, List.nil_append] at hreads
  rw [scanRest_of_map hreads, Step.before, List.append_nil]

/-- What is undecided at the end of a text is decided before what follows. -/
theorem scanRest_settle (hs : s.Sound) (hframes : s.frames = []) (hcomment : s.mode ≠ .comment)
    (hescape : s.mode ≠ .escape) {behind : List Char}
    (hbehind : ∀ c ∈ behind.head?,
      s.complete? scope c = none ∧ s.settleBefore scope c = s.settle scope) :
    scanRest scope s (charItems behind) =
      (scanRest scope (s.settle scope).1 (charItems behind)).map ((s.settle scope).2 ++ ·) := by
  have hsettled := @settle_settlement scope s hcomment hescape
  have hplain := (hs.settlement hsettled).2
  cases behind with
  | nil =>
      have hfinish := (@finish_eq_ok_iff scope s _).2 ⟨hframes, hescape, rfl⟩
      have hfinish' := (@finish_eq_ok_iff scope (s.settle scope).1 _).2
        ⟨hsettled.frames.trans hframes, by simp [hplain], rfl⟩
      rw [charItems_nil, scanRest_nil, scanRest_nil, hfinish, hfinish', settle_of_plain hplain]
      rfl
  | cons c rest =>
      obtain ⟨hnone, hsettle⟩ := hbehind c rfl
      rw [← hsettle] at hplain ⊢
      exact scanRest_of_map (scan_settled hnone hplain 0 _)

/-- A dollar sign is kept, whether the continuation or a character behind it decides it. -/
theorem kindred_continued_dollar (hframes : s.frames = []) {opened : Nat}
    (hmode : s.mode = .dollar opened) (c : Char) :
    (s.settleBefore scope c).1.Kindred .sameText ((s.settle scope).1.continued scope) := by
  have hdollar : NotDigits ['$'] := ⟨'$', by simp, rfl⟩
  have hbefore : (s.settleBefore scope c).1 = if startsExpansion c
      then ((s.inMode .plain).pushChar scope '$').markExpands
      else (s.inMode .plain).pushChar scope '$' := by simp [settleBefore, hmode]
  have hsettle : (s.settle scope).1 = (s.inMode .plain).pushChar scope '$' := by
    simp [settle, hmode]
  have hcontinued := @continued_continued scope ((s.inMode .plain).pushChar scope '$') rfl hframes
  have hraw : (s.settleBefore scope c).1.piece.raw = s.piece.raw ++ ['$'] := by
    rw [hbefore]
    split_ifs <;> rfl
  have htext : (s.settleBefore scope c).1.piece.text = s.piece.text ++ ['$'] := by
    rw [hbefore]
    split_ifs <;> rfl
  rw [hsettle]
  refine ⟨?_, hcontinued.mode.trans ?_, ?_, ⟨⟨hcontinued.text.trans htext.symm, .inr ?_⟩,
    .inr ⟨?_, hcontinued.continued⟩⟩⟩
  · rw [hbefore]
    split_ifs <;> rfl
  · rw [hbefore]
    split_ifs <;> rfl
  · rw [hbefore]
    split_ifs <;> rfl
  · rw [htext]
    exact hdollar.append_right _
  · rw [hraw]
    exact hdollar.append_right _

/-- Behind a dollar sign the continuation only keeps it from being an expansion. -/
theorem scanRest_dollar_continuation (hs : s.Sound) (hframes : s.frames = []) {opened : Nat}
    (hmode : s.mode = .dollar opened) {c : Char} {rest : List Char}
    (hnone : s.complete? scope c = none) :
    AlikeRest (scanRest scope s (charItems (c :: rest)))
      ((scanRest scope ((s.settle scope).1.continued scope) (charItems (c :: rest))).map
        ((s.settle scope).2 ++ ·)) := by
  obtain ⟨hsound, hplain⟩ := hs.settlement (settleBefore_settlement hnone)
  have hsilent : (s.settleBefore scope c).2 = [] := by simp [settleBefore, hmode]
  have hsilent' : (s.settle scope).2 = [] := by simp [settle, hmode]
  have hkin := @kindred_continued_dollar scope s hframes opened hmode c
  rw [charItems_cons, scanRest_of_map (scan_settled hnone hplain 0 _), hsilent, hsilent',
    map_nil_append, map_nil_append]
  exact (hkin.scanRest hsound (Kinship.sameText.admits_charItems (c :: rest))).imp_ok
    fun _ _ _ hlexemes ↦ .of_kindred hlexemes

theorem completes_nothing (hcomment : s.mode ≠ .comment) (hescape : s.mode ≠ .escape)
    (hdollar : ∀ opened, s.mode ≠ .dollar opened) {c : Char}
    (hc : ∀ pending, s.mode.pending? = some pending → c ∉ delimiters) :
    s.complete? scope c = none ∧ s.settleBefore scope c = s.settle scope := by
  constructor
  · refine Option.eq_none_iff_forall_ne_some.2 fun step hstep ↦ ?_
    cases complete_completion hstep with
    | commentOn hmode | commentEnd hmode => exact hcomment hmode
    | escaped hmode => exact hescape hmode
    | openParameter opened hmode | openSubstitution opened hmode => exact hdollar opened hmode
    | operator pending op hmode hcontinues =>
        exact hc pending hmode (continuations_subset hcontinues)
  · unfold settleBefore
    cases hmode : s.mode with
    | dollar opened => exact absurd hmode (hdollar opened)
    | _ => rfl

/-- A line continuation is read over where it joins what is before it to what is behind it. -/
theorem alikeRest_continuation {u v : List Char} {lexemes : List Lexeme}
    (hu : lexemesOfText u = .ok lexemes) (hhash : '#' ∉ u) (hjoins : Joins (goingOn lexemes) v)
    (hdollar : EndsInDollar u → ∀ c ∈ v.head?, c ≠ '(' ∧ c ≠ '\x7b') :
    AlikeRest (scanAll {} (charItems (u ++ v)))
      (scanAll {} (charItems (u ++ '\\' :: '\n' :: v))) := by
  obtain ⟨out, hscan, hs, hframes, hescape, rfl⟩ := exists_scan_of_lexemesOfText hu
  have hcomment := mode_ne_comment_of_scan hhash hscan
  have hsettled := @settle_settlement {} out.1 hcomment hescape
  obtain ⟨hsound, hplain⟩ := hs.settlement hsettled
  have hword : goingOn (out.2 ++ ((out.1.settle {}).andThen Scanner.flush).2) =
      (out.1.settle {}).1.piece.raw := by
    have hrun := scans_of_scan hscan
    have hremembers := hrun.remembers.before (.settlement hsettled)
    have hfilled := Filled.append_iff.2 ⟨hrun.filled (plain_charItems u), .settlement hsettled⟩
    rw [Step.andThen_snd, ← List.append_assoc]
    refine goingOn_flush _ fun _ hlast ↦ ?_
    exact hremembers.word hfilled (by simp) (hremembers.previous.trans hlast)
  rw [scanAll_eq_scanRest, scanAll_eq_scanRest, charItems_append, charItems_append,
    scanRest_append hscan, scanRest_append hscan]
  refine SameOutcome.map ?_ fun _ _ hrest ↦ (SameTexts.refl out.2).append hrest
  rw [scanRest_continuation hs hframes hcomment hescape]
  rw [hword] at hjoins
  -- only a dollar sign is decided in one way by the backslash and in another by what is behind it
  by_cases hlive : ∃ opened c rest, out.1.mode = .dollar opened ∧ v = c :: rest
  · obtain ⟨opened, c, rest, hmode, rfl⟩ := hlive
    obtain ⟨hparen, hbrace⟩ := hdollar ⟨out, opened, hscan, hmode⟩ c rfl
    exact scanRest_dollar_continuation hs hframes hmode (by simp [complete?, hmode, hparen, hbrace])
  · have hbehind : ∀ c ∈ v.head?, out.1.complete? {} c = none ∧
        out.1.settleBefore {} c = out.1.settle {} := by
      intro c hc
      obtain ⟨rest, rfl⟩ : ∃ rest, v = c :: rest := by
        cases v with
        | nil => cases hc
        | cons d rest => exact ⟨rest, by cases hc; rfl⟩
      refine completes_nothing hcomment hescape
        (fun opened hmode ↦ hlive ⟨opened, c, rest, hmode, rfl⟩) fun pending hpending ↦ ?_
      have hraw : (out.1.settle {}).1.piece.raw = [] := by
        rw [← settleBefore_blank, settleBefore_of_pending hpending,
          emitOperator_eq ((hs.settled hescape).piece_empty rfl)]
      obtain ⟨d, hd, hne, -⟩ := hjoins.present.resolve_left fun hne ↦ hne hraw
      cases hd
      exact hne
    rw [scanRest_settle hs hframes hcomment hescape hbehind]
    refine SameOutcome.map ?_ fun _ _ hrest ↦ (SameTexts.refl _).append hrest
    have hcontinued := @continued_continued {} _ hplain (hsettled.frames.trans hframes)
    exact hcontinued.scanRest hsound
      (sound_continued hsound hplain (hsettled.frames.trans hframes)) hjoins

end Scanning

/-- The same value; whether it is expanded may differ where it is no number. -/
structure Word.SameValue (w w' : Word) : Prop where
  value : w'.value = w.value
  expands : w'.expands = w.expands ∨ NotDigits w.value

theorem Word.SameValue.push {w w' : Word} (h : w.SameValue w') {p p' : Piece}
    (hpiece : p.SameText p') : (w.push p).SameValue (w'.push p') where
  value := by simp only [Word.push, h.value, hpiece.text]
  expands := by
    rcases h.expands with hword | hword
    · refine hpiece.expands.imp (fun hexpands ↦ ?_) fun hdigits ↦ hdigits.append_right _
      simp only [Word.push, hword, hexpands]
    · exact .inr (hword.append_left _)

theorem Word.SameValue.sameNumber {w w' : Word} (h : w.SameValue w') : w.SameNumber w' where
  value := h.value.symm
  duplicated := by
    unfold duplicated?
    rw [h.value]
    rcases h.expands with hexpands | hdigits
    · rw [hexpands]
    · rw [hdigits.readDescriptor?, ite_self, ite_self]

section Parsing

theorem partOfWord_sameValue {word word' : Option Word}
    (h : Option.Rel Word.SameValue word word') :
    List.Forall₂ (Part.Alike Word.SameValue) (partOfWord word) (partOfWord word') := by
  cases h with
  | none => exact .nil
  | some hword => exact .cons (.word hword) .nil

theorem assembleFrom_sameText {tokens tokens' : List Token}
    (h : List.Forall₂ Token.SameText tokens tokens') {word word' : Option Word}
    (hword : Option.Rel Word.SameValue word word') :
    SameOutcome (List.Forall₂ (Part.Alike Word.SameValue)) (assembleFrom word tokens)
      (assembleFrom word' tokens') := by
  induction h generalizing word word' with
  | nil => exact .ok (partOfWord_sameValue hword)
  | cons htoken _ ih =>
      cases htoken with
      | piece hpiece =>
          refine ih (.some (Word.SameValue.push ?_ hpiece))
          cases hword with
          | none => exact ⟨rfl, .inl rfl⟩
          | some hword => exact hword
      | operator op =>
          exact (ih .none).map fun _ _ hmore ↦
            List.rel_append (partOfWord_sameValue hword) (.cons (.operator op) hmore)
      | blank =>
          exact (ih .none).map fun _ _ hmore ↦ List.rel_append (partOfWord_sameValue hword) hmore
      | hole index => exact .error _

/-- The commands of both pipelines have the same words and the same redirections. -/
abbrev Pipeline.SameValues (p p' : Pipeline) : Prop :=
  List.Forall₂ (Stage.Alike fun w w' ↦ w'.value = w.value) p.stages p'.stages

theorem parse_sameText {tokens tokens' : List Token}
    (h : List.Forall₂ Token.SameText tokens tokens') :
    SameOutcome Pipeline.SameValues (parse tokens) (parse tokens') := by
  refine (assembleFrom_sameText h .none).bind fun parts parts' hparts ↦ ?_
  have halike : PartialPipeline.PartsAlike (fun w w' ↦ w'.value = w.value) parts parts' := by
    refine ⟨hparts.imp fun _ _ hpart ↦ ?_, fun r w w' _ hpair ↦ ?_⟩
    · cases hpart with
      | word hword => exact .word hword.value
      | operator op => exact .operator op
    · have hmem : (Part.word w, Part.word w') ∈ parts.zip parts' := hpair.subset (by simp)
      cases List.forall₂_zip hparts hmem with
      | word hword => exact hword.sameNumber
  exact (stagesOfParts_alike halike).map fun _ _ hstages ↦ hstages

end Parsing

section Compiling

variable {text : List Char}

theorem compile_ofText_of_scanAll {lexemes : List Lexeme}
    (h : scanAll {} (charItems text) = .ok lexemes) (options : FillOptions) :
    (Template.ofText text).compile options =
      (parse (lexemes.map Lexeme.token)).mapError .parse :=
  Template.compile_of_fill (lexemesOfText_eq_ok_iff.2 h) (fill_of_not_hole (filled_of_scanAll h))

theorem toOption_compile_of_scanAll_error {e : LexError}
    (h : scanAll {} (charItems text) = .error e) (options : FillOptions) :
    ((Template.ofText text).compile options).toOption = none := by
  cases hcompile : (Template.ofText text).compile options with
  | error e' => rfl
  | ok p =>
      obtain ⟨lexemes, -, hlex, -⟩ := compile_eq_ok_iff.1 hcompile
      have hscan := lexemesOfText_eq_ok_iff.1 hlex
      rw [h] at hscan
      cases hscan

/-- A line continuation leaves a command as it is where a word goes on or starts behind it, no
number of a redirection is cut, and no dollar sign is parted from what it would open. -/
theorem compile_lineContinuation {u v : List Char} {lexemes : List Lexeme}
    (hu : lexemesOfText u = .ok lexemes) (hhash : '#' ∉ u) (hjoins : Joins (goingOn lexemes) v)
    (hdollar : EndsInDollar u → ∀ c ∈ v.head?, c ≠ '(' ∧ c ≠ '\x7b') (options : FillOptions) :
    Option.Rel Pipeline.SameValues ((Template.ofText (u ++ v)).compile options).toOption
      ((Template.ofText (u ++ '\\' :: '\n' :: v)).compile options).toOption := by
  have halike := alikeRest_continuation hu hhash hjoins hdollar
  generalize hscan : scanAll {} (charItems (u ++ v)) = scanned at halike
  generalize hscan' : scanAll {} (charItems (u ++ '\\' :: '\n' :: v)) = scanned' at halike
  cases halike with
  | error e =>
      rw [toOption_compile_of_scanAll_error hscan, toOption_compile_of_scanAll_error hscan']
      exact .none
  | ok hlexemes =>
      rw [compile_ofText_of_scanAll hscan, compile_ofText_of_scanAll hscan']
      have hparsed := parse_sameText hlexemes
      generalize parse _ = parsed at hparsed ⊢
      generalize parse _ = parsed' at hparsed ⊢
      cases hparsed with
      | ok hvalues => exact .some hvalues
      | error e => exact .none

theorem compile_lineContinuation_fileName :
    ∃ lexemes, lexemesOfText "sort file".toList = .ok lexemes ∧ '#' ∉ "sort file".toList ∧
      Joins (goingOn lexemes) "s 2>>log | uniq".toList ∧
      (EndsInDollar "sort file".toList →
        ∀ c ∈ "s 2>>log | uniq".toList.head?, c ≠ '(' ∧ c ≠ '\x7b') ∧
      Option.Rel Pipeline.SameValues
        ((Template.ofText ("sort file".toList ++ "s 2>>log | uniq".toList)).compile {}).toOption
        ((Template.ofText ("sort file".toList ++
          '\\' :: '\n' :: "s 2>>log | uniq".toList)).compile {}).toOption := by
  have hgoing : (lexemesOfText "sort file".toList).map goingOn = .ok "file".toList := by
    decide +kernel
  obtain ⟨lexemes, hlexemes, hword⟩ := map_eq_ok_iff.1 hgoing
  have hhash : '#' ∉ "sort file".toList := by decide +kernel
  have hletters : NotDigits "file".toList := ⟨'f', by decide +kernel, rfl⟩
  have hjoins : Joins (goingOn lexemes) "s 2>>log | uniq".toList := by
    rw [hword]
    exact ⟨.inl hletters.ne_nil, fun digits _ _ _ _ ↦ (hletters.append_left digits).readDescriptor?⟩
  have hhead : "s 2>>log | uniq".toList.head? = some 's' := by decide +kernel
  have hdollar : ∀ c ∈ "s 2>>log | uniq".toList.head?, c ≠ '(' ∧ c ≠ '\x7b' := by
    intro c hc
    rw [hhead] at hc
    cases hc
    decide
  exact ⟨lexemes, hlexemes, hhash, hjoins, fun _ ↦ hdollar,
    compile_lineContinuation hlexemes hhash hjoins (fun _ ↦ hdollar) {}⟩

/-- Between blanks a line continuation is an empty word. -/
theorem continuation_between_blanks :
    (∃ lexemes, lexemesOfText "echo a ".toList = .ok lexemes) ∧ '#' ∉ "echo a ".toList ∧
      ((Template.ofText ("echo a ".toList ++ "  b".toList)).compile {}).map
        (fun p ↦ p.stages.map fun stage ↦ stage.argv.map Word.value) =
          .ok [["echo".toList, ['a'], ['b']]] ∧
      ((Template.ofText ("echo a ".toList ++ '\\' :: '\n' :: "  b".toList)).compile {}).map
        (fun p ↦ p.stages.map fun stage ↦ stage.argv.map Word.value) =
          .ok [["echo".toList, ['a'], [], ['b']]] := by
  refine ⟨?_, by decide +kernel, by decide +kernel, by decide +kernel⟩
  have hlexemes : (lexemesOfText "echo a ".toList).map (fun _ ↦ ()) = .ok () := by decide +kernel
  exact (map_eq_ok_iff.1 hlexemes).imp fun _ h ↦ h.1

end Compiling

end ShellTemplate
