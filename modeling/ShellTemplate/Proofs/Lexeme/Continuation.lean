import ShellTemplate.Proofs.Lexeme.Ends
import ShellTemplate.Proofs.Lexeme.Kindred
import ShellTemplate.Proofs.Lexeme.Pending
import ShellTemplate.Proofs.Verbatim.Tokens

/-!
# Behind a line continuation

A backslash before a newline adds both to the shell text of the piece that is being read, and
nothing to its text behind quote removal. A scanner that has read them reads on like one that has
not, unless there was no piece and none is going on, or the piece is the number of a redirection.
-/

namespace ShellTemplate

/-- The same text behind quote removal; whether it is expanded may differ where it is no number. -/
structure Piece.SameText (p p' : Piece) : Prop where
  text : p'.text = p.text
  expands : p'.expands = p.expands ∨ NotDigits p.text

theorem Piece.SameText.append {p p' : Piece} (h : p.SameText p') (q : Piece) :
    (p.append q).SameText (p'.append q) where
  text := congrArg (· ++ q.text) h.text
  expands := h.expands.imp (congrArg (· || q.expands)) (NotDigits.append_left · q.text)

/-- Pieces with the same text that are no descriptor numbers, unless they are the same. -/
def Kinship.sameText : Kinship where
  Kin p p' := p.SameText p' ∧ (p' = p ∨ NotDigits p.raw ∧ NotDigits p'.raw)
  empty := ⟨⟨rfl, .inl rfl⟩, .inl rfl⟩
  append h q := ⟨h.1.append q, h.2.imp (congrArg (Piece.append · q)) fun hraw ↦
    ⟨hraw.1.append_left q.raw, hraw.2.append_left q.raw⟩⟩
  nil_iff := by
    rintro p p' ⟨-, rfl | ⟨hraw, hraw'⟩⟩
    · exact Iff.rfl
    · exact iff_of_false hraw'.ne_nil hraw.ne_nil
  descriptor := by
    rintro p p' ⟨-, rfl | ⟨hraw, hraw'⟩⟩
    · rfl
    · rw [Piece.descriptor?_of_notDigits hraw, Piece.descriptor?_of_notDigits hraw']
  holes := False
  dropLast := False.elim

/-- The same token up to the spelling of a piece. -/
inductive Token.SameText : Token → Token → Prop
  | piece {p p' : Piece} (h : p.SameText p') : SameText (.piece p) (.piece p')
  | operator (op : Operator) : SameText (.operator op) (.operator op)
  | blank : SameText .blank .blank
  | hole (index : Nat) : SameText (.hole index) (.hole index)

def SameTexts (lexemes lexemes' : List Lexeme) : Prop :=
  List.Forall₂ Token.SameText (lexemes.map Lexeme.token) (lexemes'.map Lexeme.token)

theorem SameTexts.refl (lexemes : List Lexeme) : SameTexts lexemes lexemes := by
  refine List.forall₂_same.2 fun token _ ↦ ?_
  cases token with
  | piece p => exact .piece ⟨rfl, .inl rfl⟩
  | operator op => exact .operator op
  | blank => exact .blank
  | hole index => exact .hole index

theorem SameTexts.append {lexemes lexemes' more more' : List Lexeme}
    (h : SameTexts lexemes lexemes') (hmore : SameTexts more more') :
    SameTexts (lexemes ++ more) (lexemes' ++ more') := by
  unfold SameTexts
  rw [List.map_append, List.map_append]
  exact List.rel_append h hmore

theorem SameTexts.of_kindred {lexemes lexemes' : List Lexeme}
    (h : List.Forall₂ (Lexeme.Kindred .sameText) lexemes lexemes') :
    SameTexts lexemes lexemes' := by
  refine List.forall₂_map_left_iff.2 (List.forall₂_map_right_iff.2 (h.imp fun _ _ hkin ↦ ?_))
  cases hkin with
  | piece kin => exact .piece kin.1
  | operator op => exact .operator op
  | blank => exact .blank
  | hole holes => exact holes.elim

/-- Both texts are well formed up to the end with the same tokens, or neither is. -/
abbrev AlikeRest : Except LexError (List Lexeme) → Except LexError (List Lexeme) → Prop :=
  SameOutcome SameTexts

/-- The steps leave the scanners in the same place and complete the same tokens. -/
structure Step.Alike (step step' : Step) : Prop where
  scanner : step.1.Kindred .sameText step'.1
  lexemes : SameTexts step.2 step'.2

namespace Step.Alike

open Scanner

variable {scope : Scope} {step step' : Step}

theorem of_kindred (h : Step.Kindred .sameText step step') : Step.Alike step step' :=
  ⟨h.scanner, .of_kindred h.lexemes⟩

theorem andThen {next next' : Scanner → Step} (h : Step.Alike step step')
    (hnext : ∀ t t', t.Kindred .sameText t' → Step.Kindred .sameText (next t) (next' t')) :
    Step.Alike (step.andThen next) (step'.andThen next') where
  scanner := (hnext _ _ h.scanner).scanner
  lexemes := h.lexemes.append (.of_kindred (hnext _ _ h.scanner).lexemes)

theorem scanRest (h : Step.Alike step step') (hs : step.1.Sound) {items : List Item}
    (hitems : Kinship.sameText.Admits items) :
    AlikeRest ((scanRest scope step.1 items).map (step.2 ++ ·))
      ((ShellTemplate.scanRest scope step'.1 items).map (step'.2 ++ ·)) :=
  (h.scanner.scanRest hs hitems).map fun _ _ hrest ↦ h.lexemes.append (.of_kindred hrest)

end Step.Alike

namespace Scanner

variable {scope : Scope} {t t' : Scanner}

/-- The pieces have the same text; one of them may be spelt in another way. -/
structure Respelt (t t' : Scanner) : Prop where
  frames : t'.frames = t.frames
  mode : t'.mode = t.mode
  previous : t'.previous = t.previous
  text : t'.piece.text = t.piece.text
  expands : t'.piece.expands = t.piece.expands

namespace Respelt

theorem inMode (h : t.Respelt t') (mode : Mode) : (t.inMode mode).Respelt (t'.inMode mode) :=
  ⟨h.frames, rfl, h.previous, h.text, h.expands⟩

/-- Once more than digits are added, the spelling does not matter any more. -/
theorem push (h : t.Respelt t') {raw : List Char} (hraw : NotDigits raw) (text : List Char) :
    (t.push scope raw text).Kindred .sameText (t'.push scope raw text) where
  frames := h.frames
  mode := h.mode
  previous := h.previous
  kin := ⟨⟨congrArg (· ++ text) h.text, .inl h.expands⟩,
    .inr ⟨hraw.append_right _, hraw.append_right _⟩⟩

section Complete

variable (h : t.Respelt t') (hraw : t.piece.raw ≠ []) (hraw' : t'.piece.raw ≠ [])

include h hraw hraw'

theorem flush : Step.Alike t.flush t'.flush := by
  unfold Scanner.flush
  rw [if_neg hraw, if_neg hraw']
  exact ⟨⟨h.frames, h.mode, rfl, Kinship.sameText.empty⟩,
    .cons (.piece ⟨h.text, .inl h.expands⟩) .nil⟩

theorem emitOperator (op : Operator) : Step.Alike (t.emitOperator op) (t'.emitOperator op) :=
  (h.flush hraw hraw').andThen fun _ _ h ↦ ⟨h.withPrevious .boundary, .cons (.operator op) .nil⟩

theorem emitBlank : Step.Alike t.emitBlank t'.emitBlank := by
  refine (h.flush hraw hraw').andThen fun u u' h ↦ ?_
  rw [h.previous]
  split_ifs
  · exact h.silent
  · exact ⟨h.withPrevious .blank, .cons .blank .nil⟩

end Complete

/-- What is undecided is decided alike by whatever follows. -/
theorem scanRest_undecided (h : t.Respelt t') (hs : t.Sound) (hs' : t'.Sound)
    (hframes : t.frames = []) (hescape : t.mode ≠ .escape)
    (hcomplete : ∀ c, Option.Rel Step.Alike (t.complete? scope c) (t'.complete? scope c))
    (hsettle : ∀ c, Step.Alike (t.settleBefore scope c) (t'.settleBefore scope c))
    (text : List Char) :
    AlikeRest (scanRest scope t (charItems text)) (scanRest scope t' (charItems text)) := by
  have hadmits := Kinship.sameText.admits_charItems
  cases text with
  | nil =>
      have hends := hsettle ' '
      rw [settleBefore_blank, settleBefore_blank] at hends
      have hfinish := (@finish_eq_ok_iff scope t _).2 ⟨hframes, hescape, rfl⟩
      have hfinish' := (@finish_eq_ok_iff scope t' _).2
        ⟨h.frames.trans hframes, h.mode ▸ hescape, rfl⟩
      rw [charItems_nil, scanRest_nil, scanRest_nil, hfinish, hfinish']
      exact .ok (hends.andThen fun _ _ h ↦ h.flush).lexemes
  | cons c rest =>
      have hcomplete := hcomplete c
      rw [charItems_cons]
      cases hstep : t.complete? scope c with
      | some step =>
          rw [hstep] at hcomplete
          cases hstep' : t'.complete? scope c with
          | none => rw [hstep'] at hcomplete; cases hcomplete
          | some step' =>
              rw [hstep'] at hcomplete
              have hclosed : ¬ t.OpensBodyAt scope c := fun hopen ↦ by simp [hopen.1] at hstep
              have hclosed' : ¬ t'.OpensBodyAt scope c := fun hopen ↦ by simp [hopen.1] at hstep'
              have halike : Step.Alike (t.stepChar scope c 0) (t'.stepChar scope c 0) := by
                rw [Scanner.stepChar, Scanner.stepChar, hstep, hstep']
                cases hcomplete with
                | some halike => exact halike
              rw [scanRest_char hclosed, scanRest_char hclosed']
              exact halike.scanRest (hs.stepChar c 0) (hadmits rest)
      | none =>
          rw [hstep] at hcomplete
          cases hstep' : t'.complete? scope c with
          | some step' => rw [hstep'] at hcomplete; cases hcomplete
          | none =>
              obtain ⟨hsound, hplain⟩ := hs.settlement (settleBefore_settlement hstep)
              have hplain' := (hs'.settlement (settleBefore_settlement hstep')).2
              rw [scanRest_of_map (scan_settled hstep hplain 0 _),
                scanRest_of_map (scan_settled hstep' hplain' 0 _)]
              exact (hsettle c).scanRest hsound (hadmits (c :: rest))

theorem scanRest_pending (h : t.Respelt t') (hs : t.Sound) (hs' : t'.Sound)
    (hraw : t.piece.raw ≠ []) (hraw' : t'.piece.raw ≠ []) {pending : Operator}
    (hpending : t.mode.pending? = some pending) (text : List Char) :
    AlikeRest (scanRest scope t (charItems text)) (scanRest scope t' (charItems text)) := by
  have hpending' : t'.mode.pending? = some pending := by rw [h.mode, hpending]
  refine h.scanRest_undecided hs hs' (hs.bare_of_pending hpending) (ne_escape_of_pending hpending)
    (fun c ↦ ?_) (fun c ↦ ?_) text
  · rw [complete?_of_pending hpending, complete?_of_pending hpending', h.mode]
    cases t.mode.completed? c with
    | none => exact .none
    | some op => exact .some ((h.inMode .plain).emitOperator hraw hraw' op)
  · rw [settleBefore_of_pending hpending, settleBefore_of_pending hpending']
    exact (h.inMode .plain).emitOperator hraw hraw' pending

theorem scanRest_dollar (h : t.Respelt t') (hs : (t.inMode (.dollar 0)).Sound)
    (hs' : (t'.inMode (.dollar 0)).Sound) (hframes : t.frames = []) (text : List Char) :
    AlikeRest (scanRest scope (t.inMode (.dollar 0)) (charItems text))
      (scanRest scope (t'.inMode (.dollar 0)) (charItems text)) := by
  have hdollar : ∀ more, NotDigits ('$' :: more) := fun more ↦ ⟨'$', by simp, rfl⟩
  have hplain := h.inMode .plain
  refine (h.inMode _).scanRest_undecided hs hs' hframes (by simp [Scanner.inMode])
    (fun c ↦ ?_) (fun c ↦ ?_) text
  · unfold complete?
    simp only [Scanner.inMode]
    split_ifs
    · exact .some (.of_kindred ((hplain.push (hdollar _) _).markExpands.enter _).silent)
    · exact .some (.of_kindred ((hplain.push (hdollar _) _).markExpands.enter _).silent)
    · exact .none
  · unfold settleBefore
    simp only [Scanner.inMode]
    split_ifs
    · exact .of_kindred (hplain.push (hdollar _) _).markExpands.silent
    · exact .of_kindred (hplain.push (hdollar _) _).silent

end Respelt

end Scanner

open Scanner

/-- What a line continuation joins without a trace, given the shell text of the word that is going
on: that word or one that starts behind it, and no number that a redirection behind it takes. -/
structure Joins (word behind : List Char) : Prop where
  present : word ≠ [] ∨ ∃ c ∈ behind.head?, c ∉ delimiters ∧ c ≠ '#'
  number : ∀ digits angle rest, behind = digits ++ angle :: rest → angle = '<' ∨ angle = '>' →
    readDescriptor? (word ++ digits) = none

theorem Joins.tail {word rest : List Char} {c : Char} (h : Joins word (c :: rest)) :
    Joins (word ++ [c]) rest where
  present := .inl (by simp)
  number digits angle behind hrest hangle := by
    simpa using h.number (c :: digits) angle behind (by rw [hrest]; rfl) hangle

/-- The second scanner has read a line continuation that the first one has not. -/
structure Scanner.Continued (t t' : Scanner) : Prop extends t.Respelt t' where
  plain : t.mode = .plain
  bare : t.frames = []
  continued : NotDigits t'.piece.raw

namespace Scanner.Continued

variable {scope : Scope} {t t' : Scanner}

theorem writtenDescriptor? (h : t.Continued t') (hnumber : readDescriptor? t.piece.raw = none) :
    t.writtenDescriptor? = none ∧ t'.writtenDescriptor? = none := by
  unfold Scanner.writtenDescriptor?
  rw [hnumber, h.continued.readDescriptor?, ite_self, ite_self]
  exact ⟨rfl, rfl⟩

/-- What opens a body or a quote, or stands for itself, ends the difference. -/
theorem pushed {c : Char} {e e' : Bool} {frames : List Frame} {u u' : Scanner}
    {added : List Char} (h : t.Continued t') (hu : Pushed t u c e frames)
    (hu' : Pushed t' u' c e' frames) (hdigit : isDigit c = false)
    (htext : u.piece.text = t.piece.text ++ added) (htext' : u'.piece.text = t'.piece.text ++ added)
    (hadded : e' = e ∨ added = [c]) : u.Kindred .sameText u' where
  frames := hu'.frames.trans hu.frames.symm
  mode := hu'.mode.trans hu.mode.symm
  previous := by rw [hu.previous, hu'.previous, h.previous]
  kin := by
    have hc : NotDigits [c] := ⟨c, by simp, hdigit⟩
    refine ⟨⟨by rw [htext, htext', h.text], ?_⟩, .inr ⟨?_, ?_⟩⟩
    · refine hadded.imp (fun he ↦ ?_) fun hchar ↦ ?_
      · rw [hu.expands, hu'.expands, h.expands, he]
      · rw [htext, hchar]
        exact hc.append_right _
    · rw [hu.raw]
      exact hc.append_right _
    · rw [hu'.raw]
      exact hc.append_right _

/-- A digit may still belong to the number of a redirection. -/
theorem digit {c : Char} {u u' : Scanner} {added : List Char} (h : t.Continued t')
    (hu : Pushed t u c false t.frames) (hu' : Pushed t' u' c false t.frames)
    (htext : u.piece.text = t.piece.text ++ added)
    (htext' : u'.piece.text = t'.piece.text ++ added) : u.Continued u' where
  frames := by rw [hu.frames, hu'.frames]
  mode := by rw [hu.mode, hu'.mode]
  previous := by rw [hu.previous, hu'.previous, h.previous]
  text := by rw [htext, htext', h.text]
  expands := by rw [hu.expands, hu'.expands, h.expands]
  plain := hu.mode
  bare := by rw [hu.frames, h.bare]
  continued := by
    rw [hu'.raw]
    exact h.continued.append_left _

theorem scanRest_body (h : t.Continued t') (hs : t.Sound) (rest : List Char) :
    AlikeRest (scanRest scope t (charItems ('\x60' :: rest)))
      (scanRest scope t' (charItems ('\x60' :: rest))) := by
  have hplain' : t'.mode = .plain := h.mode.trans h.plain
  have hopens : ∀ u : Scanner, u.mode = .plain → u.frames = [] → u.OpensBodyAt scope '\x60' := by
    intro u hmode hframes
    simp [OpensBodyAt, complete?_of_plain hmode, settleBefore_of_plain hmode, opensBody, hframes]
  have hopen := hopens t h.plain h.bare
  have hopen' := hopens t' hplain' (h.frames.trans h.bare)
  have hscope : t'.bodyScope scope = t.bodyScope scope := by
    unfold Scanner.bodyScope
    rw [settleBefore_of_plain h.plain, settleBefore_of_plain hplain', h.frames]
  rw [charItems_cons]
  cases hcut : cutBody (charItems rest) with
  | none =>
      unfold scanRest
      rw [scan_open _ _ hopen hcut, scan_open _ _ hopen' hcut, hscope]
      exact .error _
  | some cut =>
      obtain ⟨body, behind⟩ := cut
      obtain ⟨hbody, hbehind⟩ := (Kinship.sameText.admits_charItems rest).cutBody hcut
      rw [ShellTemplate.scanRest_body hopen hcut, ShellTemplate.scanRest_body hopen' hcut, hscope]
      cases hread : scanAll (t.bodyScope scope) body with
      | error e => exact .error e
      | ok lexemes =>
          have hstep : Step.Alike (t.stepBody scope lexemes) (t'.stepBody scope lexemes) := by
            unfold Scanner.stepBody
            rw [settleBefore_of_plain h.plain, settleBefore_of_plain hplain']
            have hopened := @Respelt.push scope t t' h.toRespelt ['\x60'] ⟨'\x60', by simp, rfl⟩ []
            have hspliced := @Kindred.spliceLexemes _ scope _ _ hopened.markExpands _
              (hbody.filled_of_scanAll hread)
            exact .of_kindred (hspliced.andThen fun _ _ h ↦ (h.push ['\x60'] []).silent)
          exact hstep.scanRest (hs.stepBody hopen lexemes) hbehind

/-- A digit leaves the difference; any other character ends it, or leaves undecided what the
character behind it decides. -/
theorem readChar (h : t.Continued t') (hs : t.Sound) (hs' : t'.Sound) {c : Char} {rest : List Char}
    (hjoins : Joins t.piece.raw (c :: rest)) :
    (∃ u u', t.readChar scope c 0 = (u, []) ∧ t'.readChar scope c 0 = (u', []) ∧
        u.Continued u' ∧ u.piece.raw = t.piece.raw ++ [c]) ∨
      AlikeRest
        ((ShellTemplate.scanRest scope (t.readChar scope c 0).1 (charItems rest)).map
          ((t.readChar scope c 0).2 ++ ·))
        ((ShellTemplate.scanRest scope (t'.readChar scope c 0).1 (charItems rest)).map
          ((t'.readChar scope c 0).2 ++ ·)) := by
  have hadmits := Kinship.sameText.admits_charItems
  have hplain' : t'.mode = .plain := h.mode.trans h.plain
  have hraw' := h.continued.ne_nil
  have hpresent : c ∈ delimiters ∨ c = '#' → t.piece.raw ≠ [] := by
    intro hc
    refine hjoins.present.resolve_right ?_
    rintro ⟨d, hd, hne, hne'⟩
    obtain rfl : c = d := by simpa using hd
    exact hc.elim hne hne'
  have hwithin : Within t t' [] := ⟨by rw [h.frames, List.append_nil], .inl rfl, by simp⟩
  have hparallel := @parallel_readChar scope scope c t t' [] hwithin h.plain hplain' fun _ hc ↦ by
    rw [atWordStart, atWordStart, h.previous, List.isEmpty_eq_false_iff.2 hraw',
      List.isEmpty_eq_false_iff.2 (hpresent (.inr hc))]
  have hsound := @Sound.stepChar scope t hs c 0
  have hsound' := @Sound.stepChar scope t' hs' c 0
  rw [stepChar_of_plain h.plain] at hsound
  rw [stepChar_of_plain hplain'] at hsound'
  generalize t.readChar scope c 0 = step at hparallel hsound ⊢
  generalize t'.readChar scope c 0 = step' at hparallel hsound' ⊢
  cases hparallel with
  | blank _ hc =>
      have hraw := hpresent (.inl (by rcases hc with rfl | rfl | rfl <;> decide))
      exact .inr ((h.toRespelt.emitBlank hraw hraw').scanRest hsound (hadmits rest))
  | operator _ op hop hsingle =>
      have hraw := hpresent (.inl (mem_delimiters_of_text hop hsingle))
      exact .inr ((h.toRespelt.emitOperator hraw hraw' op).scanRest hsound (hadmits rest))
  | comment _ hc hstart =>
      simp [atWordStart, hpresent (.inr hc)] at hstart
  | begin _ mode hmode =>
      have hraw := hpresent (.inl (by rcases hmode with ⟨rfl, -⟩ | ⟨rfl, -⟩ <;> decide))
      refine .inr (SameOutcome.map ?_ fun _ _ ↦ id)
      have hbegun := h.toRespelt.inMode mode
      rcases hmode with ⟨-, rfl⟩ | ⟨-, rfl⟩
      · exact hbegun.scanRest_pending hsound hsound' hraw hraw' rfl rest
      · exact hbegun.scanRest_pending hsound hsound' hraw hraw' rfl rest
  | angle _ mode hmode =>
      have hnumber : readDescriptor? t.piece.raw = none := by
        simpa using hjoins.number [] c rest rfl (hmode.symm.imp And.left And.left)
      have hraw := hpresent (.inl (by rcases hmode with ⟨rfl, -⟩ | ⟨rfl, -⟩ <;> decide))
      obtain ⟨hnone, hnone'⟩ := h.writtenDescriptor? hnumber
      simp only [readAngle, hnone, hnone'] at hsound hsound' ⊢
      refine .inr (SameOutcome.map ?_ fun _ _ ↦ id)
      have hangle := h.toRespelt.inMode (mode none)
      rcases hmode with ⟨-, rfl⟩ | ⟨-, rfl⟩
      · exact hangle.scanRest_pending hsound hsound' hraw hraw' rfl rest
      · exact hangle.scanRest_pending hsound hsound' hraw hraw' rfl rest
  | push e e' frames hu hu' same marked _ quote text =>
      obtain ⟨added, htext, htext', hadded⟩ := text
      rw [List.append_nil] at hu'
      cases hdigit : isDigit c with
      | false =>
          have hsame : e' = e ∨ added = [c] := by
            cases e <;> cases e' <;> simp_all
          have hkin := h.pushed hu hu' hdigit htext htext' hsame
          exact .inr ((Step.Alike.of_kindred hkin.silent).scanRest hsound (hadmits rest))
      | true =>
          obtain ⟨rfl, rfl⟩ : e = false ∧ e' = false := by
            cases e <;> cases e' <;> simp_all
          -- no digit opens or closes a quote
          obtain rfl : t.frames = frames := by
            by_contra hne
            have hquote := quote hne
            simp only [List.mem_cons, List.not_mem_nil, or_false] at hquote
            rcases hquote with rfl | rfl | rfl | rfl | rfl <;> cases hdigit
          exact .inl ⟨_, _, rfl, rfl, h.digit hu hu' htext htext', hu.raw⟩
  | backslash =>
      have hpushed := @Respelt.push scope t t' h.toRespelt ['\\'] ⟨'\\', by simp, rfl⟩ []
      have hkin := (hpushed.inMode .escape).silent
      exact .inr ((Step.Alike.of_kindred hkin).scanRest hsound (hadmits rest))
  | dollar =>
      refine .inr (SameOutcome.map ?_ fun _ _ ↦ id)
      exact h.toRespelt.scanRest_dollar hsound hsound' h.bare rest

/-- Behind a line continuation everything is read as if it were not there. -/
theorem scanRest (h : t.Continued t') (hs : t.Sound) (hs' : t'.Sound) {behind : List Char}
    (hjoins : Joins t.piece.raw behind) :
    AlikeRest (scanRest scope t (charItems behind))
      (ShellTemplate.scanRest scope t' (charItems behind)) := by
  -- on what is behind; the digits at its start keep the second scanner `Continued`
  induction behind generalizing t t' with
  | nil =>
      have hraw : t.piece.raw ≠ [] := hjoins.present.resolve_right (by simp)
      have hplain' : t'.mode = .plain := h.mode.trans h.plain
      have hfinish := (@finish_eq_ok_iff scope t _).2 ⟨h.bare, by simp [h.plain], rfl⟩
      have hfinish' := (@finish_eq_ok_iff scope t' _).2
        ⟨h.frames.trans h.bare, by simp [hplain'], rfl⟩
      rw [charItems_nil, scanRest_nil, scanRest_nil, hfinish, hfinish', settle_of_plain h.plain,
        settle_of_plain hplain']
      exact .ok (h.toRespelt.flush hraw h.continued.ne_nil).lexemes
  | cons c rest ih =>
      by_cases htick : c = '\x60'
      · rw [htick]
        exact h.scanRest_body hs rest
      have hsound := @Sound.stepChar scope t hs c 0
      have hsound' := @Sound.stepChar scope t' hs' c 0
      rw [charItems_cons, scanRest_char (not_opensBodyAt_of_ne htick),
        scanRest_char (not_opensBodyAt_of_ne htick)]
      rw [stepChar_of_plain h.plain] at hsound ⊢
      rw [stepChar_of_plain (h.mode.trans h.plain)] at hsound' ⊢
      rcases @readChar scope t t' h hs hs' c rest hjoins with
        ⟨u, u', hu, hu', hcontinued, hraw⟩ | halike
      · rw [hu] at hsound ⊢
        rw [hu'] at hsound' ⊢
        exact (ih hcontinued hsound hsound' (hraw ▸ hjoins.tail)).map fun _ _ ↦ id
      · exact halike

end Scanner.Continued

end ShellTemplate
