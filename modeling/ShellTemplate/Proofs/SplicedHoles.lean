import ShellTemplate.Proofs.Enclosure
import ShellTemplate.Proofs.Spliced.Rebuilt

/-!
# Holes that stand next to other text

Lists and shell syntax may stand directly before and behind literal text. What is on either side is
read on its own, and on the command line it is read together. The line is compiled to the same words
and redirections all the same, unless a word begins with a mark, a number stands directly before a
redirection, a dollar sign before a brace, or the last word ends in a blank character that is no
space. These are the cases in which a token changes its meaning by what stands before it.
-/

namespace ShellTemplate

open Scanner

/-- Neither a backslash nor a backtick is in the text. -/
def Escapeless (text : List Char) : Prop := '\\' ∉ text ∧ '\x60' ∉ text

instance : DecidablePred Escapeless := fun _ ↦ instDecidableAnd

theorem Escapeless.ne {text : List Char} (h : Escapeless text) {c : Char} (hc : c ∈ text) :
    c ≠ '\\' ∧ c ≠ '\x60' :=
  ⟨fun heq ↦ h.1 (heq ▸ hc), fun heq ↦ h.2 (heq ▸ hc)⟩

/-- Shell text and shell syntax escape nothing; what other values hold is quoted anyway. -/
def Segment.Escapeless : Segment → Prop
  | .literal text | .hole (.raw text) => ShellTemplate.Escapeless text
  | .hole (.str _) | .hole (.scalar _) | .hole (.joined _ _) | .hole (.list _) => True

instance : DecidablePred Segment.Escapeless := fun
  | .literal text => inferInstanceAs (Decidable (ShellTemplate.Escapeless text))
  | .hole (.raw text) => inferInstanceAs (Decidable (ShellTemplate.Escapeless text))
  | .hole (.str _) | .hole (.scalar _) | .hole (.joined _ _) | .hole (.list _) =>
    instDecidableTrue

section Values

/-- A text in single quotes can stand behind another piece. -/
theorem spliceable_literalPiece (text : List Char) :
    (literalPiece .bare {} text).Spliceable {} where
  nonempty := by simp [literalPiece, escapeLevels, Quoting.write, singleQuote]
  starts := by
    rintro c ⟨⟩
    decide
  ends := by
    intro c hc
    have hlast : (literalPiece .bare {} text).raw.getLast? = some '\'' :=
      List.getLast?_concat (l := '\'' :: escapeSingle text)
    rw [hlast] at hc
    obtain rfl := Option.some.inj hc
    decide
  reads := by
    intro u hu
    have hgrows : ∀ v : Scanner, v.frames = [] → v.mode = .plain →
        Grows {} v (singleQuote text) text [] := fun v hframes hmode ↦ by
      have hgrown := @grows_singleQuote {} v text hmode (by rw [hframes]; rfl)
      rwa [hframes, singleText_nil] at hgrown
    obtain ⟨t, hreads, hgrown⟩ := hgrows u hu.frames hu.mode
    refine ⟨t, fun previous v hlike ↦ ?_, hgrown.frames, .inl hgrown.mode,
      fun hopen ↦ absurd hgrown.mode hopen, ?_⟩
    · obtain ⟨w, hreads', hgrown'⟩ :=
        hgrows v (hlike.frames.trans hu.frames) (hlike.mode.trans hu.mode)
      refine ⟨w, hreads', hgrown'.frames.trans hgrown.frames.symm,
        hgrown'.mode.trans hgrown.mode.symm, piece_eq ?_ ?_ ?_, hgrown.previous ▸ hu.own,
        hgrown'.previous.trans hlike.previous, hlike.fresh⟩
      · rw [hgrown'.raw, hgrown.raw, hlike.piece]
      · rw [hgrown'.text, hgrown.text, hlike.piece]
      · rw [hgrown'.expands, hgrown.expands, hlike.piece]
    · rw [settle_of_plain hgrown.mode]
      exact ⟨hgrown.raw, ⟨hgrown.text, .inl (hgrown.expands.trans (Bool.or_false _).symm)⟩⟩

theorem escapeless_charItems {text : List Char} (h : Escapeless text) :
    EscapelessItems (charItems text) := by
  intro item hitem
  obtain ⟨c, hc, rfl⟩ := List.mem_map.1 hitem
  refine ⟨rfl, ?_⟩
  rintro d ⟨⟩
  exact h.ne hc

variable {options : FillOptions}

/-- In plain text the tokens of a value can be spliced. -/
theorem spliceable_of_fillHole {value : Value} {own : List Token}
    (hvalue : (Segment.hole value).Escapeless) (h : fillHole options .bare {} value = .ok own) :
    ∀ token ∈ own, token.Spliceable {} := by
  have hpieces : ∀ texts : List (List Char), ∀ token ∈
      ((texts.map (literalPiece .bare {})).map Token.piece).intersperse .blank,
      token.Spliceable {} := by
    intro texts
    induction texts with
    | nil => simp
    | cons text texts ih =>
        cases texts with
        | nil =>
            intro token htoken
            rw [List.mem_singleton.1 htoken]
            exact spliceable_literalPiece text
        | cons next texts =>
            intro token htoken
            rcases List.mem_cons.1 htoken with rfl | htoken
            · exact spliceable_literalPiece text
            · rcases List.mem_cons.1 htoken with rfl | htoken
              · trivial
              · exact ih token htoken
  cases value with
  | raw text =>
      obtain ⟨-, lexemes, hlex, rfl⟩ := fillHole_raw h
      have hscan := lexemesOfText_eq_ok_iff.1 hlex
      refine spliceable_of_scanAll hscan (escapeless_charItems hvalue) fun lexeme hl hhole ↦ ?_
      simp [filled_of_scanAll hscan lexeme hl] at hhole
  | str | scalar | joined | list =>
      cases h
      exact hpieces _

theorem spliceable_of_fill {values : List Value} {lexemes : List Lexeme} {tokens : List Token}
    (hlexemes : ∀ token ∈ lexemes.map Lexeme.token, token.Spliceable {})
    (hholes : ∀ lexeme ∈ lexemes, lexeme.token.isHole = true →
      lexeme.quoting = .bare ∧ lexeme.enclosing = {})
    (hvalues : ∀ value ∈ values, (Segment.hole value).Escapeless)
    (h : fill options values lexemes = .ok tokens) : ∀ token ∈ tokens, token.Spliceable {} := by
  induction lexemes generalizing tokens with
  | nil =>
      cases h
      exact fun token htoken ↦ absurd htoken List.not_mem_nil
  | cons lexeme rest ih =>
      rw [List.map_cons, List.forall_mem_cons] at hlexemes
      obtain ⟨hfirst, hrest⟩ := List.forall_mem_cons.1 hholes
      have ih := fun {more} ↦ @ih more hlexemes.2 hrest
      obtain ⟨token, quoting, enclosing⟩ := lexeme
      cases token with
      | hole index =>
          obtain ⟨rfl, rfl⟩ : quoting = .bare ∧ enclosing = {} := hfirst rfl
          obtain ⟨value, own, more, hvalue, hown, hmore, rfl⟩ := fill_hole_eq_ok_iff.1 h
          have hescapeless := hvalues value (List.mem_of_getElem? hvalue)
          exact List.forall_mem_append.2 ⟨spliceable_of_fillHole hescapeless hown, ih hmore⟩
      | piece | operator | blank =>
          rw [fill_cons_of_not_hole rfl] at h
          obtain ⟨more, hmore, rfl⟩ := map_eq_ok_iff.1 h
          exact List.forall_mem_cons.2 ⟨hlexemes.1, ih hmore⟩

end Values

namespace Template

/-- Every hole stands outside all quotes, expansions and substitutions. -/
def HolesBare (t : Template) : Prop :=
  ∀ lexemes, t.lexemes = .ok lexemes → ∀ lexeme ∈ lexemes, lexeme.token.isHole = true →
    lexeme.quoting = .bare

theorem holesBare_iff {t : Template} : t.HolesBare ↔
    (t.lexemes.toOption.all fun lexemes ↦ lexemes.all fun lexeme ↦
      !lexeme.token.isHole || lexeme.quoting = .bare) = true := by
  unfold HolesBare
  cases t.lexemes <;> simp [Except.toOption, or_iff_not_imp_left]

instance : DecidablePred HolesBare := fun _ ↦ decidable_of_iff _ holesBare_iff.symm

/-- With its holes filled the template has tokens that keep their meaning on the command line. -/
def KeepsApart (t : Template) (options : FillOptions) : Prop :=
  ∀ tokens, t.tokens options = .ok tokens → ShellTemplate.KeepsApart tokens

theorem keepsApart_iff {t : Template} {options : FillOptions} : t.KeepsApart options ↔
    ((t.tokens options).toOption.all fun tokens ↦ ShellTemplate.KeepsApart tokens) = true := by
  unfold KeepsApart
  cases t.tokens options <;> simp [Except.toOption]

instance (t : Template) (options : FillOptions) : Decidable (t.KeepsApart options) :=
  decidable_of_iff _ keepsApart_iff.symm

end Template

theorem mem_literal_of_mem_symbolsFrom {next : Nat} {segments : List Segment} {c : Char}
    (h : .char c ∈ symbolsFrom next segments) : ∃ text, .literal text ∈ segments ∧ c ∈ text := by
  induction segments generalizing next with
  | nil => cases h
  | cons segment rest ih =>
      cases segment with
      | literal text =>
          rcases List.mem_append.1 h with hfirst | hrest
          · obtain ⟨d, hd, hcd⟩ := List.mem_map.1 hfirst
            cases hcd
            exact ⟨text, List.mem_cons_self, hd⟩
          · obtain ⟨other, hother, hc⟩ := ih hrest
            exact ⟨other, List.mem_cons_of_mem _ hother, hc⟩
      | hole value =>
          rcases List.mem_cons.1 h with hfirst | hrest
          · cases hfirst
          · obtain ⟨other, hother, hc⟩ := ih hrest
            exact ⟨other, List.mem_cons_of_mem _ hother, hc⟩

/-- Where holes are spliced into plain text and every token keeps its meaning, the command line is
compiled to the same words and redirections, and to itself. -/
theorem compile_spliced_line {t : Template} {options : FillOptions} {p : Pipeline}
    (hescapeless : ∀ segment ∈ t.segments, segment.Escapeless) (hbare : t.HolesBare)
    (hkeeps : t.KeepsApart options) (h : t.compile options = .ok p) (options' : FillOptions) :
    ∃ q, (Template.ofText p.line).compile options' = .ok q ∧ q.line = p.line ∧
      List.Forall₂ (Stage.Alike fun w w' ↦ w'.raw = w.raw ∧ w'.value = w.value)
        p.stages q.stages := by
  obtain ⟨lexemes, tokens, hlex, hfill, hfilled, hstages, hline⟩ := compile_eq_ok_iff.1 h
  have hholes := hbare lexemes hlex
  have hitems : EscapelessItems (unplaced t.symbols) := by
    intro item hitem
    obtain ⟨symbol, hsymbol, rfl⟩ := List.mem_map.1 hitem
    refine ⟨rfl, ?_⟩
    rintro c ⟨⟩
    obtain ⟨text, htext, hc⟩ := mem_literal_of_mem_symbolsFrom hsymbol
    exact (hescapeless _ htext).ne hc
  have hliteral := spliceable_of_scanAll (Template.lexemes_eq_ok_iff.1 hlex) hitems hholes
  have hvalues : ∀ value ∈ t.holes, (Segment.hole value).Escapeless := by
    intro value hvalue
    obtain ⟨segment, hsegment, hhole⟩ := List.mem_filterMap.1 hvalue
    cases segment with
    | literal text => cases hhole
    | hole other =>
        cases hhole
        exact hescapeless _ hsegment
  have hspliceable := spliceable_of_fill hliteral (fun lexeme hl hhole ↦
    ⟨hholes lexeme hl hhole, (Template.lexemes_agree hlex lexeme hl).bare (hholes lexeme hl hhole)⟩)
    hvalues hfill
  have hapart := hkeeps tokens (tokens_eq_ok_iff.2 ⟨lexemes, hlex, hfill⟩)
  obtain ⟨stages, hcompile, halike⟩ :=
    compile_commandLine_of_spliceable hspliceable hfilled hapart hstages options'
  rw [← hline] at hcompile
  exact ⟨⟨stages, p.line⟩, hcompile, rfl, halike⟩

/-- Shell syntax and lists that literal text goes on with, and lists that leave nothing before a
number and before a tilde. -/
def gluedArchive : Template :=
  ⟨[.literal "tar --file=".toList, .hole (.raw "~/$".toList), .literal "day.tar -C".toList,
    .hole (.list ["a b".toList, "it's".toList]), .literal "/src".toList, .hole (.list []),
    .literal "2>>log 2>&".toList, .hole (.raw "1| gzip -".toList), .literal "9 ".toList,
    .hole (.list []), .literal "~/in; ".toList]⟩

def gluedArchivePipeline : Pipeline where
  stages := [⟨[⟨"tar".toList, "tar".toList, false⟩,
      ⟨"--file=~/$day.tar".toList, "--file=~/$day.tar".toList, true⟩,
      ⟨"-C'a b'".toList, "-Ca b".toList, false⟩,
      ⟨"'it'\\''s'/src2".toList, "it's/src2".toList, false⟩],
      [(1, .file ⟨"log".toList, "log".toList, false⟩ .append),
        (2, .file ⟨"log".toList, "log".toList, false⟩ .append)]⟩,
    ⟨[⟨"gzip".toList, "gzip".toList, false⟩, ⟨"-9".toList, "-9".toList, false⟩,
      ⟨"~/in".toList, "~/in".toList, false⟩], []⟩]
  line := "tar --file=~/$day.tar -C'a b' 'it'\\''s'/src2>>log 2>&1| gzip -9 ~/in;".toList

theorem compile_spliced_line_gluedArchive :
    (∀ segment ∈ gluedArchive.segments, segment.Escapeless) ∧ gluedArchive.HolesBare ∧
      gluedArchive.KeepsApart {} ∧ gluedArchive.compile {} = .ok gluedArchivePipeline ∧
        ∃ q, (Template.ofText gluedArchivePipeline.line).compile {} = .ok q ∧
          q.line = gluedArchivePipeline.line ∧
            List.Forall₂ (Stage.Alike fun w w' ↦ w'.raw = w.raw ∧ w'.value = w.value)
              gluedArchivePipeline.stages q.stages := by
  have hescapeless : ∀ segment ∈ gluedArchive.segments, segment.Escapeless := by decide +kernel
  have hbare : gluedArchive.HolesBare := by decide +kernel
  have hkeeps : gluedArchive.KeepsApart {} := by decide +kernel
  have hcompile : gluedArchive.compile {} = .ok gluedArchivePipeline := by decide +kernel
  exact ⟨hescapeless, hbare, hkeeps, hcompile,
    compile_spliced_line hescapeless hbare hkeeps hcompile {}⟩

/-- A raw number that stands directly before a redirection. -/
def rawBeforeRedirect : Template :=
  ⟨[.literal "echo ".toList, .hole (.raw ['2']), .literal ">out".toList]⟩

/-- On the command line the number becomes the descriptor of the redirection. -/
theorem number_lost_before_redirect : ∃ p q, rawBeforeRedirect.compile {} = .ok p ∧
    (Template.ofText p.line).compile {} = .ok q ∧
      p.stages.map (·.argv.map Word.value) = [["echo".toList, ['2']]] ∧
        q.stages.map (·.argv.map Word.value) = [["echo".toList]] ∧
          p.stages.map (·.redirects.map Prod.fst) = [[1]] ∧
            q.stages.map (·.redirects.map Prod.fst) = [[2]] := by
  refine ⟨⟨[⟨[⟨"echo".toList, "echo".toList, false⟩, ⟨['2'], ['2'], false⟩],
      [(1, .file ⟨"out".toList, "out".toList, false⟩ .truncate)]⟩], "echo 2>out".toList⟩,
    ⟨[⟨[⟨"echo".toList, "echo".toList, false⟩],
      [(2, .file ⟨"out".toList, "out".toList, false⟩ .truncate)]⟩], "echo 2>out".toList⟩, ?_⟩
  decide +kernel

end ShellTemplate
