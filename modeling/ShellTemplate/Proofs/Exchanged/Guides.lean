import ShellTemplate.Proofs.Exchanged.Lines
import ShellTemplate.Proofs.Lexeme.Backslashes

/-!
# The reader of a line and the scanner of its template

The line may be divided into words in another way than the template, but its reader stays inside
the constructs of the template's scanner: what is quoted in the template is quoted on the line. A
reader is never at the start of a word where the scanner is in the middle of one.
-/

namespace ShellTemplate

/-- Reading the text leads to the second scanner. -/
def Scanner.ReadsTo (scope : Scope) (t : Scanner) (text : List Char) (u : Scanner) : Prop :=
  ∃ lexemes, Reads scope t text (.ok (u, lexemes))

namespace Scanner

variable {free free' loose loose' : Prop} {scope : Scope} {s s' t u v : Scanner} {c : Char}

theorem ReadsTo.nil : t.ReadsTo scope [] t := ⟨[], .nil⟩

theorem ReadsTo.append {text text' : List Char} (h : t.ReadsTo scope text u)
    (h' : u.ReadsTo scope text' v) : t.ReadsTo scope (text ++ text') v := by
  obtain ⟨lexemes, hreads⟩ := h
  obtain ⟨lexemes', hreads'⟩ := h'
  exact ⟨_, hreads.append hreads'⟩

theorem ReadsTo.of_settled {text : List Char} (hnone : t.complete? scope c = none)
    (hplain : (t.settleBefore scope c).1.mode = .plain)
    (h : (t.settleBefore scope c).1.ReadsTo scope (c :: text) u) :
    t.ReadsTo scope (c :: text) u := by
  obtain ⟨lexemes, hreads⟩ := h
  exact ⟨_, Reads.of_settled hnone hplain hreads⟩

theorem readsTo_of_readChar (hmode : t.mode = .plain) (hbody : ¬ t.OpensBodyAt scope c)
    {lexemes : List Lexeme} (h : t.readChar scope c 0 = (u, lexemes)) : t.ReadsTo scope [c] u := by
  have hreads := Reads.char hbody
  rw [stepChar_of_plain hmode, h] at hreads
  exact ⟨lexemes, hreads⟩

theorem mem_of_mem_continuations {op : Operator} (h : c ∈ op.continuations) :
    c ∈ ['|', '&', '>'] := by
  unfold Operator.continuations at h
  split at h <;> simp_all
  rcases h with rfl | rfl | rfl <;> simp

/-- Outside all constructs, and not in a comment. -/
structure Bare (t : Scanner) : Prop where
  frames : t.frames = []
  comment : t.mode ≠ .comment
  escape : t.mode ≠ .escape
  previous : t.previous ≠ .word

theorem bare_of_plain (hframes : t.frames = []) (hmode : t.mode = .plain)
    (hprevious : t.previous ≠ .word) : t.Bare :=
  ⟨hframes, by simp [hmode], by simp [hmode], hprevious⟩

theorem bare_emitOperator (hframes : t.frames = []) (hmode : t.mode = .plain) (op : Operator) :
    (t.emitOperator op).1.Bare := by
  obtain ⟨hsame, hsame'⟩ := emitOperator_frames op t
  exact bare_of_plain (hsame.trans hframes) (hsame'.trans hmode) (by simp [emitOperator])

theorem bare_emitBlank (hframes : t.frames = []) (hmode : t.mode = .plain) :
    t.emitBlank.1.Bare := by
  obtain ⟨hsame, hsame'⟩ := emitBlank_frames t
  refine bare_of_plain (hsame.trans hframes) (hsame'.trans hmode) ?_
  rw [emitBlank, Step.andThen_fst]
  split_ifs with hblank <;> simp [hblank]

/-- A character that neither quotes nor begins a comment leaves the reader outside all
constructs. -/
theorem Bare.reads_char (h : t.Bare) (hc : c ∉ ['#', '\'', '"', '\\', '$', '\x60'])
    (hdollar : ∀ place, t.mode = .dollar place → c ≠ '\x7b' ∧ c ≠ '(') :
    ∃ v, t.ReadsTo scope [c] v ∧ v.Bare ∧ ∀ place, v.mode ≠ .dollar place := by
  simp only [List.mem_cons, List.not_mem_nil, or_false, not_or] at hc
  obtain ⟨hhash, hsingle, hdouble, hbackslash, hsign, hbacktick⟩ := hc
  have hbody : ∀ w : Scanner, ¬ w.OpensBodyAt scope c := fun _ ↦ not_opensBodyAt_of_ne hbacktick
  have hread := Reads.char (hbody t)
  have hplain : ∀ {v : Scanner}, v.mode = .plain → ∀ place, v.mode ≠ .dollar place :=
    fun hmode ↦ by simp [hmode]
  cases hcomplete : t.complete? scope c with
  | some step =>
      have hstep : t.stepChar scope c 0 = step := by simp [stepChar, hcomplete]
      rw [hstep] at hread
      cases complete_completion hcomplete with
      | commentOn hmode | commentEnd hmode => exact absurd hmode h.comment
      | escaped hmode => exact absurd hmode h.escape
      | openParameter opened hmode hopen => exact absurd hopen (hdollar opened hmode).1
      | openSubstitution opened hmode hopen => exact absurd hopen (hdollar opened hmode).2
      | operator pending op hmode =>
          exact ⟨_, ⟨_, hread⟩, @bare_emitOperator (t.inMode .plain) h.frames rfl op,
            hplain (emitOperator_frames op _).2⟩
  | none =>
      have hsettled : (t.settleBefore scope c).1.Bare ∧
          (t.settleBefore scope c).1.mode = .plain := by
        have hsettlement := settleBefore_settlement hcomplete
        generalize t.settleBefore scope c = step at hsettlement
        cases hsettlement with
        | plain hmode => exact ⟨h, hmode⟩
        | dollar | lone => exact ⟨bare_of_plain h.frames rfl h.previous, rfl⟩
        | operator pending hmode =>
            exact ⟨@bare_emitOperator (t.inMode .plain) h.frames rfl pending,
              (emitOperator_frames pending _).2⟩
      obtain ⟨hbare, hmode⟩ := hsettled
      generalize hu : (t.settleBefore scope c).1 = u at hbare hmode
      have hgo : ∀ {step : Step}, u.readChar scope c 0 = step → step.1.Bare →
          (∀ place, step.1.mode ≠ .dollar place) →
          ∃ v, t.ReadsTo scope [c] v ∧ v.Bare ∧ ∀ place, v.mode ≠ .dollar place := by
        intro step hstep hv hne
        refine ⟨step.1, .of_settled hcomplete (hu ▸ hmode) ?_, hv, hne⟩
        rw [hu]
        exact readsTo_of_readChar hmode (hbody u) hstep
      have hmove : Move scope 0 c u (u.readChar scope c 0) := readChar_move
      generalize hstep : u.readChar scope c 0 = step at hmove
      cases hmove with
      | blank =>
          exact hgo hstep (bare_emitBlank hbare.frames hmode)
            (hplain ((emitBlank_frames u).2.trans hmode))
      | operator _ op =>
          exact hgo hstep (bare_emitOperator hbare.frames hmode op)
            (hplain ((emitOperator_frames op u).2.trans hmode))
      | comment _ hc => exact absurd hc hhash
      | begin _ mode hbegin =>
          refine hgo hstep ⟨hbare.frames, ?_, ?_, hbare.previous⟩ ?_ <;>
            rcases hbegin with ⟨-, rfl⟩ | ⟨-, rfl⟩ <;> simp [inMode]
      | angle _ mode hangle =>
          obtain ⟨hframes, fd, hfd⟩ := readAngle_frames mode u
          have hprevious : (u.readAngle mode).previous = u.previous := by
            unfold readAngle
            split <;> rfl
          refine hgo hstep ⟨hframes.trans hbare.frames, ?_, ?_, hprevious ▸ hbare.previous⟩ ?_ <;>
            dsimp only <;> rw [hfd] <;> rcases hangle with ⟨-, rfl⟩ | ⟨-, rfl⟩ <;> simp
      | keep | glob =>
          exact hgo hstep (bare_of_plain hbare.frames hmode hbare.previous) (hplain hmode)
      | openQuote _ frame hframe =>
          rcases hframe with ⟨hc, -⟩ | ⟨hc, -⟩
          · exact absurd hc hsingle
          · exact absurd hc hdouble
      | backslash _ hc => exact absurd hc hbackslash
      | dollar _ hc => exact absurd hc hsign
      | closeQuote _ _ hframes | openInner _ _ hframes | closeExpansion _ _ hframes
      | nest _ _ _ _ hframes => simp [hbare.frames] at hframes

theorem Bare.reads_text (h : t.Bare) {text : List Char}
    (htext : ∀ d ∈ text, d ∉ ['#', '\'', '"', '\\', '$', '\x60'])
    (hdollar : ∀ place, t.mode = .dollar place → text ≠ [] ∧
      ∀ d ∈ text.head?, d ≠ '\x7b' ∧ d ≠ '(') :
    ∃ v, t.ReadsTo scope text v ∧ v.Bare ∧ ∀ place, v.mode ≠ .dollar place := by
  induction text generalizing t with
  | nil => exact ⟨t, .nil, h, fun place hmode ↦ (hdollar place hmode).1 rfl⟩
  | cons d rest ih =>
      obtain ⟨u, hu, hbare, hnone⟩ := @Bare.reads_char scope t d h
        (htext d List.mem_cons_self) fun place hmode ↦ (hdollar place hmode).2 d rfl
      obtain ⟨v, hv, hboth⟩ := ih hbare (fun e he ↦ htext e (List.mem_cons_of_mem d he))
        fun place hmode ↦ absurd hmode (hnone place)
      exact ⟨v, hu.append hv, hboth⟩

/-- The text of an operator neither quotes nor begins a comment. -/
theorem not_mem_text {op : Operator} (hc : c ∈ op.text) :
    c ∉ ['#', '\'', '"', '\\', '$', '\x60'] := by
  have hdigit : ∀ {n : Nat}, c ∈ (toString n).toList →
      c ∉ ['#', '\'', '"', '\\', '$', '\x60'] := by
    intro n hn hmem
    have hdigit := isDigit_of_mem_toString hn
    simp only [List.mem_cons, List.not_mem_nil, or_false] at hmem
    rcases hmem with rfl | rfl | rfl | rfl | rfl | rfl <;> cases hdigit
  have hkind : ∀ {kind : RedirectKind}, c ∈ kind.text →
      c ∉ ['#', '\'', '"', '\\', '$', '\x60'] := by
    intro kind hmem
    cases kind <;> simp only [RedirectKind.text, List.mem_cons, List.not_mem_nil, or_false] at hmem
    all_goals first | subst hmem | rcases hmem with rfl | rfl
    all_goals decide
  cases op with
  | redirect r =>
      obtain ⟨fd, kind⟩ := r
      rcases List.mem_append.1 hc with hmem | hmem
      · cases fd with
        | none => cases hmem
        | some n => exact hdigit hmem
      · exact hkind hmem
  | _ =>
      simp only [Operator.text, List.mem_cons, List.not_mem_nil, or_false] at hc
      all_goals first | subst hc | rcases hc with rfl | rfl
      all_goals decide

/-- Only one operator opens what a dollar sign before it would make an expansion. -/
theorem head_text {op : Operator} (hop : op ≠ .openParen) :
    ∀ d ∈ op.text.head?, d ≠ '\x7b' ∧ d ≠ '(' := by
  intro d hd
  cases op with
  | openParen => exact absurd rfl hop
  | redirect r =>
      obtain ⟨fd, kind⟩ := r
      cases fd with
      | none => cases kind <;> cases hd <;> decide
      | some n =>
          have hmem : d ∈ (toString n).toList := by
            change d ∈ ((toString n).toList ++ kind.text).head? at hd
            rw [List.head?_append_of_ne_nil _ (toString_ne_nil n)] at hd
            exact List.mem_of_mem_head? hd
          have hdigit := isDigit_of_mem_toString hmem
          constructor <;> rintro rfl <;> cases hdigit
  | _ => cases hd; decide

theorem text_ne_nil (op : Operator) : op.text ≠ [] := by
  intro hnil
  by_cases hop : op = .newline
  · rw [hop] at hnil
    cases hnil
  · obtain ⟨c, hc, -⟩ := getLast?_text hop
    simp [hnil] at hc

theorem Bare.reads_operator (h : t.Bare) {gap : List Char} (hgap : gap = [] ∨ gap = [' '])
    {op : Operator} (hop : ∀ place, t.mode = .dollar place → op ≠ .openParen) :
    ∃ v, t.ReadsTo scope (gap ++ op.text) v ∧ v.Bare ∧ ∀ place, v.mode ≠ .dollar place := by
  refine h.reads_text (fun d hd ↦ ?_) fun place hplace ↦ ⟨by simp [text_ne_nil], fun d hd ↦ ?_⟩
  · rcases List.mem_append.1 hd with hd | hd
    · rcases hgap with rfl | rfl
      · cases hd
      · rw [List.mem_singleton.1 hd]
        decide
    · exact not_mem_text hd
  · rcases hgap with rfl | rfl
    · exact head_text (hop place hplace) d hd
    · cases hd
      decide

/-- A word is going on. -/
def MidWord (s : Scanner) : Prop := s.core.raw ≠ [] ∨ s.previous = .word

theorem not_midWord (hmode : s.mode ≠ .escape) (hraw : s.piece.raw = [])
    (hprevious : s.previous ≠ .word) : ¬ s.MidWord := by
  rintro (hcore | hword)
  · rw [core_of_ne hmode] at hcore
    exact hcore hraw
  · exact hprevious hword

/-- Directly behind a hole, outside all constructs. -/
structure NextToHole (s : Scanner) : Prop where
  frames : s.frames = []
  previous : s.previous = .word
  raw : s.core.raw = []

theorem NextToHole.of_same (h : s.NextToHole) (hframes : s'.frames = s.frames)
    (hraw : s'.core.raw = s.core.raw) (hprevious : s'.previous = s.previous) : s'.NextToHole :=
  ⟨hframes.trans h.frames, hprevious.trans h.previous, hraw.trans h.raw⟩

/-- A word is going on, maybe with a dollar sign that is undecided. -/
def InWord (t : Scanner) : Prop :=
  t.mode = .plain ∧ t.piece.raw ≠ [] ∨ ∃ place, t.mode = .dollar place

/-- The reader `t` is inside the constructs of `s`, and in a word where `s` is in one. Where any
character may be written next it has left no dollar sign undecided. Taken loosely, this says
neither of a reader directly behind a hole. -/
structure Guides (free loose : Prop) (s t : Scanner) : Prop where
  frames : t.frames = s.frames
  comment : t.mode ≠ .comment
  escape : t.mode ≠ .escape
  previous : t.previous ≠ .word
  word : s.MidWord → t.InWord ∨ loose ∧ s.NextToHole
  inside : t.frames ≠ [] → NotDigits t.piece.raw
  dollar : ∀ place, t.mode = .dollar place →
    ¬ free ∧ EndsInUnescapedDollar s.core.raw ∨ loose ∧ s.NextToHole

theorem guides_of_plain (hmode : t.mode = .plain) (hframes : t.frames = s.frames)
    (hprevious : t.previous ≠ .word) (hword : s.MidWord → t.piece.raw ≠ [] ∨ loose ∧ s.NextToHole)
    (hinside : t.frames ≠ [] → NotDigits t.piece.raw) : Guides free loose s t where
  frames := hframes
  comment := by simp [hmode]
  escape := by simp [hmode]
  previous := hprevious
  word := fun hs ↦ (hword hs).imp_left fun hraw ↦ .inl ⟨hmode, hraw⟩
  inside := hinside
  dollar := by simp [hmode]

theorem Bare.guides (h : t.Bare) (hdollar : ∀ place, t.mode ≠ .dollar place)
    (hframes : s.frames = []) (hword : ¬ s.MidWord) : Guides free loose s t where
  frames := h.frames.trans hframes.symm
  comment := h.comment
  escape := h.escape
  previous := h.previous
  word := fun hs ↦ absurd hs hword
  inside := fun hne ↦ absurd h.frames hne
  dollar := fun place hmode ↦ absurd hmode (hdollar place)

/-- Behind a hole any reader outside all constructs will do. -/
theorem Bare.guides_nextToHole (h : t.Bare) (hs : s.NextToHole) (hloose : loose) :
    Guides free loose s t where
  frames := h.frames.trans hs.frames.symm
  comment := h.comment
  escape := h.escape
  previous := h.previous
  word := fun _ ↦ .inr ⟨hloose, hs⟩
  inside := fun hne ↦ absurd h.frames hne
  dollar := fun _ _ ↦ .inr ⟨hloose, hs⟩

namespace Guides

theorem bare (h : Guides free loose s t) (hframes : s.frames = []) : t.Bare :=
  ⟨h.frames.trans hframes, h.comment, h.escape, h.previous⟩

theorem of_same (h : Guides free loose s t) (hframes : s'.frames = s.frames)
    (hraw : s'.core.raw = s.core.raw) (hprevious : s'.previous = s.previous)
    (hfree : free' → free) (hloose : loose → loose') : Guides free' loose' s' t where
  frames := h.frames.trans hframes.symm
  comment := h.comment
  escape := h.escape
  previous := h.previous
  word := fun hmid ↦ by
    refine (h.word ?_).imp_right fun hbehind ↦ ⟨hloose hbehind.1, ?_⟩
    · rwa [MidWord, hraw, hprevious] at hmid
    · exact hbehind.2.of_same hframes hraw hprevious
  inside := h.inside
  dollar := fun place hmode ↦ by
    rw [hraw]
    exact (h.dollar place hmode).imp (And.imp_left (mt hfree)) fun hbehind ↦
      ⟨hloose hbehind.1, hbehind.2.of_same hframes hraw hprevious⟩

/-- Before most characters the reader can decide what it has left undecided. -/
theorem settle (h : Guides free loose s t) (ht : t.Sound)
    (hop : s.frames = [] → c ∉ ['|', '&', '>']) (hfree : c = '\x7b' ∨ c = '(' → free ∧ ¬ loose) :
    t.complete? scope c = none ∧ (t.settleBefore scope c).1.mode = .plain ∧
      Guides True loose s (t.settleBefore scope c).1 := by
  have hopen : ∀ opened, t.mode = .dollar opened → c ≠ '\x7b' ∧ c ≠ '(' := by
    refine fun opened hmode ↦ not_or.1 fun hc ↦ ?_
    obtain ⟨hfree, hstrict⟩ := hfree hc
    rcases h.dollar opened hmode with hdollar | hbehind
    · exact hdollar.1 hfree
    · exact hstrict hbehind.1
  have hnone : t.complete? scope c = none := by
    cases hcomplete : t.complete? scope c with
    | none => rfl
    | some step =>
        cases complete_completion hcomplete with
        | commentOn hmode | commentEnd hmode => exact absurd hmode h.comment
        | escaped hmode => exact absurd hmode h.escape
        | openParameter opened hmode hc => exact absurd hc (hopen opened hmode).1
        | openSubstitution opened hmode hc => exact absurd hc (hopen opened hmode).2
        | operator pending op hmode hc =>
            have hbare := h.frames.symm.trans (ht.bare_of_pending hmode)
            exact absurd (mem_of_mem_continuations hc) (hop hbare)
  refine ⟨hnone, ?_⟩
  have hsettlement := settleBefore_settlement hnone
  generalize t.settleBefore scope c = step at hsettlement
  cases hsettlement with
  | plain hmode =>
      refine ⟨hmode, guides_of_plain hmode h.frames h.previous (fun hs ↦ ?_) h.inside⟩
      refine (h.word hs).imp_left fun hword ↦ ?_
      rcases hword with ⟨-, hraw⟩ | ⟨place, hdollar⟩
      · exact hraw
      · simp [hmode] at hdollar
  | dollar | lone =>
      refine ⟨rfl, guides_of_plain rfl h.frames h.previous (fun _ ↦ .inl (by
        simp [pushChar, push, markExpands])) fun hne ↦ (h.inside hne).append_left _⟩
  | operator pending hmode =>
      have hbare := ht.bare_of_pending hmode
      obtain ⟨hframes, hplain⟩ := emitOperator_frames pending (t.inMode .plain)
      refine ⟨hplain, guides_of_plain hplain (hframes.trans h.frames) (by simp [emitOperator])
        (fun hs ↦ ?_) fun hne ↦ absurd (hframes.trans hbare) hne⟩
      refine (h.word hs).imp_left fun hword ↦ ?_
      rcases hword with ⟨hmode', -⟩ | ⟨place, hmode'⟩ <;> simp [hmode', Mode.pending?] at hmode

/-- A text may be read by the reader that has decided everything. -/
theorem reads_on (h : Guides free loose s t) (ht : t.Sound)
    (hop : s.frames = [] → c ∉ ['|', '&', '>']) (hfree : c = '\x7b' ∨ c = '(' → free ∧ ¬ loose)
    {text : List Char}
    (hread : ∀ u : Scanner, u.mode = .plain → Guides True loose s u →
      ∃ v, u.ReadsTo scope (c :: text) v ∧ Guides free' loose' s' v) :
    ∃ v, t.ReadsTo scope (c :: text) v ∧ Guides free' loose' s' v := by
  obtain ⟨hnone, hplain, hguides⟩ := @settle _ _ scope s t c h ht hop hfree
  obtain ⟨v, hv, hguides'⟩ := hread _ hplain hguides
  exact ⟨v, .of_settled hnone hplain hv, hguides'⟩

theorem grown (h : Guides free loose s u) {text : List Char} (hmode : v.mode = .plain)
    (hframes : v.frames = s'.frames) (hprevious : v.previous = u.previous)
    (hraw : v.piece.raw = u.piece.raw ++ text) (htext : NotDigits text) :
    Guides free' loose' s' v := by
  have hnumber : NotDigits v.piece.raw := hraw ▸ htext.append_right _
  exact guides_of_plain hmode hframes (hprevious ▸ h.previous) (fun _ ↦ .inl hnumber.ne_nil)
    fun _ ↦ hnumber

theorem pushed (h : Guides free loose s u) {e e' : Bool} {frames : List Frame}
    (hs : Pushed s s' c e frames) (hv : Pushed u v c e' frames)
    (hquote : s.frames ≠ frames → c ∈ ['\'', '"', '(', ')', '\x7d']) :
    Guides free' loose' s' v := by
  refine guides_of_plain hv.mode (hv.frames.trans hs.frames.symm) (hv.previous ▸ h.previous)
    (fun _ ↦ .inl (by simp [hv.raw])) fun hne ↦ ?_
  rw [hv.raw]
  by_cases hbare : u.frames = []
  · have hc := hquote fun hsame ↦ hne (by rw [hv.frames, ← hsame, ← h.frames, hbare])
    refine NotDigits.append_right ⟨c, List.mem_singleton_self c, ?_⟩ _
    simp only [List.mem_cons, List.not_mem_nil, or_false] at hc
    rcases hc with rfl | rfl | rfl | rfl | rfl <;> rfl
  · exact (h.inside hbare).append_left [c]

end Guides

end Scanner

end ShellTemplate
