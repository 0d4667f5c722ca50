import ShellTemplate.Proofs.Numeral
import ShellTemplate.Proofs.Stages
import ShellTemplate.Proofs.Words

/-!
# The grammar of pipelines

Tokens are read as a pipeline exactly when their words and operators form a sentence: commands
between pipes, behind newlines and before semicolons or newlines. The words of the commands are
those of the sentence.
-/

namespace ShellTemplate

section Merging

def Token.piece? : Token → Option Piece
  | .piece p => some p
  | .hole _ | .operator _ | .blank => none

def Token.isPiece (token : Token) : Bool := token.piece?.isSome

/-- Each longest run of pieces makes one word; blanks and operators stand between words. -/
def mergeWords : List Token → List Part
  | [] => []
  | .piece p :: rest =>
      .word (((rest.takeWhile Token.isPiece).filterMap Token.piece?).foldl Word.push
        (({} : Word).push p)) :: mergeWords (rest.dropWhile Token.isPiece)
  | .operator op :: rest => .operator op :: mergeWords rest
  | .blank :: rest | .hole _ :: rest => mergeWords rest
termination_by tokens => tokens.length
decreasing_by
  · exact Nat.lt_succ_of_le (List.dropWhile_suffix _).length_le
  all_goals exact Nat.lt_succ_self _

/-- A word that was begun takes the pieces up to the next token of another kind. -/
theorem assembleFrom_eq_mergeWords {tokens : List Token}
    (h : ∀ token ∈ tokens, token.isHole = false) :
    assembleFrom none tokens = .ok (mergeWords tokens) ∧
      ∀ w, assembleFrom (some w) tokens =
        .ok (.word (((tokens.takeWhile Token.isPiece).filterMap Token.piece?).foldl Word.push w) ::
          mergeWords (tokens.dropWhile Token.isPiece)) := by
  induction tokens with
  | nil => exact ⟨by simp [assembleFrom, mergeWords, partOfWord],
      fun w ↦ by simp [assembleFrom, mergeWords, partOfWord]⟩
  | cons token rest ih =>
      obtain ⟨hnone, hsome⟩ := ih fun other hother ↦ h other (List.mem_cons_of_mem _ hother)
      cases token with
      | piece p =>
          refine ⟨?_, fun w ↦ ?_⟩
          · rw [assembleFrom, hsome, mergeWords]
            rfl
          · rw [assembleFrom, hsome]
            rfl
      | operator op | blank =>
          refine ⟨?_, fun w ↦ ?_⟩
          · rw [assembleFrom, hnone, mergeWords]
            rfl
          · rw [assembleFrom, hnone]
            simp [Token.isPiece, Token.piece?, mergeWords, partOfWord, bind, Except.bind, pure,
              Except.pure]
      | hole index => simp at h

theorem parse_eq_map {tokens : List Token} (h : ∀ token ∈ tokens, token.isHole = false) :
    parse tokens = (stagesOfParts (mergeWords tokens)).map fun stages ↦
      ⟨stages, commandLine tokens⟩ := by
  have hassemble : assemble tokens = .ok (mergeWords tokens) := (assembleFrom_eq_mergeWords h).1
  simp only [parse, hassemble, bind, Except.bind]
  cases stagesOfParts (mergeWords tokens) <;> rfl

end Merging

/-- The word is the decimal text of a number of 32 bits and nothing in it expands. -/
def Word.NamesDescriptor (w : Word) : Prop :=
  w.expands = false ∧ w.value ≠ [] ∧ (∀ c ∈ w.value, c.isDigit = true) ∧
    Nat.ofDigitChars 10 w.value 0 < UInt32.size

theorem isSome_duplicated?_iff {w : Word} :
    (duplicated? w).isSome = true ↔ w.NamesDescriptor := by
  have hvalue : w.value.foldl (fun n c ↦ 10 * n + digitValue c) 0 = Nat.ofDigitChars 10 w.value 0 :=
    rfl
  cases hexpands : w.expands with
  | true => simp [duplicated?, hexpands, Word.NamesDescriptor]
  | false =>
      have hall : w.value.all isDigit = true ↔ ∀ c ∈ w.value, c.isDigit = true := by
        simp only [List.all_eq_true, isDigit_eq]
      rw [duplicated?, hexpands, if_neg (by simp), readDescriptor?, Option.isSome_filter,
        readDigits?, hvalue, Word.NamesDescriptor]
      split_ifs with hdigits
      · simpa [hexpands, hdigits.1] using fun _ ↦ hall.1 hdigits.2
      · exact ⟨fun h ↦ by simp at h, fun h ↦ absurd ⟨h.2.1, hall.2 h.2.2.1⟩ hdigits⟩

/-- What a command is made of. -/
inductive Element where
  | word (word : Word)
  | redirect (redirect : Redirect) (target : Word)

namespace Element

def parts : Element → List Part
  | .word w => [.word w]
  | .redirect r target => [.operator (.redirect r), .word target]

def word? : Element → Option Word
  | .word w => some w
  | .redirect _ _ => none

/-- A duplication copies a descriptor that its target names. -/
def Valid : Element → Prop
  | .word _ => True
  | .redirect r target => r.kind.isDuplication = true → target.NamesDescriptor

end Element

/-- The words of a command that belong to no redirection. -/
def freeWords (elements : List Element) : List Word := elements.filterMap Element.word?

/-- A command of a pipeline: words and redirections, with a word among them that names it. -/
structure Clause where
  elements : List Element
  valid : ∀ element ∈ elements, element.Valid
  named : freeWords elements ≠ []

/-- A pipeline as it is written. -/
structure Sentence where
  newlines : Nat
  first : Clause
  more : List Clause
  terminators : List Operator
  ends : ∀ op ∈ terminators, op = .semicolon ∨ op = .newline

namespace Sentence

def clauses (s : Sentence) : List Clause := s.first :: s.more

def parts (s : Sentence) : List Part :=
  List.replicate s.newlines (.operator .newline) ++ s.first.elements.flatMap Element.parts ++
    s.more.flatMap (fun clause ↦ .operator .pipe :: clause.elements.flatMap Element.parts) ++
      s.terminators.map Part.operator

end Sentence

theorem Redirects.exists_apply_of_valid {r : Redirect} {target : Word}
    (h : (Element.redirect r target).Valid) (redirects : Redirects) :
    ∃ applied, redirects.apply r target = .ok applied := by
  unfold Redirects.apply
  cases hkind : r.kind with
  | out | append | input => exact ⟨_, rfl⟩
  | dupOut | dupIn =>
      obtain ⟨source, hsource⟩ := Option.isSome_iff_exists.1
        (isSome_duplicated?_iff.2 (h (by rw [hkind]; rfl)))
      simp only [hsource]
      exact ⟨_, rfl⟩

theorem Redirects.valid_of_apply {redirects applied : Redirects} {r : Redirect} {target : Word}
    (h : redirects.apply r target = .ok applied) : (Element.redirect r target).Valid := by
  intro hdup
  rw [← isSome_duplicated?_iff]
  unfold Redirects.apply at h
  cases hkind : r.kind with
  | out | append | input => simp [hkind, RedirectKind.isDuplication] at hdup
  | dupOut | dupIn =>
      simp only [hkind] at h
      split at h
      · rename_i source hsource
        rw [hsource]
        rfl
      · cases h

theorem Redirects.set_ne_nil (fd : Nat) (target : Target) (redirects : Redirects) :
    redirects.set fd target ≠ [] := by
  fun_cases Redirects.set fd target redirects <;> simp

theorem Redirects.ne_nil_of_apply {redirects applied : Redirects} {r : Redirect} {target : Word}
    (h : redirects.apply r target = .ok applied) : applied ≠ [] := by
  unfold Redirects.apply at h
  split at h
  · cases h
    exact set_ne_nil _ _ _
  · cases h
    exact set_ne_nil _ _ _
  · cases h
    exact set_ne_nil _ _ _
  all_goals
    split at h
    · cases h
      exact set_ne_nil _ _ _
    · cases h

namespace PartialPipeline

variable {p : PartialPipeline}

section Complete

/-- The elements of a command are read into the current command. -/
theorem read_elements {elements : List Element} (h : ∀ element ∈ elements, element.Valid)
    (hgoing : p.terminated = false) (rest : List Part) :
    ∃ redirects, p.read (elements.flatMap Element.parts ++ rest) =
      { p with current := ⟨p.current.argv ++ freeWords elements, redirects⟩ }.read rest := by
  induction elements generalizing p with
  | nil => exact ⟨p.current.redirects, by simp [freeWords]⟩
  | cons element elements ih =>
      obtain ⟨hvalid, hrest⟩ := List.forall_mem_cons.1 h
      cases element with
      | word w =>
          obtain ⟨redirects, hread⟩ := ih (p := { p with current :=
            { p.current with argv := p.current.argv ++ [w] } }) hrest hgoing
          refine ⟨redirects, (Stepped.word hgoing w _).read_eq.trans (hread.trans ?_)⟩
          simp [freeWords, Element.word?]
      | redirect r target =>
          obtain ⟨applied, happly⟩ := Redirects.exists_apply_of_valid hvalid p.current.redirects
          obtain ⟨redirects, hread⟩ := ih (p := { p with current :=
            { p.current with redirects := applied } }) hrest hgoing
          exact ⟨redirects, (Stepped.redirect hgoing r target _ happly).read_eq.trans hread⟩

theorem read_newlines (n : Nat) (h : p.isFresh = true) (rest : List Part) :
    p.read (List.replicate n (.operator .newline) ++ rest) = p.read rest := by
  induction n with
  | zero => rfl
  | succ n ih =>
      rw [List.replicate_succ, List.cons_append, (Stepped.skip _ rfl (.inr ⟨rfl, h⟩) _).read_eq, ih]

theorem read_terminators {ops : List Operator} (hends : ∀ op ∈ ops, op = .semicolon ∨ op = .newline)
    (h : p.terminated = true) : p.read (ops.map Part.operator) = .ok p.stages := by
  induction ops with
  | nil => rw [List.map_nil, read, if_pos h]
  | cons op ops ih =>
      obtain ⟨hop, hrest⟩ := List.forall_mem_cons.1 hends
      rw [List.map_cons, (Stepped.skip op (Operator.isTerminator_iff.2 hop) (.inl h) _).read_eq,
        ih hrest]

/-- The clauses behind a command whose words are read. -/
theorem read_clauses {more : List Clause} {ops : List Operator}
    (hends : ∀ op ∈ ops, op = .semicolon ∨ op = .newline) (hgoing : p.terminated = false)
    (hnamed : p.current.argv ≠ []) :
    ∃ stages, p.read (more.flatMap (fun clause ↦
        .operator .pipe :: clause.elements.flatMap Element.parts) ++ ops.map Part.operator) =
        .ok stages ∧
      stages.map Stage.argv =
        p.stages.map Stage.argv ++ p.current.argv :: more.map fun clause ↦
          freeWords clause.elements := by
  induction more generalizing p with
  | nil =>
      refine ⟨p.stages ++ [p.current], ?_, by simp⟩
      cases ops with
      | nil =>
          rw [List.flatMap_nil, List.map_nil, List.append_nil, read, if_neg (by simp [hgoing]),
            close_of_named none hnamed]
          rfl
      | cons op ops =>
          obtain ⟨hop, hrest⟩ := List.forall_mem_cons.1 hends
          have hstep := Stepped.terminate hgoing hnamed op (Operator.isTerminator_iff.2 hop)
            (ops.map Part.operator)
          exact hstep.read_eq.trans (read_terminators hrest rfl)
  | cons clause more ih =>
      rw [List.flatMap_cons, List.cons_append, List.cons_append, List.append_assoc,
        (Stepped.pipe hgoing hnamed _).read_eq]
      obtain ⟨redirects, hread⟩ := read_elements (p := ⟨p.stages ++ [p.current], {}, false⟩)
        clause.valid rfl _
      rw [hread]
      obtain ⟨stages, hstages, hargv⟩ := ih (p := ⟨p.stages ++ [p.current],
        ⟨[] ++ freeWords clause.elements, redirects⟩, false⟩) rfl clause.named
      exact ⟨stages, hstages, by simpa using hargv⟩

end Complete

section Sound

/-- What may follow a pipeline that is being read. -/
inductive Continues (p : PartialPipeline) : List Part → Prop
  | ended (h : p.terminated = true) (ops : List Operator)
      (ends : ∀ op ∈ ops, op = .semicolon ∨ op = .newline) : Continues p (ops.map Part.operator)
  | going (h : p.terminated = false) (newlines : Nat) (fresh : p.isFresh = false → newlines = 0)
      (elements : List Element) (valid : ∀ element ∈ elements, element.Valid)
      (named : p.current.argv ++ freeWords elements ≠ []) (more : List Clause)
      (ops : List Operator) (ends : ∀ op ∈ ops, op = .semicolon ∨ op = .newline) :
      Continues p (List.replicate newlines (.operator .newline) ++
        elements.flatMap Element.parts ++ more.flatMap (fun clause ↦
          .operator .pipe :: clause.elements.flatMap Element.parts) ++ ops.map Part.operator)

theorem Stepped.continues {part : Part} {rest : List Part}
    {next : PartialPipeline × List Part} (h : p.Stepped part rest next)
    (hrest : next.1.Continues next.2) : p.Continues (part :: rest) := by
  cases h with
  | word going w =>
      cases hrest with
      | ended h => exact absurd (going.symm.trans h) (by simp)
      | going _ newlines fresh elements valid named more ops ends =>
          obtain rfl := fresh (isFresh_eq_false (by simp))
          exact .going going 0 (fun _ ↦ rfl) (.word w :: elements)
            (List.forall_mem_cons.2 ⟨trivial, valid⟩) (by simp [freeWords, Element.word?]) more ops
            ends
  | redirect going r target rest applied =>
      cases hrest with
      | ended h => exact absurd (going.symm.trans h) (by simp)
      | going _ newlines fresh elements valid named more ops ends =>
          obtain rfl := fresh (by simp [isFresh, Redirects.ne_nil_of_apply applied])
          exact .going going 0 (fun _ ↦ rfl) (.redirect r target :: elements)
            (List.forall_mem_cons.2 ⟨Redirects.valid_of_apply applied, valid⟩) named more ops ends
  | skip op ends idle =>
      have hop := Operator.isTerminator_iff.1 ends
      cases hrest with
      | ended h ops ends => exact .ended h (op :: ops) (List.forall_mem_cons.2 ⟨hop, ends⟩)
      | going h newlines fresh elements valid named more ops hends =>
          rcases idle with hterm | ⟨rfl, hfresh⟩
          · exact absurd (h.symm.trans hterm) (by simp)
          · exact .going h (newlines + 1) (fun hnot ↦ absurd (hfresh.symm.trans hnot) (by simp))
              elements valid named more ops hends
  | pipe going named =>
      cases hrest with
      | ended h => cases h
      | going _ newlines fresh elements valid hnamed more ops ends =>
          obtain rfl := fresh (by simp [isFresh])
          exact .going going 0 (fun _ ↦ rfl) [] (by simp) (by simpa [freeWords] using named)
            (⟨elements, valid, hnamed⟩ :: more) ops ends
  | terminate going named op ends =>
      cases hrest with
      | going h => cases h
      | ended _ ops hends =>
          exact .going going 0 (fun _ ↦ rfl) [] (by simp) (by simpa [freeWords] using named) []
            (op :: ops) (List.forall_mem_cons.2 ⟨Operator.isTerminator_iff.1 ends, hends⟩)

theorem continues_of_read {parts : List Part} {stages : List Stage}
    (h : p.read parts = .ok stages) : p.Continues parts := by
  refine read_induction (motive := fun p parts _ ↦ p.Continues parts) ?_ ?_ ?_ h
  · intro p hterm
    exact .ended hterm [] (by simp)
  · intro p hgoing hnamed
    exact .going hgoing 0 (fun _ ↦ rfl) [] (by simp) (by simpa [freeWords] using hnamed) [] []
      (by simp)
  · intro p part rest next _ hstepped _ ih
    exact hstepped.continues ih

end Sound

end PartialPipeline

/-- Every sentence is read as the commands that it says. -/
theorem Sentence.exists_stages (s : Sentence) : ∃ stages, stagesOfParts s.parts = .ok stages ∧
    stages.map Stage.argv = s.clauses.map fun clause ↦ freeWords clause.elements := by
  obtain ⟨redirects, hfirst⟩ := PartialPipeline.read_elements (p := {}) s.first.valid rfl
    (s.more.flatMap (fun clause ↦ .operator .pipe :: clause.elements.flatMap Element.parts) ++
      s.terminators.map Part.operator)
  obtain ⟨stages, hmore, hargv⟩ :=
    @PartialPipeline.read_clauses ⟨[], ⟨[] ++ freeWords s.first.elements, redirects⟩, false⟩ s.more
      s.terminators s.ends rfl s.first.named
  refine ⟨stages, ?_, hargv⟩
  rw [stagesOfParts, parts, List.append_assoc, List.append_assoc,
    PartialPipeline.read_newlines _ rfl]
  exact hfirst.trans hmore

/-- Only sentences are read. -/
theorem exists_sentence_of_stagesOfParts {parts : List Part} {stages : List Stage}
    (h : stagesOfParts parts = .ok stages) : ∃ s : Sentence, s.parts = parts := by
  cases PartialPipeline.continues_of_read h with
  | ended hterm => cases hterm
  | going _ newlines fresh elements valid named more ops ends =>
      exact ⟨⟨newlines, ⟨elements, valid, named⟩, more, ops, ends⟩, rfl⟩

/-- The parser accepts exactly the sentences of its grammar, and reads off their commands. -/
theorem parse_accepts_sentences {tokens : List Token}
    (h : ∀ token ∈ tokens, token.isHole = false) :
    ((∃ p, parse tokens = .ok p) ↔ ∃ s : Sentence, s.parts = mergeWords tokens) ∧
      ∀ p, parse tokens = .ok p → p.stages ≠ [] ∧ (∀ stage ∈ p.stages, stage.argv ≠ []) ∧
        ∀ s : Sentence, s.parts = mergeWords tokens →
          p.stages.map Stage.argv = s.clauses.map fun clause ↦ freeWords clause.elements := by
  have hparse : ∀ p, parse tokens = .ok p → stagesOfParts (mergeWords tokens) = .ok p.stages := by
    intro p hp
    rw [parse_eq_map h] at hp
    obtain ⟨stages, hstages, rfl⟩ := map_eq_ok_iff.1 hp
    exact hstages
  have hsentence : ∀ p, parse tokens = .ok p → ∀ s : Sentence, s.parts = mergeWords tokens →
      p.stages.map Stage.argv = s.clauses.map fun clause ↦ freeWords clause.elements := by
    intro p hp s hs
    obtain ⟨stages, hstages, hargv⟩ := s.exists_stages
    obtain rfl : stages = p.stages := Except.ok.inj (hstages.symm.trans (hs ▸ hparse p hp))
    exact hargv
  refine ⟨⟨fun ⟨p, hp⟩ ↦ exists_sentence_of_stagesOfParts (hparse p hp), fun ⟨s, hs⟩ ↦ ?_⟩,
    fun p hp ↦ ?_⟩
  · obtain ⟨stages, hstages, -⟩ := s.exists_stages
    rw [parse_eq_map h]
    exact ⟨_, map_eq_ok_iff.2 ⟨stages, hs ▸ hstages, rfl⟩⟩
  · obtain ⟨s, hs⟩ := exists_sentence_of_stagesOfParts (hparse p hp)
    have hargv := hsentence p hp s hs
    refine ⟨fun hnil ↦ ?_, fun stage hstage ↦ ?_, hsentence p hp⟩
    · rw [hnil] at hargv
      cases hargv
    · have hmem : stage.argv ∈ s.clauses.map fun clause ↦ freeWords clause.elements :=
        hargv ▸ List.mem_map_of_mem hstage
      obtain ⟨clause, -, hclause⟩ := List.mem_map.1 hmem
      exact hclause ▸ clause.named

def copiedErrors : List Token :=
  [.operator .newline, .piece ⟨"cat".toList, "cat".toList, false⟩, .blank,
    .operator (.redirect ⟨some 2, .dupOut⟩), .piece ⟨['1'], ['1'], false⟩, .operator .pipe,
    .piece ⟨['w'], ['w'], false⟩, .piece ⟨"'c'".toList, ['c'], false⟩, .operator .semicolon,
    .operator .newline]

def copiedErrorsSentence : Sentence where
  newlines := 1
  first :=
    { elements := [.word ⟨"cat".toList, "cat".toList, false⟩,
        .redirect ⟨some 2, .dupOut⟩ ⟨['1'], ['1'], false⟩]
      valid := by
        simp only [List.forall_mem_cons]
        exact ⟨trivial, fun _ ↦ ⟨rfl, by simp, List.forall_mem_singleton.2 rfl, by decide +kernel⟩, by simp⟩
      named := by simp [freeWords, Element.word?] }
  more :=
    [{ elements := [.word ⟨"w'c'".toList, "wc".toList, false⟩]
       valid := by simp [Element.Valid]
       named := by simp [freeWords, Element.word?] }]
  terminators := [.semicolon, .newline]
  ends := by decide

/-- The two pieces behind the pipe are one word. -/
theorem parse_accepts_sentences_copiedErrors :
    (∀ token ∈ copiedErrors, token.isHole = false) ∧
      copiedErrorsSentence.parts = mergeWords copiedErrors ∧
        ∃ p, parse copiedErrors = .ok p ∧ p.stages.map Stage.argv =
          [[⟨"cat".toList, "cat".toList, false⟩], [⟨"w'c'".toList, "wc".toList, false⟩]] := by
  have hholes : ∀ token ∈ copiedErrors, token.isHole = false := by decide
  have hparts : copiedErrorsSentence.parts = mergeWords copiedErrors := by decide +kernel
  obtain ⟨haccepts, hread⟩ := parse_accepts_sentences hholes
  obtain ⟨p, hp⟩ := haccepts.2 ⟨_, hparts⟩
  exact ⟨hholes, hparts, p, hp, (hread p hp).2.2 _ hparts⟩

end ShellTemplate
