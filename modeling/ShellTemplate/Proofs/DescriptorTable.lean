import Mathlib.Logic.Function.Basic
import ShellTemplate.Proofs.Grammar

/-!
# Where the descriptors of a command go

The shell carries out the redirections of a command from left to right on a
table of its descriptors. The redirections that a stage records are that table
after the last of them, and each command of a pipeline starts with its own.
-/

namespace ShellTemplate

/-- Where each descriptor goes. -/
abbrev DescriptorTable := Nat → Target

namespace DescriptorTable

/-- Before any redirection, every descriptor is the command's own. -/
def initial : DescriptorTable := Target.descriptor

/-- Carry out one redirection. A duplication copies the entry of the descriptor that its target
names in decimal. -/
def carryOut (table : DescriptorTable) (r : Redirect) (target : Word) : DescriptorTable :=
  match r.kind with
  | .out => Function.update table (r.fd.getD 1) (.file target .truncate)
  | .append => Function.update table (r.fd.getD 1) (.file target .append)
  | .input => Function.update table (r.fd.getD 0) (.file target .read)
  | .dupOut => Function.update table (r.fd.getD 1) (table (Nat.ofDigitChars 10 target.value 0))
  | .dupIn => Function.update table (r.fd.getD 0) (table (Nat.ofDigitChars 10 target.value 0))

/-- Carry out redirections in the order in which they are written. -/
def carryOutAll (table : DescriptorTable) (redirections : List (Redirect × Word)) :
    DescriptorTable :=
  redirections.foldl (fun table entry ↦ table.carryOut entry.1 entry.2) table

end DescriptorTable

/-- The redirections that are written in a command, each with its target. -/
def writtenRedirections : List Part → List (Redirect × Word)
  | .operator (.redirect r) :: .word target :: rest => (r, target) :: writtenRedirections rest
  | _ :: rest => writtenRedirections rest
  | [] => []

theorem writtenRedirections_terminator {op : Operator} (h : op.isTerminator = true)
    (rest : List Part) : writtenRedirections (.operator op :: rest) = writtenRedirections rest := by
  cases op with
  | semicolon | newline => rfl
  | pipe | redirect | background | and | or | openParen | closeParen => cases h

namespace Redirects

theorem get?_cons (k : Nat) (target : Target) (rest : Redirects) (fd : Nat) :
    get? ((k, target) :: rest) fd = if fd = k then some target else get? rest fd := by
  rw [get?, List.lookup_cons]
  by_cases h : fd = k <;> simp [h, beq_eq_false_iff_ne.2, get?]

theorem get?_set (fd : Nat) (target : Target) (redirects : Redirects) (k : Nat) :
    (redirects.set fd target).get? k = if k = fd then some target else redirects.get? k := by
  fun_induction Redirects.set fd target redirects with
  | case1 | case2 => rw [get?_cons]
  | case3 t rest hlt =>
      rw [get?_cons, get?_cons]
      split_ifs <;> rfl
  | case4 j t rest hlt hne ih =>
      rw [get?_cons, get?_cons, ih]
      split_ifs <;> first | rfl | omega

/-- Where each descriptor goes; one that is not recorded is the command's own. -/
def table (redirects : Redirects) : DescriptorTable :=
  fun fd ↦ (redirects.get? fd).getD (.descriptor fd)

theorem table_set (redirects : Redirects) (fd : Nat) (target : Target) :
    (redirects.set fd target).table = Function.update redirects.table fd target := by
  funext k
  rw [table, get?_set]
  by_cases hk : k = fd
  · subst hk
    simp
  · simp [hk, table]

/-- A target that names a descriptor names the one that its digits denote. -/
theorem duplicated?_eq_some {target : Word} {source : Nat} (h : duplicated? target = some source) :
    source = Nat.ofDigitChars 10 target.value 0 := by
  unfold duplicated? at h
  split_ifs at h
  obtain ⟨hread, -⟩ := Option.filter_eq_some_iff.1 h
  unfold readDigits? at hread
  split_ifs at hread
  exact (Option.some.inj hread).symm

/-- Recording a redirection carries it out. -/
theorem table_apply {redirects applied : Redirects} {r : Redirect} {target : Word}
    (h : redirects.apply r target = .ok applied) :
    applied.table = redirects.table.carryOut r target := by
  unfold apply at h
  cases hkind : r.kind with
  | out | append | input =>
      simp only [hkind] at h
      cases h
      simp [table_set, DescriptorTable.carryOut, hkind, Redirect.descriptor,
        RedirectKind.defaultDescriptor]
  | dupOut | dupIn =>
      simp only [hkind] at h
      split at h
      · rename_i source hsource
        cases h
        simp [table_set, DescriptorTable.carryOut, hkind, Redirect.descriptor,
          RedirectKind.defaultDescriptor, ← duplicated?_eq_some hsource, table]
      · cases h

end Redirects

/-- The stage records where the redirections of a command lead. -/
def Stage.Resolves (stage : Stage) (command : List Part) : Prop :=
  stage.redirects.table = DescriptorTable.initial.carryOutAll (writtenRedirections command)

theorem splitOn_cons_of_ne {part : Part} (h : part ≠ .operator .pipe) (rest : List Part) :
    (part :: rest).splitOn (.operator .pipe) =
      (rest.splitOn (.operator .pipe)).modifyHead (part :: ·) := by
  rw [List.splitOn_cons_eq_if_modifyHead, if_neg (by simpa using h)]

theorem splitOn_cons_pipe (rest : List Part) :
    (Part.operator .pipe :: rest).splitOn (.operator .pipe) =
      [] :: rest.splitOn (.operator .pipe) := by
  rw [List.splitOn_cons_eq_if_modifyHead, if_pos (by simp)]

namespace PartialPipeline

/-- What is still to be read leads the stages where its redirections say: the current command
goes on from the table that it has reached, the commands behind it start anew. -/
inductive Resolved (p : PartialPipeline) : List Part → List Stage → Prop
  | ended (h : p.terminated = true) {parts : List Part} (alone : .operator .pipe ∉ parts)
      (none : writtenRedirections parts = []) : Resolved p parts p.stages
  | going (h : p.terminated = false) {parts : List Part} (first : List Part)
      {others : List (List Part)}
      (commands : parts.splitOn (.operator .pipe) = first :: others) (stage : Stage)
      (current : stage.redirects.table =
        p.current.redirects.table.carryOutAll (writtenRedirections first))
      {more : List Stage} (rest : List.Forall₂ Stage.Resolves more others) :
      Resolved p parts (p.stages ++ stage :: more)

theorem Stepped.resolved {p : PartialPipeline} {part : Part} {rest : List Part}
    {next : PartialPipeline × List Part} {stages : List Stage} (h : p.Stepped part rest next)
    (hrest : next.1.Resolved next.2 stages) : p.Resolved (part :: rest) stages := by
  cases h with
  | word going w =>
      cases hrest with
      | ended h => exact absurd (going.symm.trans h) (by simp)
      | @going _ _ first others commands stage current _ more =>
          exact .going going (.word w :: first) (by simp [splitOn_cons_of_ne, commands])
            stage current more
  | redirect going r target rest applied =>
      cases hrest with
      | ended h => exact absurd (going.symm.trans h) (by simp)
      | @going _ _ first others commands stage current _ more =>
          refine .going going (.operator (.redirect r) :: .word target :: first)
            (by simp [splitOn_cons_of_ne, commands]) stage ?_ more
          rw [current, Redirects.table_apply applied]
          rfl
  | skip op ends idle =>
      have hop : Part.operator op ≠ .operator .pipe := by rintro ⟨⟩; cases ends
      cases hrest with
      | ended h alone none =>
          refine .ended h (by simpa [alone] using hop.symm) ?_
          rw [writtenRedirections_terminator ends, none]
      | @going h _ first others commands stage current _ more =>
          refine .going h (.operator op :: first)
            (by simp [splitOn_cons_of_ne hop, commands]) stage ?_ more
          rw [current, writtenRedirections_terminator ends]
  | pipe going named =>
      cases hrest with
      | ended h => cases h
      | @going _ _ first others commands stage current _ more =>
          have hall : p.Resolved (.operator .pipe :: rest) (p.stages ++ p.current :: stage :: _) :=
            .going going [] (by rw [splitOn_cons_pipe, commands]) p.current rfl (.cons current more)
          simpa using hall
  | terminate going named op ends =>
      have hop : Part.operator op ≠ .operator .pipe := by rintro ⟨⟩; cases ends
      cases hrest with
      | going h => cases h
      | ended _ alone none =>
          have hsplit : (Part.operator op :: rest).splitOn (.operator .pipe) =
              [.operator op :: rest] := by
            rw [splitOn_cons_of_ne hop, List.splitOn_eq_singleton alone]
            rfl
          refine .going going _ hsplit p.current ?_ .nil
          rw [writtenRedirections_terminator ends, none]
          rfl

theorem resolved_of_read {p : PartialPipeline} {parts : List Part} {stages : List Stage}
    (h : p.read parts = .ok stages) : p.Resolved parts stages := by
  refine read_induction (motive := Resolved) ?_ ?_ ?_ h
  · intro p hterm
    exact .ended hterm (by simp) rfl
  · intro p hgoing _
    exact .going hgoing [] (List.splitOn_nil _) p.current rfl .nil
  · intro p part rest next stages hstepped _ ih
    exact hstepped.resolved ih

end PartialPipeline

theorem resolves_of_stagesOfParts {parts : List Part} {stages : List Stage}
    (h : stagesOfParts parts = .ok stages) :
    List.Forall₂ Stage.Resolves stages (parts.splitOn (.operator .pipe)) := by
  have hresolved := PartialPipeline.resolved_of_read h
  clear h
  cases hresolved with
  | ended h => cases h
  | going _ _ commands stage current more =>
      rw [commands]
      exact .cons current more

/-- Every descriptor of every stage goes where the redirections of its command lead when they
are carried out in the order in which they are written. -/
theorem parse_resolves_redirections {tokens : List Token} {p : Pipeline}
    (h : parse tokens = .ok p) :
    List.Forall₂
      (fun stage command ↦ ∀ fd, (stage.redirects.get? fd).getD (.descriptor fd) =
        DescriptorTable.initial.carryOutAll (writtenRedirections command) fd)
      p.stages ((mergeWords tokens).splitOn (.operator .pipe)) := by
  obtain ⟨parts, hparts, -⟩ := bind_eq_ok_iff.1 h
  rw [parse_eq_map (assemble_eq_ok_iff.1 hparts).1] at h
  obtain ⟨stages, hstages, rfl⟩ := map_eq_ok_iff.1 h
  exact (resolves_of_stagesOfParts hstages).imp fun _ _ hresolves ↦ congrFun hresolves

def swappedThroughThird : List Token :=
  [.piece ⟨['a'], ['a'], false⟩, .blank,
    .operator (.redirect ⟨some 3, .dupOut⟩), .piece ⟨['1'], ['1'], false⟩, .blank,
    .operator (.redirect ⟨none, .dupOut⟩), .piece ⟨['2'], ['2'], false⟩, .blank,
    .operator (.redirect ⟨some 2, .dupOut⟩), .piece ⟨['3'], ['3'], false⟩, .blank,
    .operator (.redirect ⟨none, .input⟩), .piece ⟨['f'], ['f'], false⟩, .blank,
    .operator (.redirect ⟨some 4, .dupIn⟩), .piece ⟨['0'], ['0'], false⟩, .operator .pipe,
    .piece ⟨['b'], ['b'], false⟩, .operator (.redirect ⟨some 3, .append⟩),
    .piece ⟨['g'], ['g'], false⟩]

/-- Output and errors are exchanged; the second command does not see the third descriptor of the
first. -/
theorem parse_resolves_redirections_swapped :
    ∃ p, parse swappedThroughThird = .ok p ∧
      p.stages.map Stage.redirects =
        [[(0, .file ⟨['f'], ['f'], false⟩ .read), (1, .descriptor 2), (2, .descriptor 1),
          (3, .descriptor 1), (4, .file ⟨['f'], ['f'], false⟩ .read)],
         [(3, .file ⟨['g'], ['g'], false⟩ .append)]] ∧
      List.Forall₂
        (fun stage command ↦ ∀ fd, (stage.redirects.get? fd).getD (.descriptor fd) =
          DescriptorTable.initial.carryOutAll (writtenRedirections command) fd)
        p.stages ((mergeWords swappedThroughThird).splitOn (.operator .pipe)) := by
  obtain ⟨p, hp⟩ : ∃ p, parse swappedThroughThird = .ok p := ⟨_, rfl⟩
  refine ⟨p, hp, ?_, parse_resolves_redirections hp⟩
  cases hp
  rfl

end ShellTemplate
