import Mathlib.Data.List.Forall2
import Mathlib.Tactic.SplitIfs
import ShellTemplate.Pipeline.Parse
import ShellTemplate.Proofs.Success

/-!
# Reading parts

The words of a pipeline come from the parts it was read from, and parts that
are alike are read alike. A duplication reads a number from its target, so there
the targets have to agree on it.
-/

namespace ShellTemplate

/-- The words of a command: its arguments and the paths it is redirected to. -/
def Stage.words (stage : Stage) : List Word :=
  stage.argv ++ stage.redirects.filterMap fun
    | (_, .file path _) => some path
    | (_, .descriptor _) => none

theorem Stage.mem_words {stage : Stage} {w : Word} :
    w ∈ stage.words ↔ w ∈ stage.argv ∨ ∃ fd mode, (fd, .file w mode) ∈ stage.redirects := by
  simp only [words, List.mem_append, List.mem_filterMap, Prod.exists]
  refine or_congr_right ⟨?_, ?_⟩
  · rintro ⟨fd, target, hmem, h⟩
    cases target with
    | file path mode =>
        obtain rfl : path = w := by simpa using h
        exact ⟨fd, mode, hmem⟩
    | descriptor source => simp at h
  · rintro ⟨fd, mode, hmem⟩
    exact ⟨fd, _, hmem, rfl⟩

def RedirectKind.isDuplication : RedirectKind → Bool
  | .dupOut | .dupIn => true
  | .out | .append | .input => false

theorem Redirects.mem_set {fd : Nat} {target : Target} {redirects : Redirects}
    {entry : Nat × Target} (h : entry ∈ redirects.set fd target) :
    entry = (fd, target) ∨ entry ∈ redirects := by
  induction redirects with
  | nil => simpa [set] using h
  | cons head rest ih =>
      obtain ⟨k, t⟩ := head
      rw [set] at h
      split_ifs at h
      · simpa using h
      · rcases List.mem_cons.1 h with rfl | h
        · exact .inl rfl
        · exact .inr (by simp [h])
      · rcases List.mem_cons.1 h with rfl | h
        · exact .inr (by simp)
        · exact (ih h).imp_right fun h ↦ by simp [h]

theorem Redirects.mem_of_get? {fd : Nat} {target : Target} {redirects : Redirects}
    (h : redirects.get? fd = some target) : (fd, target) ∈ redirects := by
  induction redirects with
  | nil => simp [get?] at h
  | cons head rest ih =>
      obtain ⟨k, t⟩ := head
      rw [get?, List.lookup_cons] at h
      split at h
      · rename_i heq
        obtain rfl : fd = k := by simpa using heq
        cases h
        simp
      · exact List.mem_cons_of_mem _ (ih h)

/-- A redirection brings no other word into the map than its target. -/
theorem Redirects.mem_apply {redirects redirects' : Redirects} {r : Redirect} {target w : Word}
    {fd : Nat} {mode : FileMode} (h : redirects.apply r target = .ok redirects')
    (hmem : (fd, .file w mode) ∈ redirects') :
    w = target ∨ ∃ fd, (fd, .file w mode) ∈ redirects := by
  have hset : ∀ new, redirects' = redirects.set r.descriptor new →
      (new = .file w mode → w = target ∨ ∃ fd, (fd, .file w mode) ∈ redirects) →
      w = target ∨ ∃ fd, (fd, .file w mode) ∈ redirects := by
    rintro new rfl hnew
    rcases mem_set hmem with heq | hmem
    · cases heq
      exact hnew rfl
    · exact .inr ⟨fd, hmem⟩
  unfold apply at h
  split at h
  · cases h
    exact hset _ rfl fun heq ↦ by simp_all
  · cases h
    exact hset _ rfl fun heq ↦ by simp_all
  · cases h
    exact hset _ rfl fun heq ↦ by simp_all
  all_goals
    split at h
    · cases h
      refine hset _ rfl fun heq ↦ ?_
      rename_i source _
      cases hget : redirects.get? source with
      | none => simp [hget] at heq
      | some new =>
          obtain rfl : new = .file w mode := by simpa [hget] using heq
          exact .inr ⟨source, mem_of_get? hget⟩
    · cases h

/-- An operator that may stand behind a pipeline. -/
def Operator.isTerminator : Operator → Bool
  | .semicolon | .newline => true
  | .pipe | .redirect _ | .background | .and | .or | .openParen | .closeParen => false

theorem Operator.isTerminator_iff {op : Operator} :
    op.isTerminator = true ↔ op = .semicolon ∨ op = .newline := by
  cases op <;> simp [isTerminator]

namespace PartialPipeline

/-- Read one part, or a redirection with its target: the pipeline read so far and the parts
that are left. -/
def step (p : PartialPipeline) : Part → List Part → Except ParseError (PartialPipeline × List Part)
  | .word w, rest =>
    if p.terminated then .error .multiplePipelines
    else .ok ({ p with current := { p.current with argv := p.current.argv ++ [w] } }, rest)
  | .operator (.redirect r), rest =>
    if p.terminated then .error .multiplePipelines
    else
      match rest with
      | .word target :: rest =>
        (p.current.redirects.apply r target).map fun redirects ↦
          ({ p with current := { p.current with redirects := redirects } }, rest)
      | _ => .error (.missingRedirectTarget (.redirect r))
  | .operator .pipe, rest =>
    if p.terminated then .error (.unexpectedOperator .pipe)
    else (p.close (some .pipe)).map fun closed ↦ (closed, rest)
  | .operator .semicolon, rest =>
    if p.terminated then .ok (p, rest)
    else (p.close (some .semicolon)).map fun closed ↦ ({ closed with terminated := true }, rest)
  | .operator .newline, rest =>
    if p.terminated || p.isFresh then .ok (p, rest)
    else (p.close (some .newline)).map fun closed ↦ ({ closed with terminated := true }, rest)
  | .operator .background, _ => .error .background
  | .operator op, _ => .error (.unsupportedOperator op)

theorem read_cons (p : PartialPipeline) (part : Part) (rest : List Part) :
    p.read (part :: rest) = p.step part rest >>= fun next ↦ next.1.read next.2 := by
  cases part with
  | word w =>
      simp only [read, step]
      split_ifs <;> rfl
  | operator op =>
      cases op with
      | redirect r =>
          cases rest with
          | nil =>
              simp only [read, step]
              split_ifs <;> rfl
          | cons target rest =>
              cases target with
              | word target =>
                  simp only [read, step]
                  split_ifs
                  · rfl
                  · rw [map_bind]
              | operator op =>
                  simp only [read, step]
                  split_ifs <;> rfl
      | pipe | semicolon | newline =>
          simp only [read, step]
          split_ifs
          · rfl
          · rw [map_bind]
      | background | and | or | openParen | closeParen => rfl

/-- What one step that succeeds does. -/
inductive Stepped (p : PartialPipeline) :
    Part → List Part → PartialPipeline × List Part → Prop
  | word (going : p.terminated = false) (w : Word) (rest : List Part) :
      Stepped p (.word w) rest
        ({ p with current := { p.current with argv := p.current.argv ++ [w] } }, rest)
  | redirect (going : p.terminated = false) (r : Redirect) (target : Word) (rest : List Part)
      {redirects : Redirects} (applied : p.current.redirects.apply r target = .ok redirects) :
      Stepped p (.operator (.redirect r)) (.word target :: rest)
        ({ p with current := { p.current with redirects := redirects } }, rest)
  | skip (op : Operator) (ends : op.isTerminator = true)
      (idle : p.terminated = true ∨ op = .newline ∧ p.isFresh = true) (rest : List Part) :
      Stepped p (.operator op) rest (p, rest)
  | pipe (going : p.terminated = false) (named : p.current.argv ≠ []) (rest : List Part) :
      Stepped p (.operator .pipe) rest (⟨p.stages ++ [p.current], {}, false⟩, rest)
  | terminate (going : p.terminated = false) (named : p.current.argv ≠ []) (op : Operator)
      (ends : op.isTerminator = true) (rest : List Part) :
      Stepped p (.operator op) rest (⟨p.stages ++ [p.current], {}, true⟩, rest)

theorem close_eq_ok_iff {p closed : PartialPipeline} {op : Option Operator} :
    p.close op = .ok closed ↔
      p.current.argv ≠ [] ∧ closed = ⟨p.stages ++ [p.current], {}, p.terminated⟩ := by
  unfold close
  split_ifs with hargv hfresh
  · cases op <;> simp [List.isEmpty_iff.1 hargv]
  · simp [List.isEmpty_iff.1 hargv]
  · have hne : p.current.argv ≠ [] := fun h ↦ hargv (by simp [h])
    simp only [Except.ok.injEq, ne_eq, hne, not_false_eq_true, true_and]
    exact eq_comm

theorem close_of_named {p : PartialPipeline} (op : Option Operator) (h : p.current.argv ≠ []) :
    p.close op = .ok ⟨p.stages ++ [p.current], {}, p.terminated⟩ :=
  close_eq_ok_iff.2 ⟨h, rfl⟩

theorem isFresh_eq_false {p : PartialPipeline} (h : p.current.argv ≠ []) : p.isFresh = false := by
  simp [isFresh, h]

theorem step_eq_ok_iff {p : PartialPipeline} {part : Part} {rest : List Part}
    {next : PartialPipeline × List Part} :
    p.step part rest = .ok next ↔ p.Stepped part rest next := by
  constructor
  · intro h
    cases part with
    | word w =>
        simp only [step] at h
        split_ifs at h with hterm
        cases h
        exact .word (by simpa using hterm) w rest
    | operator op =>
        cases op with
        | redirect r =>
            simp only [step] at h
            split_ifs at h with hterm
            split at h
            · obtain ⟨redirects, happly, rfl⟩ := map_eq_ok_iff.1 h
              exact .redirect (by simpa using hterm) r _ _ happly
            · cases h
        | pipe =>
            simp only [step] at h
            split_ifs at h with hterm
            obtain ⟨closed, hclose, rfl⟩ := map_eq_ok_iff.1 h
            obtain ⟨hargv, rfl⟩ := close_eq_ok_iff.1 hclose
            have hgoing : p.terminated = false := by simpa using hterm
            rw [hgoing]
            exact .pipe hgoing hargv rest
        | semicolon =>
            simp only [step] at h
            split_ifs at h with hterm
            · cases h
              exact .skip _ rfl (.inl hterm) _
            · obtain ⟨closed, hclose, rfl⟩ := map_eq_ok_iff.1 h
              obtain ⟨hargv, rfl⟩ := close_eq_ok_iff.1 hclose
              exact .terminate (by simpa using hterm) hargv _ rfl _
        | newline =>
            simp only [step] at h
            split_ifs at h with hskip
            · cases h
              exact .skip _ rfl ((Bool.or_eq_true _ _ ▸ hskip).imp_right fun hfresh ↦
                ⟨rfl, hfresh⟩) _
            · obtain ⟨closed, hclose, rfl⟩ := map_eq_ok_iff.1 h
              obtain ⟨hargv, rfl⟩ := close_eq_ok_iff.1 hclose
              exact .terminate (by simp_all) hargv _ rfl _
        | background | and | or | openParen | closeParen => cases h
  · intro h
    cases h with
    | word going w => simp [step, going]
    | redirect going r target rest applied => simp [step, going, applied, Except.map]
    | skip op ends idle =>
        rcases idle with hterm | ⟨rfl, hfresh⟩
        · rcases Operator.isTerminator_iff.1 ends with rfl | rfl <;> simp [step, hterm]
        · simp [step, hfresh]
    | pipe going named => simp [step, going, close_of_named _ named, Except.map]
    | terminate going named op ends =>
        rcases Operator.isTerminator_iff.1 ends with rfl | rfl <;>
          simp [step, going, isFresh_eq_false named, close_of_named _ named, Except.map]

/-- Whatever a step reads, reading goes on behind it. -/
theorem Stepped.read_eq {p : PartialPipeline} {part : Part} {rest : List Part}
    {next : PartialPipeline × List Part} (h : p.Stepped part rest next) :
    p.read (part :: rest) = next.1.read next.2 := by
  rw [read_cons, step_eq_ok_iff.2 h]
  rfl

theorem step_length {p : PartialPipeline} {part : Part} {rest : List Part}
    {next : PartialPipeline × List Part} (h : p.step part rest = .ok next) :
    next.2.length < (part :: rest).length := by
  cases step_eq_ok_iff.1 h <;> (simp only [List.length_cons]; omega)

/-- Induction along the steps of a reading that succeeds. -/
theorem read_induction {motive : PartialPipeline → List Part → List Stage → Prop}
    (ended : ∀ p, p.terminated = true → motive p [] p.stages)
    (closed : ∀ p, p.terminated = false → p.current.argv ≠ [] →
      motive p [] (p.stages ++ [p.current]))
    (cons : ∀ p part rest next stages, Stepped p part rest next →
      next.1.read next.2 = .ok stages → motive next.1 next.2 stages →
      motive p (part :: rest) stages)
    {p : PartialPipeline} {parts : List Part} {stages : List Stage}
    (h : p.read parts = .ok stages) : motive p parts stages := by
  induction hn : parts.length using Nat.strongRecOn generalizing p parts stages with
  | ind n ih =>
    subst hn
    cases parts with
    | nil =>
        rw [read] at h
        split_ifs at h with hterm
        · cases h
          exact ended p hterm
        · obtain ⟨closedPipeline, hclose, rfl⟩ := map_eq_ok_iff.1 h
          obtain ⟨hargv, rfl⟩ := close_eq_ok_iff.1 hclose
          exact closed p (by simpa using hterm) hargv
    | cons part rest =>
        rw [read_cons] at h
        obtain ⟨next, hstep, hread⟩ := bind_eq_ok_iff.1 h
        exact cons p part rest next stages (step_eq_ok_iff.1 hstep) hread
          (ih next.2.length (step_length hstep) hread rfl)

/-- What a word and a redirection keep of a command holds of every command that is read, and each
of them has words. -/
theorem forall_of_read {P : Stage → Prop} (empty : P {})
    (word : ∀ stage w, P stage → P { stage with argv := stage.argv ++ [w] })
    (redirect : ∀ stage r target redirects, P stage →
      stage.redirects.apply r target = .ok redirects → P { stage with redirects := redirects })
    {p : PartialPipeline} {parts : List Part} {stages : List Stage} (h : p.read parts = .ok stages)
    (hcurrent : P p.current) (hstages : ∀ stage ∈ p.stages, P stage ∧ stage.argv ≠ []) :
    ∀ stage ∈ stages, P stage ∧ stage.argv ≠ [] := by
  have hclosed : ∀ p : PartialPipeline, P p.current → p.current.argv ≠ [] →
      (∀ stage ∈ p.stages, P stage ∧ stage.argv ≠ []) →
      ∀ stage ∈ p.stages ++ [p.current], P stage ∧ stage.argv ≠ [] := by
    intro p hcurrent hargv hstages stage hstage
    rcases List.mem_append.1 hstage with hstage | hstage
    · exact hstages stage hstage
    · obtain rfl := List.mem_singleton.1 hstage
      exact ⟨hcurrent, hargv⟩
  revert hcurrent hstages
  refine read_induction (motive := fun p _ stages ↦ P p.current →
    (∀ stage ∈ p.stages, P stage ∧ stage.argv ≠ []) →
    ∀ stage ∈ stages, P stage ∧ stage.argv ≠ []) ?_ ?_ ?_ h
  · intro p _ _ hstages
    exact hstages
  · intro p _ hargv hcurrent hstages
    exact hclosed p hcurrent hargv hstages
  · intro p part rest next stages hstepped _ ih hcurrent hstages
    cases hstepped with
    | word _ w => exact ih (word _ w hcurrent) hstages
    | redirect _ r target _ applied => exact ih (redirect _ r target _ hcurrent applied) hstages
    | skip => exact ih hcurrent hstages
    | pipe _ named | terminate _ named => exact ih empty (hclosed p hcurrent named hstages)

/-- Whatever stands before an operator, it is read on its own. -/
theorem exists_read_operator {p : PartialPipeline} {before after : List Part} {op : Operator}
    {stages : List Stage} (h : p.read (before ++ .operator op :: after) = .ok stages) :
    ∃ p' : PartialPipeline, p'.read (.operator op :: after) = .ok stages := by
  induction hn : before.length using Nat.strongRecOn generalizing p before with
  | ind n ih =>
    subst hn
    cases before with
    | nil => exact ⟨p, h⟩
    | cons part before =>
        rw [List.cons_append, read_cons] at h
        obtain ⟨next, hstep, hread⟩ := bind_eq_ok_iff.1 h
        have hbehind : next.2 = before ++ .operator op :: after →
            ∃ p' : PartialPipeline, p'.read (.operator op :: after) = .ok stages := fun hnext ↦
          ih before.length (by simp) (hnext ▸ hread) rfl
        generalize hrest : before ++ .operator op :: after = rest at hstep hbehind
        cases step_eq_ok_iff.1 hstep with
        | word | skip | pipe | terminate => exact hbehind rfl
        | redirect _ r target rest' =>
            cases before with
            | nil => cases hrest
            | cons first before =>
                obtain ⟨-, rfl⟩ := List.cons.inj hrest
                exact ih before.length (by simp only [List.length_cons]; omega) hread rfl

def words (p : PartialPipeline) : List Word := p.stages.flatMap Stage.words ++ p.current.words

theorem Stepped.mem_words {p : PartialPipeline} {part : Part} {rest : List Part}
    {next : PartialPipeline × List Part} (h : p.Stepped part rest next) {w : Word}
    (hw : w ∈ next.1.words ∨ .word w ∈ next.2) : w ∈ p.words ∨ .word w ∈ part :: rest := by
  cases h with
  | word _ w' rest =>
      simp only [words, List.mem_append, Stage.mem_words, List.mem_cons] at hw ⊢
      aesop
  | redirect _ r target rest happly =>
      simp only [words, List.mem_append, Stage.mem_words, List.mem_cons] at hw ⊢
      rcases hw with (hw | hw | ⟨fd, mode, hw⟩) | hw
      · exact .inl (.inl hw)
      · exact .inl (.inr (.inl hw))
      · rcases Redirects.mem_apply happly hw with rfl | ⟨fd, hw⟩
        · exact .inr (.inr (.inl rfl))
        · exact .inl (.inr (.inr ⟨fd, mode, hw⟩))
      · exact .inr (.inr (.inr hw))
  | skip op _ _ rest => exact hw.imp_right fun hw ↦ by simp [hw]
  | pipe | terminate =>
      rcases hw with hw | hw
      · exact .inl (by simpa [words, Stage.words] using hw)
      · exact .inr (by simp [hw])

theorem mem_of_read {p : PartialPipeline} {parts : List Part} {stages : List Stage}
    (h : p.read parts = .ok stages) {stage : Stage} (hstage : stage ∈ stages) {w : Word}
    (hw : w ∈ stage.words) : w ∈ p.words ∨ .word w ∈ parts := by
  suffices ∀ stage ∈ stages, w ∈ stage.words → w ∈ p.words ∨ .word w ∈ parts from
    this stage hstage hw
  clear hstage hw
  refine read_induction (motive := fun p parts stages ↦
    ∀ stage ∈ stages, w ∈ stage.words → w ∈ p.words ∨ .word w ∈ parts) ?_ ?_ ?_ h
  · intro p _ stage hstage hw
    exact .inl (List.mem_append_left _ (List.mem_flatMap.2 ⟨stage, hstage, hw⟩))
  · intro p _ _ stage hstage hw
    have hmem : w ∈ (p.stages ++ [p.current]).flatMap Stage.words :=
      List.mem_flatMap.2 ⟨stage, hstage, hw⟩
    exact .inl (by simpa [words] using hmem)
  · intro p part rest next stages hstepped _ ih stage hstage hw
    exact hstepped.mem_words (ih stage hstage hw)

theorem duplicated_of_read {p : PartialPipeline} {parts : List Part} {stages : List Stage}
    (h : p.read parts = .ok stages) {r : Redirect} {w : Word} (hr : r.kind.isDuplication = true)
    (hpair : [.operator (.redirect r), .word w] <:+: parts) : (duplicated? w).isSome = true := by
  refine read_induction (motive := fun _ parts _ ↦
    [Part.operator (.redirect r), .word w] <:+: parts → (duplicated? w).isSome = true)
    ?_ ?_ ?_ h hpair
  · intro p _ hpair
    simp at hpair
  · intro p _ _ hpair
    simp at hpair
  · intro p part rest next stages hstepped _ ih hpair
    cases hstepped with
    | redirect _ r' target rest applied =>
        rcases List.infix_cons_iff.1 hpair with hstart | hpair
        · obtain ⟨hop, hstart⟩ := List.cons_prefix_cons.1 hstart
          obtain ⟨htarget, _⟩ := List.cons_prefix_cons.1 hstart
          cases hop
          cases htarget
          unfold Redirects.apply at applied
          cases hkind : r.kind with
          | out | append | input => simp [hkind, RedirectKind.isDuplication] at hr
          | dupOut | dupIn =>
              simp only [hkind] at applied
              split at applied
              · rename_i source hsource
                rw [hsource]
                rfl
              · cases applied
        · rcases List.infix_cons_iff.1 hpair with hstart | hpair
          · obtain ⟨hop, _⟩ := List.cons_prefix_cons.1 hstart
            cases hop
          · exact ih hpair
    | word _ w' rest =>
        refine ih ((List.infix_cons_iff.1 hpair).resolve_left fun hstart ↦ ?_)
        cases (List.cons_prefix_cons.1 hstart).1
    | pipe =>
        refine ih ((List.infix_cons_iff.1 hpair).resolve_left fun hstart ↦ ?_)
        cases (List.cons_prefix_cons.1 hstart).1
    | skip op ends | terminate _ _ op ends =>
        refine ih ((List.infix_cons_iff.1 hpair).resolve_left fun hstart ↦ ?_)
        obtain rfl : op = .redirect r :=
          (Part.operator.inj (List.cons_prefix_cons.1 hstart).1).symm
        cases ends

/-- A step that ends before a newline at the end does not need it. -/
theorem step_of_newline {p : PartialPipeline} {part : Part} {rest : List Part}
    {next : PartialPipeline × List Part}
    (h : p.step part (rest ++ [.operator .newline]) = .ok next) :
    ∃ behind, p.step part rest = .ok (next.1, behind) ∧ next.2 = behind ++ [.operator .newline] := by
  cases part with
  | word w =>
      simp only [step] at h ⊢
      split_ifs at h ⊢
      cases h
      exact ⟨rest, rfl, rfl⟩
  | operator op =>
      cases op with
      | redirect r =>
          simp only [step] at h ⊢
          split_ifs at h ⊢
          match rest with
          | [] => cases h
          | .operator op :: rest => cases h
          | .word target :: rest =>
              obtain ⟨redirects, happly, rfl⟩ := map_eq_ok_iff.1 h
              exact ⟨rest, map_eq_ok_iff.2 ⟨redirects, happly, rfl⟩, rfl⟩
      | pipe | semicolon | newline =>
          simp only [step] at h ⊢
          split_ifs at h ⊢
          all_goals first
            | (cases h; exact ⟨rest, rfl, rfl⟩)
            | (obtain ⟨closed, hclose, rfl⟩ := map_eq_ok_iff.1 h
               exact ⟨rest, map_eq_ok_iff.2 ⟨closed, hclose, rfl⟩, rfl⟩)
      | background | and | or | openParen | closeParen => cases h

/-- A newline at the end makes no difference to a reading that succeeds. -/
theorem read_of_newline {p : PartialPipeline} {parts : List Part} {stages : List Stage}
    (h : p.read (parts ++ [.operator .newline]) = .ok stages) : p.read parts = .ok stages := by
  induction hn : parts.length using Nat.strongRecOn generalizing p parts with
  | ind n ih =>
    subst hn
    cases parts with
    | nil =>
        rw [List.nil_append, read_cons] at h
        obtain ⟨next, hstep, hread⟩ := bind_eq_ok_iff.1 h
        simp only [step] at hstep
        split_ifs at hstep with hskip
        · cases hstep
          exact hread
        · obtain ⟨closed, hclose, rfl⟩ := map_eq_ok_iff.1 hstep
          rw [read, if_pos rfl] at hread
          cases hread
          have hterm : p.terminated = false := by simp_all
          obtain ⟨hargv, rfl⟩ := close_eq_ok_iff.1 hclose
          rw [read, hterm, if_neg (by simp)]
          exact map_eq_ok_iff.2 ⟨_, close_eq_ok_iff.2 ⟨hargv, rfl⟩, rfl⟩
    | cons part rest =>
        rw [List.cons_append, read_cons] at h
        obtain ⟨next, hstep, hread⟩ := bind_eq_ok_iff.1 h
        obtain ⟨behind, hstep', hbehind⟩ := step_of_newline hstep
        rw [hbehind] at hread
        rw [read_cons, hstep']
        exact ih _ (step_length hstep') hread rfl

end PartialPipeline

theorem stagesOfParts_of_newlines {parts : List Part} {stages : List Stage} (n : Nat)
    (h : stagesOfParts (parts ++ List.replicate n (.operator .newline)) = .ok stages) :
    stagesOfParts parts = .ok stages := by
  induction n with
  | zero => simpa using h
  | succ n ih =>
      rw [List.replicate_succ', ← List.append_assoc] at h
      exact ih (PartialPipeline.read_of_newline h)

theorem mem_parts_of_mem_words {parts : List Part} {stages : List Stage}
    (h : stagesOfParts parts = .ok stages) {stage : Stage} (hstage : stage ∈ stages) {w : Word}
    (hw : w ∈ stage.words) : .word w ∈ parts := by
  simpa [PartialPipeline.words, Stage.words] using PartialPipeline.mem_of_read h hstage hw

end ShellTemplate
