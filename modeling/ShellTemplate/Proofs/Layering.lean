import Mathlib.Data.List.Lattice
import ShellTemplate.Config.Reader
import ShellTemplate.Proofs.Variables
import ShellTemplate.Request.Reader

/-!
# Layers of configuration

An overlay that is applied twice is applied once, and two overlays are one overlay. Variables are
taken out before others are added, within an overlay and from one overlay to the next, so an overlay
may take out what one below it has added and may add again what it takes out itself.
-/

namespace ShellTemplate

section Variables

variable {vars above : Variables} {names later : List (List Char)}

/-- Variables with a layer on top: some are taken out, then others are added. -/
def Variables.layer (vars : Variables) (names : List (List Char)) (added : Variables) : Variables :=
  (vars.without names).extend added

theorem Variables.Ordered.layer (h : vars.Ordered) (names : List (List Char)) (added : Variables) :
    (vars.layer names added).Ordered :=
  (h.without names).extend added

theorem Variables.get?_layer (vars : Variables) (names : List (List Char)) (added : Variables)
    (key : List Char) :
    (vars.layer names added).get? key =
      (last? added key).or (if key ∈ names then none else vars.get? key) := by
  rw [layer, get?_extend, get?_without]

theorem Variables.Ordered.layer_twice (h : vars.Ordered) (names : List (List Char))
    (added : Variables) : (vars.layer names added).layer names added = vars.layer names added := by
  refine ((h.layer names added).layer names added).ext (h.layer names added) fun key ↦ ?_
  simp only [get?_layer]
  cases last? added key with
  | some value => rfl
  | none => split_ifs <;> rfl

theorem Variables.Ordered.layer_layer (h : vars.Ordered) (habove : above.Ordered)
    (names later : List (List Char)) (top : Variables) :
    (vars.layer names above).layer later top =
      vars.layer (names ∪ later) (above.layer later top) := by
  refine ((h.layer names above).layer later top).ext (h.layer _ _) fun key ↦ ?_
  have hmiddle : last? (above.layer later top) key =
      (last? top key).or (if key ∈ later then none else last? above key) := by
    rw [(habove.layer later top).last?_eq, get?_layer, habove.last?_eq]
  rw [get?_layer, get?_layer, get?_layer, hmiddle, Option.or_assoc]
  -- Behind what the top layer adds, a name that it takes out is gone on both sides.
  congr 1
  by_cases hlater : key ∈ later
  · simp [hlater]
  · simp [hlater]

end Variables

/-! What is read from a file or a request has its variables in order. -/

section Reading

variable {vars : Variables}

theorem Variables.ordered_extend_nil (more : List (List Char × List Char)) :
    (Variables.extend [] more).Ordered :=
  Ordered.extend .nil more

theorem Toml.ordered_of_variables? {value : Toml} (h : value.variables? = some vars) :
    vars.Ordered := by
  unfold Toml.variables? at h
  split at h
  · cases h
    exact List.pairwise_singleton _ _
  · obtain ⟨pairs, -, hpairs⟩ := Option.bind_eq_some_iff.1 h
    cases hpairs
    exact Variables.ordered_extend_nil pairs
  · cases h

theorem ConfigSection.ordered_of_readD? {exec : ConfigSection} {name : String} {position : Nat}
    {default : Variables} (hdefault : default.Ordered)
    (h : exec.readD? name position Toml.variables? default = some vars) : vars.Ordered := by
  obtain ⟨found, hfound, rfl⟩ := Option.map_eq_some_iff.1 h
  unfold ConfigSection.read? at hfound
  split at hfound
  · cases hfound
    exact hdefault
  · obtain ⟨read, hread, rfl⟩ := Option.map_eq_some_iff.1 hfound
    exact Toml.ordered_of_variables? hread

theorem Config.ordered_of_ofToml? {text : List Char} {c : Config} (h : Config.ofToml? text = some c) :
    c.exec.env.Ordered := by
  unfold Config.ofToml? at h
  iterate 11 obtain ⟨_, -, h⟩ := Option.bind_eq_some_iff.1 h
  obtain ⟨env, henv, h⟩ := Option.bind_eq_some_iff.1 h
  iterate 4 obtain ⟨_, -, h⟩ := Option.bind_eq_some_iff.1 h
  cases h
  exact ConfigSection.ordered_of_readD? .nil henv

theorem Overlay.ordered_of_ofToml? {text : List Char} {o : Overlay}
    (h : Overlay.ofToml? text = some o) : o.exec.env.Ordered := by
  unfold Overlay.ofToml? at h
  iterate 4 obtain ⟨_, -, h⟩ := Option.bind_eq_some_iff.1 h
  split_ifs at h
  iterate 7 obtain ⟨_, -, h⟩ := Option.bind_eq_some_iff.1 h
  obtain ⟨env, henv, h⟩ := Option.bind_eq_some_iff.1 h
  iterate 5 obtain ⟨_, -, h⟩ := Option.bind_eq_some_iff.1 h
  cases h
  exact ConfigSection.ordered_of_readD? .nil henv

theorem Json.ordered_of_variables? {value : Json} (h : value.variables? = some vars) :
    vars.Ordered := by
  unfold Json.variables? at h
  split at h
  · obtain ⟨pairs, -, hpairs⟩ := Option.bind_eq_some_iff.1 h
    cases hpairs
    exact Variables.ordered_extend_nil pairs
  · cases h

theorem Json.ordered_of_withDefault? {name : String} {members : List (List Char × Json)}
    (h : Json.withDefault? name Json.variables? [] members = some vars) : vars.Ordered := by
  obtain ⟨found, -, hfound⟩ := Option.bind_eq_some_iff.1 h
  cases found with
  | none =>
      cases hfound
      exact .nil
  | some value => exact Json.ordered_of_variables? hfound

theorem RequestOptions.ordered_of_ofJson? {value : Json} {options : RequestOptions}
    (h : RequestOptions.ofJson? value = some options) : options.env.Ordered := by
  unfold RequestOptions.ofJson? at h
  split at h
  · iterate 6 obtain ⟨_, -, h⟩ := Option.bind_eq_some_iff.1 h
    obtain ⟨env, henv, h⟩ := Option.bind_eq_some_iff.1 h
    iterate 3 obtain ⟨_, -, h⟩ := Option.bind_eq_some_iff.1 h
    cases h
    exact Json.ordered_of_withDefault? henv
  · iterate 6 obtain ⟨_, -, h⟩ := Option.bind_eq_some_iff.1 h
    obtain ⟨env, henv, h⟩ := Option.bind_eq_some_iff.1 h
    iterate 3 obtain ⟨_, -, h⟩ := Option.bind_eq_some_iff.1 h
    cases h
    exact Json.ordered_of_variables? henv
  · cases h

end Reading

/-- Two overlays as one: where both set something, the second counts. -/
def RunOverlay.followedBy (o₁ o₂ : RunOverlay) : RunOverlay where
  shell := o₂.shell.or o₁.shell
  quiet := o₂.quiet.or o₁.quiet
  capture := o₂.capture.or o₁.capture
  encoding := o₂.encoding.or o₁.encoding
  pipefail := o₂.pipefail.or o₁.pipefail
  captureStderr := o₂.captureStderr.or o₁.captureStderr
  cwd := o₂.cwd.or o₁.cwd
  env := (o₁.env.without o₂.removeEnv).extend o₂.env
  removeEnv := o₁.removeEnv ∪ o₂.removeEnv

def LogOverlay.followedBy (o₁ o₂ : LogOverlay) : LogOverlay where
  enabled := o₂.enabled.or o₁.enabled
  level := o₂.level.or o₁.level
  file := o₂.file.or o₁.file

def Overlay.followedBy (o₁ o₂ : Overlay) : Overlay where
  exec := o₁.exec.followedBy o₂.exec
  listSeparator := o₂.listSeparator.or o₁.listSeparator
  logging := o₁.logging.followedBy o₂.logging

namespace Overlay

theorem getD_twice {α : Type} (x : Option α) (y : α) : x.getD (x.getD y) = x.getD y := by
  cases x <;> rfl

theorem applyRun_followedBy {o₁ : RunOverlay} {c : RunConfig} (h : c.env.Ordered)
    (h₁ : o₁.env.Ordered) (o₂ : RunOverlay) :
    applyRun o₂ (applyRun o₁ c) = applyRun (o₁.followedBy o₂) c := by
  have henv : (applyRun o₂ (applyRun o₁ c)).env = (applyRun (o₁.followedBy o₂) c).env :=
    h.layer_layer h₁ o₁.removeEnv o₂.removeEnv o₂.env
  have hcwd : (o₂.cwd <|> o₁.cwd <|> c.cwd) = (o₂.cwd.or o₁.cwd <|> c.cwd) := by
    cases o₂.cwd <;> rfl
  simp only [applyRun, RunConfig.mk.injEq, RunOverlay.followedBy, Option.getD_or,
    true_and] at henv ⊢
  exact ⟨hcwd, henv⟩

theorem applyRun_twice {c : RunConfig} (h : c.env.Ordered) (o : RunOverlay) :
    applyRun o (applyRun o c) = applyRun o c := by
  have henv : (applyRun o (applyRun o c)).env = (applyRun o c).env :=
    h.layer_twice o.removeEnv o.env
  have hcwd : (o.cwd <|> o.cwd <|> c.cwd) = (o.cwd <|> c.cwd) := by
    cases o.cwd <;> rfl
  simp only [applyRun, RunConfig.mk.injEq, getD_twice, true_and] at henv ⊢
  exact ⟨hcwd, henv⟩

theorem apply_twice {c : Config} (h : c.exec.env.Ordered) (o : Overlay) :
    o.apply (o.apply c) = o.apply c := by
  simp only [apply, applyLog, getD_twice, applyRun_twice h o.exec]

theorem apply_followedBy {c : Config} {o₁ : Overlay} (h : c.exec.env.Ordered)
    (h₁ : o₁.exec.env.Ordered) (o₂ : Overlay) :
    o₂.apply (o₁.apply c) = (o₁.followedBy o₂).apply c := by
  simp only [apply, applyLog, followedBy, LogOverlay.followedBy, Option.getD_or,
    applyRun_followedBy h h₁ o₂.exec]

theorem last?_runOptions {c : Config} {o : Overlay} (h : c.exec.env.Ordered)
    (ho : o.exec.env.Ordered) (caller : Environment) (key : List Char) :
    Variables.last? ((o.apply c).runOptions caller).env key =
      (o.exec.env.get? key).or
        (if key ∈ o.exec.removeEnv then none else c.exec.env.get? key) := by
  have hordered : (c.exec.env.layer o.exec.removeEnv o.exec.env).Ordered := h.layer _ _
  change Variables.last? (c.exec.env.layer o.exec.removeEnv o.exec.env) key = _
  rw [hordered.last?_eq, Variables.get?_layer, ho.last?_eq]

end Overlay

/-- Overlays override as one overlay would, and of the layers that give a variable a value the
topmost one counts. -/
theorem layers_override {c : Config} {o o₁ o₂ : Overlay} {request : RequestOptions}
    (hc : c.exec.env.Ordered) (ho : o.exec.env.Ordered) (h₁ : o₁.exec.env.Ordered)
    (hrequest : request.env.Ordered) :
    o.apply (o.apply c) = o.apply c ∧
      o₂.apply (o₁.apply c) = (o₁.followedBy o₂).apply c ∧
      ∀ (caller : Environment) (key : List Char),
        Variables.last? ((o.apply c).runOptions caller).env key =
          (o.exec.env.get? key).or
            (if key ∈ o.exec.removeEnv then none else c.exec.env.get? key) ∧
        Variables.last? (request.resolve (o.apply c) caller).2.env key =
          (request.env.get? key).or ((o.exec.env.get? key).or
            (if key ∈ o.exec.removeEnv then none else c.exec.env.get? key)) := by
  refine ⟨o.apply_twice hc, Overlay.apply_followedBy hc h₁ o₂, fun caller key ↦ ?_⟩
  have hbase := Overlay.last?_runOptions hc ho caller key
  refine ⟨hbase, ?_⟩
  rw [← hbase, ← hrequest.last?_eq]
  exact Variables.last?_append _ _ _

private def baseVariables : Variables :=
  [("HOME".toList, "/".toList), ("LANG".toList, "C".toList), ("PAGER".toList, "more".toList)]

/-- Takes out `LANG` and `PAGER` and adds `LANG` again. -/
private def restoring : Overlay :=
  { exec := { env := [("LANG".toList, "de".toList)], removeEnv := ["LANG".toList, "PAGER".toList] } }

private def laterOverlay : Overlay :=
  { exec := { env := [("PAGER".toList, "less".toList)], removeEnv := ["LANG".toList] } }

private def baseConfig : Config := { exec := { env := baseVariables } }

theorem layers_override_restored :
    (laterOverlay.apply (restoring.apply baseConfig)).exec.env =
        [("HOME".toList, "/".toList), ("PAGER".toList, "less".toList)] ∧
      ∀ caller, Variables.last? (RequestOptions.resolve { env := [("TERM".toList, "dumb".toList)] }
        (restoring.apply baseConfig) caller).2.env "LANG".toList = some "de".toList := by
  have hlayers := @layers_override baseConfig restoring restoring laterOverlay
    { env := [("TERM".toList, "dumb".toList)] }
    (by decide +kernel) (by decide +kernel) (by decide +kernel) (by decide +kernel)
  constructor
  · rw [hlayers.2.1]
    decide +kernel
  · intro caller
    rw [(hlayers.2.2 caller _).2]
    decide +kernel

end ShellTemplate
