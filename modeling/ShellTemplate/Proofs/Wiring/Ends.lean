import ShellTemplate.Proofs.Wiring.Extends

/-!
# The ends of standard descriptors

Opening the files of a stage and giving its descriptors their channels only adds to the host. Each
channel leads to where the wiring says: to a file, to the neighbour, to the caller, to a pipe made
for it, or nowhere.
-/

namespace ShellTemplate

namespace World

variable {v w w' w'' : World} {channel : Option Nat}

/-- The channel is one that was made to lead nowhere. -/
def MakesNull (w w' : World) (channel : Option Nat) : Prop :=
  ∃ c, channel = some c ∧ w.channels.size ≤ c ∧ w'.channels[c]? = some (.device .null)

/-- The channel is one that was made to lead to a new pipe. -/
def MakesPipe (w w' : World) (channel : Option Nat) (pipe : Nat) (p : Pipe) : Prop :=
  ∃ c, channel = some c ∧ w.channels.size ≤ c ∧ w.pipes.size ≤ pipe ∧
    w'.channels[c]? = some (.pipe pipe) ∧ w'.pipes[pipe]? = some p

theorem MakesNull.mono (h : w.MakesNull w' channel) (hbefore : v.Extends w)
    (hbehind : w'.Extends w'') : v.MakesNull w'' channel := by
  obtain ⟨c, hchannel, hle, hnull⟩ := h
  exact ⟨c, hchannel, Nat.le_trans hbefore.channelCount hle, hbehind.channel_eq hnull⟩

theorem MakesPipe.mono {pipe : Nat} {p : Pipe} (h : w.MakesPipe w' channel pipe p)
    (hbefore : v.Extends w) (hbehind : w'.Extends w'') : v.MakesPipe w'' channel pipe p := by
  obtain ⟨c, hchannel, hle, hpipeLe, hpipe, hcontent⟩ := h
  exact ⟨c, hchannel, Nat.le_trans hbefore.channelCount hle,
    Nat.le_trans hbefore.pipeCount hpipeLe, hbehind.channel_eq hpipe, hbehind.pipe_eq hcontent⟩

/-- The channel of an output without a file: it is captured, discarded or passed on. -/
def LeadsOut (w w' : World) (caller : Process) (fd : Nat) (captured quiet : Bool)
    (channel : Option Nat) : Prop :=
  if captured then ∃ pipe, w.MakesPipe w' channel pipe {}
  else if quiet then w.MakesNull w' channel
  else channel = caller.channel? fd

end World

/-- A standard input leads to this end. -/
def InputEnd.Leads (caller : Process) (file predecessor : Option Nat) (w w' : World)
    (channel : Option Nat) : InputEnd → Prop
  | .file => channel = file
  | .predecessor => channel = predecessor
  | .callerStdin => channel = caller.channel? 0
  | .supplied data => ∃ pipe p, w.MakesPipe w' channel pipe p ∧ p.Holds (ByteText.ofBytes data)
  | .empty => w.MakesNull w' channel

/-- A standard output leads to this end, and the pipe is the one that was made for it. -/
def OutputEnd.Leads (caller : Process) (fd : Nat) (file : Option Nat) (w w' : World)
    (channel pipe : Option Nat) : OutputEnd → Prop
  | .file => channel = file ∧ pipe = none
  | .downstream | .captured => ∃ id, pipe = some id ∧ w.MakesPipe w' channel id {}
  | .caller => channel = caller.channel? fd ∧ pipe = none
  | .discarded => w.MakesNull w' channel ∧ pipe = none

section Leads

variable {caller : Process} {file predecessor channel pipe : Option Nat} {fd : Nat}
  {v w w' w'' : World}

theorem InputEnd.Leads.mono {wire : InputEnd}
    (h : wire.Leads caller file predecessor w w' channel) (hbefore : v.Extends w)
    (hbehind : w'.Extends w'') : wire.Leads caller file predecessor v w'' channel := by
  cases wire with
  | file | predecessor | callerStdin => exact h
  | supplied =>
      obtain ⟨pipe, p, hpipe, hholds⟩ := h
      exact ⟨pipe, p, hpipe.mono hbefore hbehind, hholds⟩
  | empty => exact World.MakesNull.mono h hbefore hbehind

theorem OutputEnd.Leads.mono {wire : OutputEnd} (h : wire.Leads caller fd file w w' channel pipe)
    (hbefore : v.Extends w) (hbehind : w'.Extends w'') :
    wire.Leads caller fd file v w'' channel pipe := by
  cases wire with
  | file | caller => exact h
  | downstream | captured =>
      obtain ⟨id, hid, hpipe⟩ := h
      exact ⟨id, hid, hpipe.mono hbefore hbehind⟩
  | discarded => exact ⟨h.1.mono hbefore hbehind, h.2⟩

theorem OutputEnd.Leads.leadsOut {captured quiet : Bool}
    (h : (if captured then OutputEnd.captured else if quiet then .discarded else .caller).Leads
      caller fd file w w' channel pipe) : w.LeadsOut w' caller fd captured quiet channel := by
  unfold World.LeadsOut
  split_ifs at h ⊢
  · obtain ⟨id, -, hpipe⟩ := h
    exact ⟨id, hpipe⟩
  · exact h.1
  · exact h.1

end Leads

namespace Execution

variable {caller : Process} {options : RunOptions} {w w' : World}

/-- Opening a path makes a channel that leads to no pipe, or gives one that the process has. -/
theorem gives_openPath {path : ByteText} {mode : FileMode} {channel : Nat}
    (h : (caller.openPath path mode).Gives w (.ok channel) w') :
    w.Extends w' ∧ ((∃ fd, caller.channel? fd = some channel) ∨ w'.LeadsBack 0 channel) := by
  unfold Process.openPath at h
  split at h
  · split at h
    case h_1 fd _ channel' hchannel =>
      obtain ⟨hok, rfl⟩ := Act.gives_pure.1 h
      cases hok
      exact ⟨.refl _, .inl ⟨_, hchannel⟩⟩
    case h_2 =>
      obtain ⟨hok, -⟩ := Act.gives_pure.1 h
      cases hok
  · unfold Act.openPath at h
    obtain ⟨world, w₁, hworld, h⟩ := Act.gives_bind.1 h
    cases hworld
    split at h
    case h_1 =>
      obtain ⟨hok, -⟩ := Act.gives_pure.1 h
      cases hok
    case h_2 tree opened _ =>
      obtain ⟨⟨⟩, w₂, hset, h⟩ := Act.gives_bind.1 h
      cases hset
      obtain ⟨made, w₃, hmade, h⟩ := Act.gives_bind.1 h
      obtain ⟨hok, rfl⟩ := Act.gives_pure.1 h
      cases hok
      cases hmade
      refine ⟨World.extends_push _ _ _, .inr ⟨by simp, fun pipe hpipe ↦ ?_⟩⟩
      rw [Array.getElem?_push_size] at hpipe
      cases opened <;> cases hpipe

/-- The files of a stage lead to no pipe, apart from those that the caller has. -/
theorem gives_openFiles {openings : List Opening} {opened files : List (Nat × Nat)}
    (h : (openFiles caller options openings opened).Gives w (.ok files) w') :
    w.Extends w' ∧ ∀ count, (∀ fd channel, caller.channel? fd = some channel →
      w.LeadsBack count channel) → (∀ entry ∈ opened, w.LeadsBack count entry.2) →
      ∀ entry ∈ files, w'.LeadsBack count entry.2 := by
  induction openings generalizing opened w with
  | nil =>
      obtain ⟨hok, rfl⟩ := Act.gives_pure.1 h
      cases hok
      exact ⟨.refl _, fun _ _ hopened ↦ hopened⟩
  | cons opening rest ih =>
      cases opening with
      | shared fd earlier =>
          unfold openFiles at h
          obtain ⟨hextends, hfiles⟩ := ih h
          refine ⟨hextends, fun count hcaller hopened ↦ hfiles count hcaller fun entry hentry ↦ ?_⟩
          rcases List.mem_append.1 hentry with hentry | hentry
          · exact hopened entry hentry
          · rw [Option.mem_toList, Option.map_eq_some_iff] at hentry
            obtain ⟨channel, hchannel, rfl⟩ := hentry
            obtain ⟨before, behind, rfl, -⟩ := List.lookup_eq_some_iff.1 hchannel
            exact hopened (earlier, channel) (by simp)
      | fresh fd path mode =>
          unfold openFiles at h
          obtain ⟨answer, w₁, hanswer, h⟩ := Act.gives_bind.1 h
          cases answer with
          | error cause =>
              obtain ⟨hok, -⟩ := Act.gives_pure.1 h
              cases hok
          | ok channel =>
              obtain ⟨hpath, hchannel⟩ := gives_openPath hanswer
              obtain ⟨hextends, hfiles⟩ := ih h
              refine ⟨hpath.trans hextends, fun count hcaller hopened ↦ ?_⟩
              refine hfiles count (fun fd c hc ↦ (hcaller fd c hc).mono hpath) fun entry hentry ↦ ?_
              rcases List.mem_append.1 hentry with hentry | hentry
              · exact (hopened entry hentry).mono hpath
              · obtain rfl := List.mem_singleton.1 hentry
                rcases hchannel with ⟨own, hown⟩ | hnew
                · exact (hcaller own channel hown).mono hpath
                · exact ⟨hnew.lt, fun pipe hpipe ↦ absurd (hnew.pipe_lt pipe hpipe) (by omega)⟩

theorem gives_inputChannel {file predecessor channel : Option Nat} {wire : InputEnd}
    (h : (inputChannel caller file predecessor wire).Gives w channel w') :
    w.Extends w' ∧ wire.Leads caller file predecessor w w' channel := by
  cases wire with
  | file | predecessor | callerStdin =>
      obtain ⟨rfl, rfl⟩ := Act.gives_pure.1 h
      exact ⟨.refl _, rfl⟩
  | supplied data =>
      obtain ⟨made, hmade, rfl⟩ := Act.gives_map.1 h
      obtain ⟨hextends, rfl, hchannel, p, hp, hholds⟩ := Act.gives_pipeWith hmade
      exact ⟨hextends, w.pipes.size, p,
        ⟨_, rfl, Nat.le_refl _, Nat.le_refl _, hchannel, hp⟩, hholds⟩
  | empty =>
      obtain ⟨made, hmade, rfl⟩ := Act.gives_map.1 h
      obtain ⟨hextends, rfl, hchannel, -⟩ := Act.gives_newChannel hmade
      exact ⟨hextends, _, rfl, Nat.le_refl _, hchannel⟩

theorem gives_outputChannel {fd : Nat} {file channel pipe : Option Nat} {wire : OutputEnd}
    (h : (outputChannel caller fd file wire).Gives w (channel, pipe) w') :
    w.Extends w' ∧ wire.Leads caller fd file w w' channel pipe := by
  cases wire with
  | file | caller =>
      obtain ⟨hends, rfl⟩ := Act.gives_pure.1 h
      cases hends
      exact ⟨.refl _, rfl, rfl⟩
  | downstream | captured =>
      obtain ⟨⟨id, made⟩, w₁, hmade, h⟩ := Act.gives_bind.1 h
      obtain ⟨hends, rfl⟩ := Act.gives_pure.1 h
      cases hends
      obtain ⟨hextends, rfl, rfl, hchannel, hp⟩ := Act.gives_newPipe hmade
      exact ⟨hextends, _, rfl, _, rfl, Nat.le_refl _, Nat.le_refl _, hchannel, hp⟩
  | discarded =>
      obtain ⟨made, w₁, hmade, h⟩ := Act.gives_bind.1 h
      obtain ⟨hends, rfl⟩ := Act.gives_pure.1 h
      cases hends
      obtain ⟨hextends, rfl, hchannel, -⟩ := Act.gives_newChannel hmade
      exact ⟨hextends, ⟨_, rfl, Nat.le_refl _, hchannel⟩, rfl⟩

end Execution

end ShellTemplate
