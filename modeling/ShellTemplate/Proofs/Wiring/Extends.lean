import ShellTemplate.Proofs.Starting

/-!
# Hosts with more channels and pipes

While the stages of a run are started the host gets new channels and pipes and keeps the old ones as
they are. What a channel leads to can therefore be said once the run has been started.
-/

namespace ShellTemplate

namespace World

/-- The second host has all channels and pipes of the first, as they were. -/
structure Extends (w w' : World) : Prop where
  channelCount : w.channels.size ≤ w'.channels.size
  pipeCount : w.pipes.size ≤ w'.pipes.size
  channels : ∀ channel < w.channels.size, w'.channels[channel]? = w.channels[channel]?
  pipes : ∀ pipe < w.pipes.size, w'.pipes[pipe]? = w.pipes[pipe]?

variable {w w' w'' : World}

@[refl] theorem Extends.refl (w : World) : w.Extends w :=
  ⟨Nat.le_refl _, Nat.le_refl _, fun _ _ ↦ rfl, fun _ _ ↦ rfl⟩

theorem Extends.trans (h : w.Extends w') (h' : w'.Extends w'') : w.Extends w'' where
  channelCount := Nat.le_trans h.channelCount h'.channelCount
  pipeCount := Nat.le_trans h.pipeCount h'.pipeCount
  channels channel hlt := by
    rw [h'.channels channel (Nat.lt_of_lt_of_le hlt h.channelCount), h.channels channel hlt]
  pipes pipe hlt := by
    rw [h'.pipes pipe (Nat.lt_of_lt_of_le hlt h.pipeCount), h.pipes pipe hlt]

theorem Extends.channel_eq (h : w.Extends w') {channel : Nat} {c : Channel}
    (hc : w.channels[channel]? = some c) : w'.channels[channel]? = some c := by
  obtain ⟨hlt, -⟩ := Array.getElem?_eq_some_iff.1 hc
  rw [h.channels channel hlt, hc]

theorem Extends.pipe_eq (h : w.Extends w') {pipe : Nat} {p : Pipe}
    (hp : w.pipes[pipe]? = some p) : w'.pipes[pipe]? = some p := by
  obtain ⟨hlt, -⟩ := Array.getElem?_eq_some_iff.1 hp
  rw [h.pipes pipe hlt, hp]

theorem extends_push (w : World) (tree : FileTree) (c : Channel) :
    w.Extends { w with tree, channels := w.channels.push c } where
  channelCount := by simp
  pipeCount := Nat.le_refl _
  channels channel hlt := by simp [Array.getElem?_push, Nat.ne_of_lt hlt]
  pipes _ _ := rfl

theorem extends_pushPipe (w : World) (p : Pipe) (c : Channel) :
    w.Extends { w with pipes := w.pipes.push p, channels := w.channels.push c } where
  channelCount := by simp
  pipeCount := by simp
  channels channel hlt := by simp [Array.getElem?_push, Nat.ne_of_lt hlt]
  pipes pipe hlt := by simp [Array.getElem?_push, Nat.ne_of_lt hlt]

/-- The channel is there, and if it leads to a pipe then to one of the first of them. -/
structure LeadsBack (count : Nat) (w : World) (channel : Nat) : Prop where
  lt : channel < w.channels.size
  pipe_lt : ∀ pipe, w.channels[channel]? = some (.pipe pipe) → pipe < count

theorem LeadsBack.mono {count : Nat} {channel : Nat} (h : w.LeadsBack count channel)
    (hextends : w.Extends w') : w'.LeadsBack count channel where
  lt := Nat.lt_of_lt_of_le h.lt hextends.channelCount
  pipe_lt pipe hpipe := h.pipe_lt pipe ((hextends.channels channel h.lt).symm.trans hpipe)

end World

/-- A pipe has this data to read and ends behind it. -/
structure Pipe.Holds (p : Pipe) (data : ByteText) : Prop where
  chunks : p.chunks.reverse.flatMap Chunk.data = data
  ending : ∃ time, p.ending = .eof time

theorem modify_push_size {α : Type} (entries : Array α) (x : α) (f : α → α) :
    (entries.push x).modify entries.size f = entries.push (f x) := by
  refine Array.ext_getElem? fun i ↦ ?_
  simp only [Array.getElem?_modify, Array.getElem?_push]
  by_cases hi : i = entries.size
  · simp [hi]
  · simp [hi, Ne.symm hi]

namespace Act

variable {w w' : World}

theorem gives_newChannel {c : Channel} {channel : Nat}
    (h : (newChannel c).Gives w channel w') :
    w.Extends w' ∧ channel = w.channels.size ∧ w'.channels[channel]? = some c ∧
      w'.pipes = w.pipes := by
  cases h
  exact ⟨w.extends_push w.tree c, rfl, by simp, rfl⟩

theorem gives_newPipe {pipe channel : Nat} (h : newPipe.Gives w (pipe, channel) w') :
    w.Extends w' ∧ pipe = w.pipes.size ∧ channel = w.channels.size ∧
      w'.channels[channel]? = some (.pipe pipe) ∧ w'.pipes[pipe]? = some {} := by
  cases h
  exact ⟨w.extends_pushPipe {} _, rfl, rfl, by simp, by simp⟩

theorem gives_pipeWith {data : ByteText} {channel : Nat} (h : (pipeWith data).Gives w channel w') :
    w.Extends w' ∧ channel = w.channels.size ∧
      w'.channels[channel]? = some (.pipe w.pipes.size) ∧
      ∃ p, w'.pipes[w.pipes.size]? = some p ∧ p.Holds data := by
  cases h
  simp only [World.changePipe, modify_push_size, true_and]
  refine ⟨w.extends_pushPipe _ _, by simp, _, Array.getElem?_push_size, ?_, w.clock, rfl⟩
  cases data <;> simp

end Act

end ShellTemplate
