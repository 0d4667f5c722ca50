import ShellTemplate.Template

/-!
# Scanner input

A template flattened into symbols, each with its place: a character of literal
text or a hole. A symbol keeps its place when it is cut out of a backtick
body, so a place always refers to the whole template.
-/

namespace ShellTemplate

inductive Symbol where
  | char (c : Char)
  | hole (index : Nat)
deriving DecidableEq, Repr, Inhabited

/-- A symbol and its place in the template. -/
structure Item where
  symbol : Symbol
  place : Nat
deriving DecidableEq, Repr, Inhabited

/-- The symbols of a segment list whose first hole has number `next`. -/
def symbolsFrom (next : Nat) : List Segment → List Symbol
  | [] => []
  | .literal text :: rest => text.map .char ++ symbolsFrom next rest
  | .hole _ :: rest => .hole next :: symbolsFrom (next + 1) rest

/-- Give each symbol its place, counted from `start`. -/
def placeFrom (start : Nat) : List Symbol → List Item
  | [] => []
  | s :: rest => ⟨s, start⟩ :: placeFrom (start + 1) rest

def Template.symbols (t : Template) : List Symbol := symbolsFrom 0 t.segments

def Template.items (t : Template) : List Item := placeFrom 0 t.symbols

/-- Cut a backtick body off: the items up to the closing backtick, and those behind it.
A backslash before a backslash, a backtick or a dollar sign goes away; a hole or any
other character stays as it is. -/
def cutBody : List Item → Option (List Item × List Item)
  | [] => none
  | ⟨.char '\\', p⟩ :: ⟨.char c, q⟩ :: rest =>
    if c = '\\' ∨ c = '\x60' ∨ c = '$' then
      (cutBody rest).map fun (body, after) ↦ (⟨.char c, q⟩ :: body, after)
    else
      (cutBody (⟨.char c, q⟩ :: rest)).map fun (body, after) ↦ (⟨.char '\\', p⟩ :: body, after)
  | item :: rest =>
    if item.symbol = .char '\x60' then
      some ([], rest)
    else
      (cutBody rest).map fun (body, after) ↦ (item :: body, after)
termination_by items => items.length

/-- A body and what follows it are together shorter than the text they were cut from. -/
theorem cutBody_length {items body rest : List Item} (h : cutBody items = some (body, rest)) :
    body.length + rest.length < items.length := by
  fun_induction cutBody items generalizing body rest with
  | case1 => simp at h
  | case2 p c q tail hc ih =>
    simp only [Option.map_eq_some_iff, Prod.exists, Prod.mk.injEq] at h
    obtain ⟨b, a, hb, rfl, rfl⟩ := h
    have := ih hb
    simp only [List.length_cons]
    omega
  | case3 p c q tail hc ih =>
    simp only [Option.map_eq_some_iff, Prod.exists, Prod.mk.injEq] at h
    obtain ⟨b, a, hb, rfl, rfl⟩ := h
    have := ih hb
    simp only [List.length_cons] at this ⊢
    omega
  | case4 item tail _ hs =>
    simp only [Option.some.injEq, Prod.mk.injEq] at h
    obtain ⟨rfl, rfl⟩ := h
    simp
  | case5 item tail _ hs ih =>
    simp only [Option.map_eq_some_iff, Prod.exists, Prod.mk.injEq] at h
    obtain ⟨b, a, hb, rfl, rfl⟩ := h
    have := ih hb
    simp only [List.length_cons]
    omega

end ShellTemplate
