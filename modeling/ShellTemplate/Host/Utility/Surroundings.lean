import ShellTemplate.Host.Utility.Basic
import ShellTemplate.Host.Utility.Real

/-!
# `printenv`, `pwd` and `sleep`

The utilities that show a process its surroundings or let it wait.
-/

namespace ShellTemplate.Utility

/-- The values of all entries with a name. A name that is empty or holds an equals sign has
none. -/
def valuesOf (p : Process) (name : ByteText) : List ByteText :=
  if name.isEmpty || name.contains '=' then []
  else p.env.filterMap fun (n, value) ↦ if n = name then some value else none

def printenvOptions : OptionTable where
  flags := "0"
  names := [("null", '0')]
  stopsEarly := true

def printenv (p : Process) : Act Nat :=
  withArguments p printenvOptions 2 fun args ↦ do
    let ending := if args.has '0' then '\x00' else '\n'
    match args.operands with
    | [] =>
      p.write 1 (p.env.flatMap fun (name, value) ↦ name ++ '=' :: value ++ [ending])
      return 0
    | names =>
      names.foldlM (fun code name ↦ do
        let values := valuesOf p name
        p.write 1 (values.flatMap (· ++ [ending]))
        return if values.isEmpty then 1 else code) 0

/-- A time to wait. -/
inductive Duration where
  | micros (n : Nat)
  | endless
deriving DecidableEq, Repr, Inhabited

def Duration.add : Duration → Duration → Duration
  | .micros m, .micros n => .micros (m + n)
  | _, _ => .endless

/-- The seconds in a unit of time. -/
def unitSeconds? : ByteText → Option Nat
  | [] | ['s'] => some 1
  | ['m'] => some 60
  | ['h'] => some 3600
  | ['d'] => some 86400
  | _ => none

/-- A time: a real number that is not below zero, with an optional unit. -/
def Duration.read? (text : ByteText) : Option Duration := do
  let body := text.dropWhile isSpace
  let isNegative := body.head? = some '-'
  let body := if isNegative || body.head? = some '+' then body.drop 1 else body
  let ((size, _), unit) ← RealFormat.double.read? body
  let seconds ← unitSeconds? unit
  match size with
  | .undefined => none
  | .infinite => if isNegative then none else some .endless
  | .finite f =>
    if isNegative && f.numerator ≠ 0 then none
    else
      let micros := f.numerator * seconds * 1000000
      some (.micros ((micros + f.denominator - 1) / f.denominator))

/-- Wait as long as all operands say. -/
def sleep (p : Process) : Act Nat := do
  if p.args.isEmpty then
    Refusal.report ⟨"missing operand", true⟩ p
    return 1
  withArguments p { flags := "" } 1 fun args ↦ do
    match args.operands.filter fun text ↦ (Duration.read? text).isNone with
    | [] =>
      match (args.operands.filterMap Duration.read?).foldl Duration.add (.micros 0) with
      | .micros n =>
        Act.advanceTo ((← get).clock + n)
        return 0
      | .endless => throw .stuck
    | wrong =>
      wrong.forM fun text ↦ complain p s!"invalid time interval {inQuotes text}"
      askForHelp p
      return 1

def pwd (p : Process) : Act Nat :=
  withArguments p { flags := "LP", names := [("logical", 'L'), ("physical", 'P')] } 1 fun args ↦ do
    if !args.operands.isEmpty then complain p "ignoring non-option arguments"
    p.write 1 (p.cwd.text ++ ['\n'])
    return 0

end ShellTemplate.Utility
