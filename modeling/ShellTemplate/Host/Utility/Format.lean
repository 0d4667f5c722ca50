import ShellTemplate.Host.Utility.Format.Number
import ShellTemplate.Host.Utility.Quoted

/-!
# Formatted printing

The format language of `printf`: escapes, and conversions that take arguments.
The format is used again as long as arguments are left.
-/

namespace ShellTemplate.Format

/-- What printing has come to. -/
structure Printed where
  /-- The output so far, its last part first. -/
  out : List ByteText := []
  args : List ByteText
  /-- What there is to say about arguments, the last first. -/
  remarks : List Remark := []
  stop : Option Stop := none
  /-- An argument has been asked for. -/
  converted : Bool := false
deriving DecidableEq, Repr, Inhabited

namespace Printed

def text (p : Printed) : ByteText := p.out.reverse.flatten

def add (p : Printed) (text : ByteText) : Printed := { p with out := text :: p.out }

def stopAt (p : Printed) (stop : Stop) : Printed := { p with stop := some stop }

/-- Take the next argument; there is always an empty one. -/
def next (p : Printed) : ByteText × Printed :=
  (p.args.headD [], { p with args := p.args.drop 1, converted := true })

/-- Take the next argument as what a reader makes of it. -/
def nextRead (p : Printed) (read : ByteText → α × Option Remark) : α × Printed :=
  let (arg, p) := p.next
  let (a, remark) := read arg
  (a, { p with remarks := remark.toList ++ p.remarks })

end Printed

/-- Read the flags of a conversion; some of them only the program knows. -/
def readFlags (dialect : Dialect) (s : Spec) : ByteText → Spec × ByteText
  | [] => (s, [])
  | c :: rest =>
    match c with
    | '-' => readFlags dialect { s with left := true } rest
    | '+' => readFlags dialect { s with plus := true } rest
    | ' ' => readFlags dialect { s with space := true } rest
    | '0' => readFlags dialect { s with zero := true } rest
    | '#' => readFlags dialect { s with alternate := true } rest
    | '\'' | 'I' =>
      if dialect = .program then readFlags dialect { s with grouped := true } rest
      else (s, c :: rest)
    | _ => (s, c :: rest)

/-- The largest width and precision. -/
def countLimit : Int := 0x7FFFFFFF

/-- Read a width or a precision; a star takes it from an argument. For the program that has to
be between bounds; for the shell only 32 bits of it count. -/
def readCount (dialect : Dialect) (low : Int) (stop : ByteText → Stop) (p : Printed)
    (text : ByteText) : Int × Printed × ByteText :=
  match text with
  | '*' :: rest =>
    let arg := p.args.headD []
    let (n, p) := p.nextRead (readSigned dialect)
    if dialect ≠ .program then (n.bmod UInt32.size, p, rest)
    else (n, if low ≤ n && n ≤ countLimit then p else p.stopAt (stop arg), rest)
  | _ => (valueIn 10 (text.takeWhile isDigit), p, text.dropWhile isDigit)

/-- Read the width and the precision of a conversion. -/
def readCounts (dialect : Dialect) (s : Spec) (p : Printed) (text : ByteText) :
    Spec × Printed × ByteText :=
  let (width, p, text) := readCount dialect (-countLimit - 1) .noWidth p text
  let s := { s with width := width.natAbs, left := s.left || width < 0 }
  match text with
  | '.' :: text =>
    let (n, p, text) := readCount dialect (-0x8000000000000000) .noPrecision p text
    ({ s with precision := if n < 0 then none else some n.toNat }, p, text)
  | _ => (s, p, text)

/-- Whether the program has a conversion with these flags. The precision counts where it is
written, even if it says nothing. -/
def permits (s : Spec) (hasPrecision : Bool) (conversion : Char) : Bool :=
  "aAcdeEfFgGiosuxX".toList.contains conversion
    && !(s.grouped && "aAceEosxX".toList.contains conversion)
    && !(s.alternate && "cdisu".toList.contains conversion)
    && !(s.zero && "cs".toList.contains conversion)
    && !(hasPrecision && conversion = 'c')

/-- The ways to write a real number, with the letters of the conversions. -/
def realStyle? (conversion : Char) : Option RealStyle :=
  match conversion.toLower with
  | 'f' => some .fixed
  | 'e' => some .scientific
  | 'g' => some .general
  | 'a' => some .hexadecimal
  | _ => none

/-- Print one argument by a conversion, if there is such a conversion. -/
def convert (dialect : Dialect) (s : Spec) (conversion : Char) (p : Printed) : Option Printed :=
  let cut (text : ByteText) : ByteText :=
    match s.precision with
    | some n => text.take n
    | none => text
  let signed : Printed :=
    let (n, p) := p.nextRead (readSigned dialect)
    p.add (s.signed n)
  let unsigned (base : Nat) (upper : Bool) : Printed :=
    let (n, p) := p.nextRead (readUnsigned dialect)
    p.add (s.unsigned base upper n)
  match conversion with
  | 's' =>
    let (text, p) := p.next
    some (p.add (s.pad (cut text)))
  | 'c' =>
    let (text, p) := p.next
    some (p.add (s.pad [text.headD '\x00']))
  | 'b' =>
    if dialect = .shell then
      let (text, p) := p.next
      let (text, stop) := unescape dialect text
      some { p.add (s.pad (cut text)) with stop }
    else none
  | 'd' | 'i' => some signed
  | 'u' => some (unsigned 10 false)
  | 'o' => some (unsigned 8 false)
  | 'x' => some (unsigned 16 false)
  | 'X' => some (unsigned 16 true)
  | _ => (realStyle? conversion).map fun style ↦
    let (x, p) := p.nextRead (readReal dialect)
    p.add (s.real dialect.realFormat style (conversion ≠ conversion.toLower) x)

/-- Print by a directive, given what stands behind its percent sign; what follows it. -/
def direct (dialect : Dialect) (p : Printed) (rest : ByteText) : Printed × ByteText :=
  match dialect, rest with
  | .program, 'b' :: rest =>
    let (arg, p) := p.next
    let (text, stop) := unescape dialect arg
    ({ p.add text with stop }, rest)
  | .program, 'q' :: rest =>
    let hasArgument := !p.args.isEmpty
    let (arg, p) := p.next
    (if hasArgument then p.add (Utility.shellWord arg) else p, rest)
  | _, _ =>
    let (s, text) := readFlags dialect {} rest
    let (s, p, counted) := readCounts dialect s p text
    let hasPrecision := (text.take (text.length - counted.length)).contains '.'
    let text :=
      if dialect = .program then counted.dropWhile "hlLjzt".toList.contains else counted
    let directive (text : ByteText) : ByteText := '%' :: rest.take (rest.length - text.length)
    match p.stop, text with
    | some _, _ => (p, text)
    | none, [] => (p.stopAt (.unfinished (directive [])), [])
    | none, c :: text =>
      let done? :=
        if dialect = .program && !permits s hasPrecision c then none
        else convert dialect s c p
      (done?.getD (p.stopAt (.noConversion (directive text))), text)

/-- Go through the format once. As many steps as it has characters suffice. -/
def pass (dialect : Dialect) : Nat → ByteText → Printed → Printed
  | 0, _, p => p
  | steps + 1, format, p =>
    if p.stop.isSome then p
    else
      match format with
      | [] => p
      | '\\' :: rest =>
        match escape dialect false rest with
        | .error stop => p.stopAt stop
        | .ok (out, rest) => pass dialect steps rest (p.add out)
      | '%' :: '%' :: rest => pass dialect steps rest (p.add ['%'])
      | '%' :: rest =>
        let (p, rest) := direct dialect p rest
        pass dialect steps rest p
      | c :: rest => pass dialect steps rest (p.add [c])

/-- Go through the format until the arguments are used up. Every further time takes at least
one of them. -/
def passes (dialect : Dialect) (format : ByteText) : Nat → Printed → Printed
  | 0, p => p
  | times + 1, p =>
    let q := pass dialect (format.length + 1) format { p with converted := false }
    if q.stop.isSome || q.args.isEmpty || !q.converted then q else passes dialect format times q

/-- What comes of printing arguments by a format. -/
def print (dialect : Dialect) (format : ByteText) (args : List ByteText) : Printed :=
  passes dialect format (args.length + 1) { args }

end ShellTemplate.Format
