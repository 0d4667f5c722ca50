import ShellTemplate.Host.Utility.Format.Number

/-!
# Shell arithmetic

Integer expressions with the operators of arithmetic expansion, evaluated as
they are read, in 64-bit arithmetic.
-/

namespace ShellTemplate.Shell

inductive ArithmeticError where
  | expectingPrimary
  | expectingEnd
  | expectingParenthesis
  | expectingColon
  | divisionByZero
  /-- The value of a variable is no number. -/
  | illegalNumber (text : ByteText)
deriving DecidableEq, Repr, Inhabited

namespace ArithmeticError

def message (e : ArithmeticError) (expression : ByteText) : String :=
  let context := s!": \"{String.ofList expression}\""
  match e with
  | .expectingPrimary => "arithmetic expression: expecting primary" ++ context
  | .expectingEnd => "arithmetic expression: expecting EOF" ++ context
  | .expectingParenthesis => "arithmetic expression: expecting ')'" ++ context
  | .expectingColon => "arithmetic expression: expecting ':'" ++ context
  | .divisionByZero => "arithmetic expression: division by zero" ++ context
  | .illegalNumber text => s!"Illegal number: {String.ofList text}"

end ArithmeticError

namespace Arithmetic

/-- An integer brought into the range of 64 bits. -/
def wrap (n : Int) : Int := n.bmod UInt64.size

/-- The operators of two operands that have a result for all of them, with how tightly they
bind. -/
def binaryLevels : List (String × Nat) :=
  [("*", 8), ("/", 8), ("%", 8), ("+", 7), ("-", 7), ("<<", 6), (">>", 6), ("<", 5), (">", 5),
    ("<=", 5), (">=", 5), ("==", 4), ("!=", 4), ("&", 3), ("^", 2), ("|", 1)]

/-- The operators that give a value to a variable, with the operator that they apply first. -/
def assigners : List (String × Option String) :=
  ("=", none) :: ["<<", ">>", "*", "/", "%", "+", "-", "&", "^", "|"].map fun symbol ↦
    (symbol ++ "=", some symbol)

/-- All operators of two operands, those in front of which others begin last. -/
def symbols : List String :=
  ["<<=", ">>=", "<<", ">>", "<=", ">=", "==", "!=", "&&", "||", "*=", "/=", "%=", "+=", "-=", "&=",
    "^=", "|=", "*", "/", "%", "+", "-", "<", ">", "=", "&", "^", "|"]

/-- The blanks between the parts of an expression. -/
def skipSpace (text : ByteText) : ByteText :=
  text.dropWhile fun c ↦ c = ' ' || c = '\t' || c = '\n'

/-- The operator that comes next, and what follows. -/
def nextSymbol? (text : ByteText) : Option (String × ByteText) :=
  let text := skipSpace text
  (symbols.find? fun symbol ↦ symbol.toList.isPrefixOf text).map fun symbol ↦
    (symbol, text.drop symbol.length)

def ofBool (b : Bool) : Int := if b then 1 else 0

/-- The two's complement pattern of a number, as a natural number. -/
def pattern (n : Int) : Nat := (n % UInt64.size).toNat

/-- The result of an operator. -/
def apply (symbol : String) (a b : Int) : Except ArithmeticError Int :=
  match symbol with
  | "*" => .ok (wrap (a * b))
  | "/" => if b = 0 then .error .divisionByZero else .ok (wrap (a.tdiv b))
  | "%" => if b = 0 then .error .divisionByZero else .ok (wrap (a.tmod b))
  | "+" => .ok (wrap (a + b))
  | "-" => .ok (wrap (a - b))
  | "<<" => .ok (wrap (a * Nat.pow 2 (pattern b % 64)))
  | ">>" => .ok (a.fdiv (Nat.pow 2 (pattern b % 64)))
  | "<" => .ok (ofBool (a < b))
  | ">" => .ok (ofBool (a > b))
  | "<=" => .ok (ofBool (a ≤ b))
  | ">=" => .ok (ofBool (a ≥ b))
  | "==" => .ok (ofBool (a = b))
  | "!=" => .ok (ofBool (a ≠ b))
  | "&" => .ok (wrap (pattern a &&& pattern b : Nat))
  | "^" => .ok (wrap (pattern a ^^^ pattern b : Nat))
  | _ => .ok (wrap (pattern a ||| pattern b : Nat))

/-- Evaluation gives values to variables on its way; the last ones come first. -/
abbrev Evaluation := StateT (List (ByteText × Int)) (Except ArithmeticError)

/-- The number that a text denotes; blanks alone denote zero. -/
def readValue (text : ByteText) : Except ArithmeticError Int :=
  let (n, rest) := Format.readWhole text
  if rest.all isSpace && wrap n = n then .ok n else .error (.illegalNumber text)

/-- The value of a variable, which counts as zero if it is not there. -/
def valueOf (lookup : ByteText → Option ByteText) (name : ByteText) : Evaluation Int := do
  match (← get).lookup name with
  | some n => return n
  | none => readValue ((lookup name).getD [])

/-- The name at the start of a text, and what follows. -/
def readName? (text : ByteText) : Option (ByteText × ByteText) :=
  let name := text.takeWhile fun c ↦ c = '_' || isLetter c || isDigit c
  if name.head?.all isDigit then none else some (name, text.drop name.length)

mutual

/-- Evaluate an operand. What an expression does not depend on is read without being looked up
or computed. -/
def operand (lookup : ByteText → Option ByteText) (live : Bool) :
    Nat → ByteText → Evaluation (Int × ByteText)
  | 0, _ => throw .expectingPrimary
  | steps + 1, text => do
    match skipSpace text with
    | '(' :: rest =>
      let (n, rest) ← assignment lookup live steps rest
      match skipSpace rest with
      | ')' :: rest => return (n, rest)
      | _ => throw .expectingParenthesis
    | '-' :: rest =>
      let (n, rest) ← operand lookup live steps rest
      return (wrap (-n), rest)
    | '+' :: rest => operand lookup live steps rest
    | '!' :: rest =>
      let (n, rest) ← operand lookup live steps rest
      return (ofBool (n = 0), rest)
    | '~' :: rest =>
      let (n, rest) ← operand lookup live steps rest
      return (-n - 1, rest)
    | text =>
      match readName? text with
      | some (name, rest) => return (← if live then valueOf lookup name else pure 0, rest)
      | none =>
        if !text.head?.any isDigit then throw .expectingPrimary
        let (n, rest) := Format.readWhole text
        return (min n (Nat.pow 2 63 - 1 : Nat), rest)

/-- Go on behind an operand, over operators that bind at least this tightly. -/
def operators (lookup : ByteText → Option ByteText) (live : Bool) :
    Nat → Nat → Int → ByteText → Evaluation (Int × ByteText)
  | 0, _, _, _ => throw .expectingEnd
  | steps + 1, level, left, text => do
    match (nextSymbol? text).bind fun (symbol, rest) ↦
        (binaryLevels.lookup symbol).map fun tightness ↦ (symbol, tightness, rest) with
    | some (symbol, tightness, rest) =>
      if tightness < level then return (left, text)
      let (right, rest) ← operand lookup live steps rest
      let (right, rest) ← operators lookup live steps (tightness + 1) right rest
      let n ← if live then apply symbol left right else pure right
      operators lookup live steps level n rest
    | none => return (left, text)

/-- Evaluate operands that all have to be true. -/
def conjunction (lookup : ByteText → Option ByteText) (live : Bool) :
    Nat → ByteText → Evaluation (Int × ByteText)
  | 0, _ => throw .expectingPrimary
  | steps + 1, text => do
    let (a, rest) ← operand lookup live steps text
    let (a, rest) ← operators lookup live steps 0 a rest
    match nextSymbol? rest with
    | some ("&&", rest) =>
      let (b, rest) ← conjunction lookup (live && a ≠ 0) steps rest
      return (ofBool (a ≠ 0 && b ≠ 0), rest)
    | _ => return (a, rest)

/-- Evaluate operands of which one has to be true. -/
def disjunction (lookup : ByteText → Option ByteText) (live : Bool) :
    Nat → ByteText → Evaluation (Int × ByteText)
  | 0, _ => throw .expectingPrimary
  | steps + 1, text => do
    let (a, rest) ← conjunction lookup live steps text
    match nextSymbol? rest with
    | some ("||", rest) =>
      let (b, rest) ← disjunction lookup (live && a = 0) steps rest
      return (ofBool (a ≠ 0 || b ≠ 0), rest)
    | _ => return (a, rest)

/-- Evaluate an expression that may choose between two others. -/
def choice (lookup : ByteText → Option ByteText) (live : Bool) :
    Nat → ByteText → Evaluation (Int × ByteText)
  | 0, _ => throw .expectingPrimary
  | steps + 1, text => do
    let (a, rest) ← disjunction lookup live steps text
    match skipSpace rest with
    | '?' :: rest =>
      let (yes, rest) ← assignment lookup (live && a ≠ 0) steps rest
      match skipSpace rest with
      | ':' :: rest =>
        let (no, rest) ← choice lookup (live && a = 0) steps rest
        return (if a ≠ 0 then yes else no, rest)
      | _ => throw .expectingColon
    | _ => return (a, rest)

/-- Evaluate an expression that may give a value to a variable. -/
def assignment (lookup : ByteText → Option ByteText) (live : Bool) :
    Nat → ByteText → Evaluation (Int × ByteText)
  | 0, _ => throw .expectingPrimary
  | steps + 1, text => do
    match readName? (skipSpace text) with
    | none => choice lookup live steps text
    | some (name, rest) =>
      match (nextSymbol? rest).bind fun (symbol, rest) ↦
          (assigners.lookup symbol).map fun applied ↦ (applied, rest) with
      | none => choice lookup live steps text
      | some (applied?, rest) =>
        let (n, rest) ← assignment lookup live steps rest
        if !live then return (n, rest)
        let n ←
          match applied? with
          | some symbol => apply symbol (← valueOf lookup name) n
          | none => pure n
        modify ((name, n) :: ·)
        return (n, rest)

end

/-- The value of an expression, and the values that it gives to variables, in order. -/
def evaluate (lookup : ByteText → Option ByteText) (text : ByteText) :
    Except ArithmeticError (Int × List (ByteText × Int)) := do
  let ((n, rest), assigned) ← (assignment lookup true (6 * text.length + 6) text).run []
  if (skipSpace rest).isEmpty then return (n, assigned.reverse) else throw .expectingEnd

end Arithmetic

end ShellTemplate.Shell
