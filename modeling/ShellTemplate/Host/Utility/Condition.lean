import ShellTemplate.Host.Utility.Basic

/-!
# Conditions

Conditions on texts, numbers and files, as `test` has them in its arguments.
Whether a word is an operator depends on the words behind it.
-/

namespace ShellTemplate.Condition

/-- What a word of a condition is. -/
inductive Token where
  | ending
  | operand
  | negation
  | conjunction
  | disjunction
  | opening
  | closing
  /-- A test of one operand, by its letter. -/
  | unary (letter : Char)
  /-- A test of two operands. -/
  | binary (name : String)
deriving DecidableEq, Repr, Inhabited

/-- Why a condition makes no sense. -/
inductive Fault where
  /-- A condition ends in front of this word. -/
  | unexpected (word : ByteText)
  /-- There is no operand for this operator. -/
  | noOperand (operator : ByteText)
  | unclosed
  | notNumber (word : ByteText)
deriving DecidableEq, Repr, Inhabited

/-- Whether a letter is that of a test of one operand. -/
def isUnary (letter : Char) : Bool := "rwxefdcbpugkstznhOGLS".toList.contains letter

def binaryNames : List String :=
  ["=", "!=", "<", ">", "-eq", "-ne", "-ge", "-gt", "-le", "-lt", "-nt", "-ot", "-ef"]

/-- The operator that a word may be. -/
def operator? (word : ByteText) : Option Token :=
  match word with
  | ['!'] => some .negation
  | ['('] => some .opening
  | [')'] => some .closing
  | ['-', 'a'] => some .conjunction
  | ['-', 'o'] => some .disjunction
  | _ =>
    match binaryNames.find? (·.toList = word), word with
    | some name, _ => some (.binary name)
    | none, ['-', letter] => if isUnary letter then some (.unary letter) else none
    | none, _ => none

def Token.isBinary : Token → Bool
  | .binary _ => true
  | _ => false

/-- What the first of some words is. What looks like a test of one operand is an operand itself
if no word follows, or if a test of two operands does. -/
def nextToken : List ByteText → Token
  | [] => .ending
  | word :: rest =>
    match operator? word, rest with
    | none, _ => .operand
    | some (.unary _), [] | some .opening, [] => .operand
    | some (.unary letter), next :: _ :: _ =>
      if (operator? next).any Token.isBinary then .operand else .unary letter
    | some token, _ => token

/-- The node that a path leads to. -/
def nodeAt? (tree : FileTree) (cwd : Path) (name : ByteText) : Option Node :=
  (tree.resolve cwd name).toOption.bind tree.find?

/-- A test of one operand. Nothing is a terminal, a link or a pipe, and all that is there may be
read and written and belongs to the user. -/
def testOne (tree : FileTree) (cwd : Path) (letter : Char) (operand : ByteText) : Bool :=
  let node := nodeAt? tree cwd operand
  match letter with
  | 'n' => !operand.isEmpty
  | 'z' => operand.isEmpty
  | 'e' | 'r' | 'w' | 'O' | 'G' => node.isSome
  | 'f' =>
    match node with
    | some (.file _) | some (.program _) => true
    | _ => false
  | 'd' => node = some .directory
  | 'c' =>
    match node with
    | some (.device _) => true
    | _ => false
  | 's' =>
    match node with
    | some (.file content) => !content.isEmpty
    | some (.device _) | none => false
    | some _ => true
  | 'x' =>
    match node with
    | some (.program _) | some .directory => true
    | _ => false
  | _ => false

/-- A number of 64 bits, perhaps with a sign, and with blanks around it. -/
def number? (text : ByteText) : Option Int := do
  let body := ((text.dropWhile isSpace).reverse.dropWhile isSpace).reverse
  let n ←
    match body with
    | '-' :: rest => (readDigits? rest).map fun n ↦ -(n : Int)
    | '+' :: rest => (readDigits? rest).map fun n ↦ (n : Int)
    | _ => (readDigits? body).map fun n ↦ (n : Int)
  if n.bmod UInt64.size = n then some n else none

def number (text : ByteText) : Except Fault Int :=
  match number? text with
  | some n => .ok n
  | none => .error (.notNumber text)

/-- A test of two operands. Files are told apart by their paths, and none counts as newer than
another. -/
def testTwo (tree : FileTree) (cwd : Path) (a : ByteText) (name : String) (b : ByteText) :
    Except Fault Bool := do
  let compare (test : Int → Int → Bool) : Except Fault Bool := return test (← number a) (← number b)
  let isThere (path : ByteText) : Bool := (nodeAt? tree cwd path).isSome
  match name with
  | "=" => return a = b
  | "!=" => return a ≠ b
  | "<" => return a.precedes b
  | ">" => return b.precedes a
  | "-eq" => compare (· = ·)
  | "-ne" => compare (· ≠ ·)
  | "-lt" => compare (· < ·)
  | "-le" => compare (· ≤ ·)
  | "-gt" => compare (· > ·)
  | "-ge" => compare (· ≥ ·)
  | "-nt" => return isThere a && !isThere b
  | "-ot" => return !isThere a && isThere b
  | _ => return isThere a && (tree.resolve cwd a).toOption = (tree.resolve cwd b).toOption

/-- What evaluation has come to: the truth so far, the last word that counted, and the words
behind it. -/
structure Reading where
  truth : Bool
  last : ByteText
  rest : List ByteText
deriving DecidableEq, Repr, Inhabited

mutual

/-- Evaluate conditions of which one has to be true. All of them are evaluated. -/
def disjunction (tree : FileTree) (cwd : Path) :
    Nat → Token → List ByteText → Except Fault Reading
  | 0, _, _ => .error .unclosed
  | steps + 1, token, words => do
    let first ← conjunction tree cwd steps token words
    if nextToken first.rest ≠ .disjunction then return first
    let words := first.rest.drop 1
    let others ← disjunction tree cwd steps (nextToken words) words
    return { others with truth := first.truth || others.truth }

/-- Evaluate conditions that all have to be true. -/
def conjunction (tree : FileTree) (cwd : Path) :
    Nat → Token → List ByteText → Except Fault Reading
  | 0, _, _ => .error .unclosed
  | steps + 1, token, words => do
    let first ← negation tree cwd steps token words
    if nextToken first.rest ≠ .conjunction then return first
    let words := first.rest.drop 1
    let others ← conjunction tree cwd steps (nextToken words) words
    return { others with truth := first.truth && others.truth }

/-- Evaluate a condition with negations in front of it. What is missing is false. -/
def negation (tree : FileTree) (cwd : Path) :
    Nat → Token → List ByteText → Except Fault Reading
  | 0, _, _ => .error .unclosed
  | steps + 1, token, words => do
    if token ≠ .negation then return ← primary tree cwd steps token words
    match nextToken (words.drop 1) with
    | .ending => return ⟨true, words.headD [], []⟩
    | token =>
      let reading ← negation tree cwd steps token (words.drop 1)
      return { reading with truth := !reading.truth }

/-- Evaluate a test, or a condition in parentheses. -/
def primary (tree : FileTree) (cwd : Path) :
    Nat → Token → List ByteText → Except Fault Reading
  | 0, _, _ => .error .unclosed
  | steps + 1, token, words => do
    let last := words.headD []
    let rest := words.drop 1
    match token, rest with
    | .ending, _ => return ⟨false, last, []⟩
    | .opening, _ =>
      if nextToken rest = .closing then return ⟨false, [')'], rest.drop 1⟩
      let inner ← disjunction tree cwd steps (nextToken rest) rest
      if nextToken inner.rest = .closing then return ⟨inner.truth, [')'], inner.rest.drop 1⟩
      throw .unclosed
    | .unary _, [] => throw (.noOperand last)
    | .unary letter, operand :: rest =>
      if letter = 't' then discard (number operand)
      return ⟨testOne tree cwd letter operand, operand, rest⟩
    | _, operator :: more =>
      match nextToken rest, more with
      | .binary _, [] => throw (.noOperand operator)
      | .binary name, b :: rest => return ⟨← testTwo tree cwd last name b, b, rest⟩
      | _, _ => return ⟨!last.isEmpty, last, rest⟩
    | _, [] => return ⟨!last.isEmpty, last, []⟩

end

/-- Evaluate a condition that has to end with its last word. -/
def evaluateAll (tree : FileTree) (cwd : Path) (token : Token) (words : List ByteText) :
    Except Fault Bool := do
  let reading ← disjunction tree cwd (4 * words.length + 4) token words
  if reading.rest.isEmpty then return reading.truth else throw (.unexpected reading.last)

/-- Evaluate a condition. With three or four words a negation in front is that of all others,
and parentheses around them are left out; with three words this comes second to a test of two
operands. -/
def evaluate (tree : FileTree) (cwd : Path) (words : List ByteText) : Except Fault Bool :=
  match words with
  | [] => .ok false
  | [a, b, c] =>
    if (operator? b).any Token.isBinary then evaluateAll tree cwd .operand words
    else short a [b] c
  | [a, b, c, d] => short a [b, c] d
  | words => evaluateAll tree cwd (nextToken words) words
where
  short (first : ByteText) (middle : List ByteText) (last : ByteText) : Except Fault Bool :=
    if first = ['('] && last = [')'] then evaluateAll tree cwd (nextToken middle) middle
    else if first = ['!'] then negated (middle ++ [last])
    else
      let words := first :: middle ++ [last]
      evaluateAll tree cwd (nextToken words) words
  /-- All negations in front count as one. -/
  negated (words : List ByteText) : Except Fault Bool := do
    let all (words : List ByteText) : Except Fault Bool :=
      return !(← evaluateAll tree cwd (nextToken words) words)
    match words with
    | [a, b, c] =>
      if (operator? b).any Token.isBinary then return !(← evaluateAll tree cwd .operand words)
      else if a = ['('] && c = [')'] then all [b]
      else if a = ['!'] then all [b, c]
      else all words
    | words => all words

end ShellTemplate.Condition

namespace ShellTemplate.Utility

open Condition in
/-- What `test` says of a condition that makes no sense. -/
def conditionText : Fault → String
  | .unexpected word => s!"extra argument {inQuotes word}"
  | .noOperand operator => s!"missing argument after {inQuotes operator}"
  | .unclosed => "')' expected"
  | .notNumber word => s!"invalid integer {inQuotes word}"

/-- The exit code of a condition. -/
def test (p : Process) (condition : List ByteText) : Act Nat := do
  match Condition.evaluate (← get).tree p.cwd condition with
  | .ok truth => return if truth then 0 else 1
  | .error fault =>
    complain p (conditionText fault)
    return 2

end ShellTemplate.Utility
