import ShellTemplate.Host.Shell.Script
import ShellTemplate.Pipeline

/-!
# Reading shell scripts

A recursive reader from text to commands. It takes a number of steps that is
never used up: each step reads at least one character or goes one level down
in the grammar.
-/

namespace ShellTemplate.Shell

/-- Why a script cannot be read. -/
inductive ScriptError where
  | unterminatedQuotes
  | unterminatedBackticks
  /-- A token where another one, if it is known, has to stand. -/
  | unexpected (token : String) (expected : Option String)
  | badLoopVariable
  | badSubstitution
  | openArithmetic
deriving DecidableEq, Repr, Inhabited

def ScriptError.message : ScriptError → String
  | .unterminatedQuotes => "Syntax error: Unterminated quoted string"
  | .unterminatedBackticks => "Syntax error: EOF in backquote substitution"
  | .unexpected token none => s!"Syntax error: {token} unexpected"
  | .unexpected token (some expected) =>
    s!"Syntax error: {token} unexpected (expecting \"{expected}\")"
  | .badLoopVariable => "Syntax error: Bad for loop variable"
  | .badSubstitution => "Bad substitution"
  | .openArithmetic => "Syntax error: Missing '))'"

def isNameStart (c : Char) : Bool := c = '_' || isLetter c

def isNameChar (c : Char) : Bool := isNameStart c || isDigit c

/-- The characters that end a word outside quotes. -/
def endsWord (c : Char) : Bool :=
  c ∈ [' ', '\t', '\n', ';', '&', '|', '<', '>', '(', ')']

/-- The parameters whose names are no letters. -/
def isSpecialName (c : Char) : Bool := c ∈ ['@', '*', '#', '?', '-', '$', '!'] || isDigit c

/-- Skip blanks, joined lines and a comment before a token. -/
def skipBlanks : Nat → ByteText → ByteText
  | 0, text => text
  | steps + 1, text =>
    match text with
    | ' ' :: rest | '\t' :: rest => skipBlanks steps rest
    | '\\' :: '\n' :: rest => skipBlanks steps rest
    | '#' :: rest => rest.dropWhile (· ≠ '\n')
    | _ => text

def skipSpace (text : ByteText) : ByteText := skipBlanks (text.length + 1) text

/-- Skip blanks and line ends. -/
def skipLines : Nat → ByteText → ByteText
  | 0, text => text
  | steps + 1, text =>
    match skipSpace text with
    | '\n' :: rest => skipLines steps rest
    | text => text

def skipNewlines (text : ByteText) : ByteText := skipLines (text.length + 1) text

/-- The body of a backtick substitution, with one level of backslashes removed, and what
follows. Inside double quotes a backslash is also removed before a double quote. -/
def cutBackticks (inQuotes : Bool) : ByteText → Option (ByteText × ByteText)
  | [] => none
  | '\x60' :: rest => some ([], rest)
  | '\\' :: c :: rest =>
    let removed := c = '\\' || c = '\x60' || c = '$' || (inQuotes && c = '"')
    (cutBackticks inQuotes rest).map fun (body, after) ↦
      (if removed then c :: body else '\\' :: c :: body, after)
  | c :: rest => (cutBackticks inQuotes rest).map fun (body, after) ↦ (c :: body, after)

/-- Put a character in front of the first part of its kind. -/
def consLiteral (c : Char) : List WordPart → List WordPart
  | .literal text :: rest => .literal (c :: text) :: rest
  | parts => .literal [c] :: parts

def consQuoted (text : ByteText) : List WordPart → List WordPart
  | .quoted more :: rest => .quoted (text ++ more) :: rest
  | parts => .quoted text :: parts

/-- The use that the text behind a parameter's name asks for. -/
def parameterUse? : ByteText → Option (ParameterUse × ByteText)
  | ':' :: '-' :: rest => some (.useDefault true, rest)
  | ':' :: '=' :: rest => some (.assignDefault true, rest)
  | ':' :: '?' :: rest => some (.complain true, rest)
  | ':' :: '+' :: rest => some (.alternative true, rest)
  | '-' :: rest => some (.useDefault false, rest)
  | '=' :: rest => some (.assignDefault false, rest)
  | '?' :: rest => some (.complain false, rest)
  | '+' :: rest => some (.alternative false, rest)
  | '%' :: '%' :: rest => some (.trimEnd true, rest)
  | '%' :: rest => some (.trimEnd false, rest)
  | '#' :: '#' :: rest => some (.trimStart true, rest)
  | '#' :: rest => some (.trimStart false, rest)
  | _ => none

/-- The name of a parameter at the start of a text. -/
def parameterName (text : ByteText) : ByteText :=
  match text with
  | c :: _ =>
    if isNameStart c then text.takeWhile isNameChar
    else if isDigit c then text.takeWhile isDigit
    else if isSpecialName c then [c]
    else []
  | [] => []

/-- The words that have a meaning of their own where a command may begin. -/
def reservedWords : List ByteText :=
  ["if", "then", "elif", "else", "fi", "while", "until", "do", "done", "for", "in", "\x7b",
    "\x7d", "!", "case", "esac"].map String.toList

/-- The plain word at the start of a text. -/
def plainWord (text : ByteText) : ByteText := text.takeWhile fun c ↦ !endsWord c

/-- Read a reserved word. -/
def reserved? (word : String) (text : ByteText) : Option ByteText :=
  let text := skipSpace text
  if plainWord text = word.toList then some (text.drop word.length) else none

/-- What the token at the start of a text is called in a message. -/
def tokenName (text : ByteText) : String :=
  match text with
  | [] => "end of file"
  | '\n' :: _ => "newline"
  | '<' :: _ | '>' :: _ => "redirection"
  | ';' :: ';' :: _ => "\";;\""
  | '&' :: '&' :: _ => "\"&&\""
  | '|' :: '|' :: _ => "\"||\""
  | c :: _ =>
    if endsWord c then s!"\"{c}\""
    else if reservedWords.contains (plainWord text) then s!"\"{String.ofList (plainWord text)}\""
    else "word"

/-- Refuse the token at the start of a text. -/
def unexpectedAt (text : ByteText) : ScriptError := .unexpected (tokenName text) none

def expectReserved (word : String) (text : ByteText) : Except ScriptError ByteText :=
  match reserved? word (skipNewlines text) with
  | some rest => .ok rest
  | none => .error (.unexpected (tokenName (skipNewlines text)) (some word))

/-- Read a closing parenthesis. -/
def expectClosing (text : ByteText) : Except ScriptError ByteText :=
  match skipNewlines text with
  | ')' :: rest => .ok rest
  | rest => .error (.unexpected (tokenName rest) (some ")"))

/-- The operator of a redirection, with the digit of a descriptor before it. -/
def redirectOperator? (text : ByteText) : Option (Nat × RedirectKind × ByteText) :=
  let digits := (text.take 1).takeWhile isDigit
  let fd? := readDigits? digits
  match text.drop digits.length with
  | '>' :: '>' :: rest => some (fd?.getD 1, .append, rest)
  | '>' :: '&' :: rest => some (fd?.getD 1, .dupOut, rest)
  | '>' :: '|' :: rest => some (fd?.getD 1, .out, rest)
  | '>' :: rest => some (fd?.getD 1, .out, rest)
  | '<' :: '&' :: rest => some (fd?.getD 0, .dupIn, rest)
  | '<' :: '<' :: _ => none
  | '<' :: rest => some (fd?.getD 0, .input, rest)
  | _ => none

/-- Split an assignment's name off a word. -/
def splitAssignment? (parts : List WordPart) : Option (ByteText × List WordPart) :=
  match parts with
  | .literal text :: rest =>
    let name := text.takeWhile (· ≠ '=')
    if name.length < text.length && Word.isName name then
      let value := text.drop (name.length + 1)
      some (name, if value.isEmpty then rest else .literal value :: rest)
    else none
  | _ => none

/-- Whether a text begins with a word that closes a list of commands. -/
def closesList (text : ByteText) : Bool :=
  ["then", "elif", "else", "fi", "do", "done", "\x7d"].any fun w ↦ plainWord text = w.toList

/-- One command after another, where there is another. -/
def sequenceOf (first : Script) : Script → Script
  | .nothing => first
  | second => .sequence first second

mutual

/-- Read the parts of a word outside quotes, up to a character that ends it; inside the
braces of a parameter expansion only a closing brace does. -/
def readWord : Nat → Bool → ByteText → Except ScriptError ((List WordPart) × ByteText)
  | 0, _, _ => .error (unexpectedAt [])
  | steps + 1, inBraces, text =>
    match text with
    | [] => .ok ([], [])
    | '\'' :: rest => do
      let body := rest.takeWhile (· ≠ '\'')
      if body.length = rest.length then throw .unterminatedQuotes
      let (more, after) ← readWord steps inBraces (rest.drop (body.length + 1))
      return (consQuoted body more, after)
    | '"' :: rest => do
      let (inner, rest) ← readDouble steps false rest
      let (more, after) ← readWord steps inBraces rest
      return (.quoted [] :: inner ++ more, after)
    | '\\' :: '\n' :: rest => readWord steps inBraces rest
    | ['\\'] => .ok ([.quoted ['\\']], [])
    | '\\' :: c :: rest => do
      let (more, after) ← readWord steps inBraces rest
      return (consQuoted [c] more, after)
    | '$' :: rest => do
      let (part, rest) ← readDollar steps false rest
      let (more, after) ← readWord steps inBraces rest
      return (part :: more, after)
    | '\x60' :: rest => do
      let (part, rest) ← readBackticks steps false rest
      let (more, after) ← readWord steps inBraces rest
      return (part :: more, after)
    | c :: rest =>
      if (inBraces && c = '\x7d') || (!inBraces && endsWord c) then .ok ([], text)
      else do
        let (more, after) ← readWord steps inBraces rest
        return (consLiteral c more, after)

/-- Read the parts inside double quotes, up to the closing quote; inside the braces of a
quoted parameter expansion, up to the closing brace. -/
def readDouble : Nat → Bool → ByteText → Except ScriptError ((List WordPart) × ByteText)
  | 0, _, _ => .error (unexpectedAt [])
  | steps + 1, inBraces, text =>
    match text with
    | [] => .error .unterminatedQuotes
    | '"' :: rest =>
      if inBraces then do
        let (inner, rest) ← readDouble steps false rest
        let (more, after) ← readDouble steps inBraces rest
        return (inner ++ more, after)
      else .ok ([], rest)
    | '\\' :: '\n' :: rest => readDouble steps inBraces rest
    | '\\' :: c :: rest => do
      let (more, after) ← readDouble steps inBraces rest
      let removed := c = '$' || c = '\x60' || c = '"' || c = '\\' || (inBraces && c = '\x7d')
      return (consQuoted (if removed then [c] else ['\\', c]) more, after)
    | '$' :: rest => do
      let (part, rest) ← readDollar steps true rest
      let (more, after) ← readDouble steps inBraces rest
      return (part :: more, after)
    | '\x60' :: rest => do
      let (part, rest) ← readBackticks steps true rest
      let (more, after) ← readDouble steps inBraces rest
      return (part :: more, after)
    | c :: rest =>
      if inBraces && c = '\x7d' then .ok ([], rest)
      else do
        let (more, after) ← readDouble steps inBraces rest
        return (consQuoted [c] more, after)

/-- Read an expansion behind its dollar sign. -/
def readDollar : Nat → Bool → ByteText → Except ScriptError (WordPart × ByteText)
  | 0, _, _ => .error (unexpectedAt [])
  | steps + 1, inQuotes, text =>
    match text with
    | '(' :: '(' :: rest => do
      let (inner, rest) ← readArithmetic steps 0 rest
      return (.arithmetic inner inQuotes, rest)
    | '(' :: rest => do
      let (body, rest) ← readList steps rest
      let rest ← expectClosing rest
      return (.substitution body inQuotes, rest)
    | '\x7b' :: rest => readBraces steps inQuotes rest
    | c :: _ =>
      if isNameStart c then
        .ok (.parameter (parameterName text) .value [] inQuotes,
          text.drop (parameterName text).length)
      else if isSpecialName c then .ok (.parameter [c] .value [] inQuotes, text.drop 1)
      else .ok (if inQuotes then .quoted ['$'] else .literal ['$'], text)
    | [] => .ok (if inQuotes then .quoted ['$'] else .literal ['$'], [])

/-- Read a parameter expansion behind its opening brace. -/
def readBraces : Nat → Bool → ByteText → Except ScriptError (WordPart × ByteText)
  | 0, _, _ => .error (unexpectedAt [])
  | steps + 1, inQuotes, text => do
    let name := parameterName text
    let rest := text.drop name.length
    match name, rest with
    | ['#'], '\x7d' :: rest => return (.parameter ['#'] .value [] inQuotes, rest)
    | ['#'], _ :: _ =>
      let inner := parameterName rest
      match inner, rest.drop inner.length with
      | _ :: _, '\x7d' :: rest => return (.parameter inner .length [] inQuotes, rest)
      | _, _ => throw .badSubstitution
    | [], _ => throw .badSubstitution
    | _, '\x7d' :: rest => return (.parameter name .value [] inQuotes, rest)
    | _, rest =>
      match parameterUse? rest with
      | none => throw .badSubstitution
      | some (use, rest) =>
        if inQuotes then
          let (word, rest) ← readDouble steps true rest
          return (.parameter name use word inQuotes, rest)
        else
          let (word, rest) ← readWord steps true rest
          match rest with
          | '\x7d' :: rest => return (.parameter name use word inQuotes, rest)
          | _ => throw (unexpectedAt [])

/-- Read an arithmetic expansion up to its two closing parentheses, given how many others
are open. -/
def readArithmetic : Nat → Nat → ByteText → Except ScriptError ((List WordPart) × ByteText)
  | 0, _, _ => .error (unexpectedAt [])
  | steps + 1, depth, text =>
    match text with
    | [] => .error .openArithmetic
    | ')' :: rest =>
      match depth, rest with
      | 0, ')' :: rest => .ok ([], rest)
      | 0, _ => .error .openArithmetic
      | n + 1, _ => do
        let (more, after) ← readArithmetic steps n rest
        return (consLiteral ')' more, after)
    | '(' :: rest => do
      let (more, after) ← readArithmetic steps (depth + 1) rest
      return (consLiteral '(' more, after)
    | '$' :: rest => do
      let (part, rest) ← readDollar steps true rest
      let (more, after) ← readArithmetic steps depth rest
      return (part :: more, after)
    | '\x60' :: rest => do
      let (part, rest) ← readBackticks steps true rest
      let (more, after) ← readArithmetic steps depth rest
      return (part :: more, after)
    | c :: rest => do
      let (more, after) ← readArithmetic steps depth rest
      return (consLiteral c more, after)

/-- Read a backtick substitution behind its opener. -/
def readBackticks : Nat → Bool → ByteText → Except ScriptError (WordPart × ByteText)
  | 0, _, _ => .error (unexpectedAt [])
  | steps + 1, inQuotes, text => do
    match cutBackticks inQuotes text with
    | none => throw .unterminatedBackticks
    | some (body, after) =>
      let (script, rest) ← readList steps body
      match skipNewlines rest with
      | [] => return (.substitution script inQuotes, after)
      | rest => throw (unexpectedAt rest)

/-- Read a list of commands, up to the end or a token that none of them can begin with. -/
def readList : Nat → ByteText → Except ScriptError (Script × ByteText)
  | 0, _ => .error (unexpectedAt [])
  | steps + 1, text =>
    let text := skipNewlines text
    if text.isEmpty ∨ text.head? = some ')' ∨ closesList text then .ok (.nothing, text)
    else do
      let (first, rest) ← readAndOr steps text
      match skipSpace rest with
      | ';' :: rest => do
        let (more, rest) ← readList steps rest
        return (sequenceOf first more, rest)
      | '\n' :: rest => do
        let (more, rest) ← readList steps rest
        return (sequenceOf first more, rest)
      | '&' :: rest => do
        let (more, rest) ← readList steps rest
        return (sequenceOf (.background first) more, rest)
      | rest => return (first, rest)

/-- Read pipelines connected by `&&` and `||`. -/
def readAndOr : Nat → ByteText → Except ScriptError (Script × ByteText)
  | 0, _ => .error (unexpectedAt [])
  | steps + 1, text => do
    let (first, rest) ← readPipeline steps text
    readConnected steps first rest

/-- Read what is connected to a command by `&&` and `||`. -/
def readConnected : Nat → Script → ByteText → Except ScriptError (Script × ByteText)
  | 0, _, _ => .error (unexpectedAt [])
  | steps + 1, first, text =>
    match skipSpace text with
    | '&' :: '&' :: rest => do
      let (second, rest) ← readPipeline steps (skipNewlines rest)
      readConnected steps (.andThen first second) rest
    | '|' :: '|' :: rest => do
      let (second, rest) ← readPipeline steps (skipNewlines rest)
      readConnected steps (.orElse first second) rest
    | rest => .ok (first, rest)

def readPipeline : Nat → ByteText → Except ScriptError (Script × ByteText)
  | 0, _ => .error (unexpectedAt [])
  | steps + 1, text =>
    match reserved? "!" text with
    | some rest => do
      let (stages, rest) ← readStages steps rest
      return (.pipeline true stages, rest)
    | none => do
      let (stages, rest) ← readStages steps text
      return (match stages with
        | [one] => one
        | stages => .pipeline false stages, rest)

/-- Read commands connected by pipes. -/
def readStages : Nat → ByteText → Except ScriptError ((List Script) × ByteText)
  | 0, _ => .error (unexpectedAt [])
  | steps + 1, text => do
    let (first, rest) ← readCommand steps (skipSpace text)
    match skipSpace rest with
    | '|' :: '|' :: _ => return ([first], rest)
    | '|' :: rest => do
      let (more, rest) ← readStages steps (skipNewlines rest)
      return (first :: more, rest)
    | _ => return ([first], rest)

/-- Read one command. -/
def readCommand : Nat → ByteText → Except ScriptError (Script × ByteText)
  | 0, _ => .error (unexpectedAt [])
  | steps + 1, text =>
    match text with
    | '(' :: rest => do
      let (body, rest) ← readList steps rest
      let rest ← expectClosing rest
      let (redirections, rest) ← readRedirections steps rest
      return (.subshell body redirections, rest)
    | _ =>
      match reserved? "\x7b" text, reserved? "if" text, reserved? "while" text,
        reserved? "until" text, reserved? "for" text with
      | some rest, _, _, _, _ => do
        let (body, rest) ← readList steps rest
        let rest ← expectReserved "\x7d" rest
        let (redirections, rest) ← readRedirections steps rest
        return (.group body redirections, rest)
      | _, some rest, _, _, _ => readConditional steps rest
      | _, _, some rest, _, _ => readLoop steps false rest
      | _, _, _, some rest, _ => readLoop steps true rest
      | _, _, _, _, some rest => readFor steps rest
      | none, none, none, none, none =>
        if reservedWords.contains (plainWord text) then
          .error (unexpectedAt text)
        else do
          let (assignments, words, redirections, rest) ← readSimple steps true text
          if assignments.isEmpty && words.isEmpty && redirections.isEmpty then
            throw (unexpectedAt rest)
          return (.simple (text.count '\n') assignments words redirections, rest)

/-- Read the elements of a simple command; assignments are only possible at its start. -/
def readSimple : Nat → Bool → ByteText → Except ScriptError
    (List (ByteText × List WordPart) × List (List WordPart) × List Redirection × ByteText)
  | 0, _, _ => .error (unexpectedAt [])
  | steps + 1, atStart, text =>
    let text := skipSpace text
    match redirectOperator? text with
    | some (fd, kind, rest) => do
      let (target, rest) ← readWord steps false (skipSpace rest)
      if target.isEmpty then throw (unexpectedAt rest)
      let (assignments, words, redirections, rest) ← readSimple steps atStart rest
      return (assignments, words, .mk fd kind target :: redirections, rest)
    | none =>
      match text with
      | [] => .ok ([], [], [], [])
      | c :: _ =>
        if endsWord c then .ok ([], [], [], text)
        else do
          let (word, rest) ← readWord steps false text
          match if atStart then splitAssignment? word else none with
          | some assignment => do
            let (assignments, words, redirections, rest) ← readSimple steps true rest
            return (assignment :: assignments, words, redirections, rest)
          | none => do
            let (assignments, words, redirections, rest) ← readSimple steps false rest
            return (assignments, word :: words, redirections, rest)

/-- Read the redirections behind a compound command. -/
def readRedirections : Nat → ByteText → Except ScriptError ((List Redirection) × ByteText)
  | 0, _ => .error (unexpectedAt [])
  | steps + 1, text =>
    match redirectOperator? (skipSpace text) with
    | some (fd, kind, rest) => do
      let (target, rest) ← readWord steps false (skipSpace rest)
      let (more, rest) ← readRedirections steps rest
      return (.mk fd kind target :: more, rest)
    | none => .ok ([], text)

/-- Read a conditional behind its first word. -/
def readConditional : Nat → ByteText → Except ScriptError (Script × ByteText)
  | 0, _ => .error (unexpectedAt [])
  | steps + 1, text => do
    let (condition, rest) ← readList steps text
    let rest ← expectReserved "then" rest
    let (yes, rest) ← readList steps rest
    match reserved? "elif" (skipNewlines rest), reserved? "else" (skipNewlines rest) with
    | some rest, _ => do
      let (no, rest) ← readConditional steps rest
      return (.conditional condition yes no, rest)
    | _, some rest => do
      let (no, rest) ← readList steps rest
      let rest ← expectReserved "fi" rest
      return (.conditional condition yes no, rest)
    | none, none => do
      let rest ← expectReserved "fi" rest
      return (.conditional condition yes .nothing, rest)

/-- Read a loop behind its first word. -/
def readLoop : Nat → Bool → ByteText → Except ScriptError (Script × ByteText)
  | 0, _, _ => .error (unexpectedAt [])
  | steps + 1, negated, text => do
    let (condition, rest) ← readList steps text
    let rest ← expectReserved "do" rest
    let (body, rest) ← readList steps rest
    let rest ← expectReserved "done" rest
    return (.loop negated condition body, rest)

/-- Read a loop over words behind its first word. -/
def readFor : Nat → ByteText → Except ScriptError (Script × ByteText)
  | 0, _ => .error (unexpectedAt [])
  | steps + 1, text => do
    let text := skipSpace text
    let name := parameterName text
    if !Word.isName name then throw .badLoopVariable
    let rest := text.drop name.length
    let (words, rest) ←
      match reserved? "in" (skipNewlines rest) with
      | some rest => do
        let (_, words, _, rest) ← readSimple steps false rest
        match skipSpace rest with
        | ';' :: _ | '\n' :: _ => pure (some words, rest)
        | rest => throw (unexpectedAt rest)
      | none => pure (none, rest)
    let rest :=
      match skipSpace rest with
      | ';' :: rest => rest
      | rest => rest
    let rest ← expectReserved "do" rest
    let (body, rest) ← readList steps rest
    let rest ← expectReserved "done" rest
    return (.forEach name words body, rest)

end

/-- The script of a whole text. -/
def readScript (text : ByteText) : Except ScriptError Script := do
  let (script, rest) ← readList (8 * text.length + 32) text
  match skipNewlines rest with
  | [] => return script
  | rest => throw (unexpectedAt rest)

end ShellTemplate.Shell
