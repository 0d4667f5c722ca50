import ShellTemplate.Pipeline
import ShellTemplate.Pipeline.Line

/-!
# Reading a pipeline

Tokens are merged into words and operators, and these are read as one
pipeline: commands between pipes, optionally after newlines and before
semicolons or newlines. Redirections are resolved from left to right.
-/

namespace ShellTemplate

/-- Why tokens do not describe a single pipeline. -/
inductive ParseError where
  | empty
  | unexpectedOperator (op : Operator)
  | missingRedirectTarget (op : Operator)
  | invalidDuplication (op : Operator) (target : List Char)
  | emptyCommand (stage : Nat)
  | multiplePipelines
  | background
  | unsupportedOperator (op : Operator)
  /-- A hole was left in the tokens. -/
  | unfilledHole (index : Nat)
deriving DecidableEq, Repr, Inhabited

def ParseError.message : ParseError → String
  | .empty => "empty command"
  | .unexpectedOperator op =>
    s!"unexpected `{String.ofList op.text}` where a command word is required"
  | .missingRedirectTarget op => s!"`{String.ofList op.text}` is missing its target"
  | .invalidDuplication op target =>
    s!"`{String.ofList op.text}` expects a file descriptor number, found " ++
      s!"`{String.ofList target}`"
  | .emptyCommand stage => s!"pipeline stage {stage} is empty"
  | .multiplePipelines => "template describes more than one pipeline"
  | .background => "background commands (`&`) are not supported"
  | .unsupportedOperator op => s!"`{String.ofList op.text}` is not supported"
  | .unfilledHole index => s!"hole {index} was not rendered before parsing"

/-- A word or an operator of a command line. -/
inductive Part where
  | word (word : Word)
  | operator (op : Operator)
deriving DecidableEq, Repr, Inhabited

/-- The word read so far, complete. -/
def partOfWord (word : Option Word) : List Part := (word.map Part.word).toList

/-- Merge adjacent pieces into words, after the start of a word that was read before. -/
def assembleFrom (word : Option Word) : List Token → Except ParseError (List Part)
  | [] => .ok (partOfWord word)
  | .piece p :: rest => assembleFrom (some ((word.getD {}).push p)) rest
  | .blank :: rest => do
    let more ← assembleFrom none rest
    return partOfWord word ++ more
  | .operator op :: rest => do
    let more ← assembleFrom none rest
    return partOfWord word ++ .operator op :: more
  | .hole index :: _ => .error (.unfilledHole index)

/-- The words and operators of a token list. -/
def assemble (tokens : List Token) : Except ParseError (List Part) := assembleFrom none tokens

/-- The descriptor that a duplication names. -/
def duplicated? (target : Word) : Option Nat :=
  if target.expands then none else readDescriptor? target.value

/-- Record one redirection. A duplication copies where its source goes at that moment. -/
def Redirects.apply (redirects : Redirects) (r : Redirect) (target : Word) :
    Except ParseError Redirects :=
  match r.kind with
  | .out => .ok (redirects.set r.descriptor (.file target .truncate))
  | .append => .ok (redirects.set r.descriptor (.file target .append))
  | .input => .ok (redirects.set r.descriptor (.file target .read))
  | .dupOut | .dupIn =>
    match duplicated? target with
    | some source =>
      .ok (redirects.set r.descriptor ((redirects.get? source).getD (.descriptor source)))
    | none => .error (.invalidDuplication (.redirect r) target.value)

/-- A pipeline that is being read. -/
structure PartialPipeline where
  stages : List Stage := []
  current : Stage := {}
  /-- A terminator has been read. -/
  terminated : Bool := false
deriving DecidableEq, Repr, Inhabited

namespace PartialPipeline

/-- Nothing but newlines has been read. -/
def isFresh (p : PartialPipeline) : Bool :=
  p.stages.isEmpty && p.current.argv.isEmpty && p.current.redirects.isEmpty

/-- Complete the current command, at an operator or at the end. -/
def close (p : PartialPipeline) (op : Option Operator) : Except ParseError PartialPipeline :=
  if p.current.argv.isEmpty then
    if p.isFresh then
      match op with
      | some op => .error (.unexpectedOperator op)
      | none => .error .empty
    else
      .error (.emptyCommand p.stages.length)
  else
    .ok { p with stages := p.stages ++ [p.current], current := {} }

/-- Read the parts from here on. -/
def read (p : PartialPipeline) : List Part → Except ParseError (List Stage)
  | [] => if p.terminated then .ok p.stages else (p.close none).map stages
  | .word w :: rest =>
    if p.terminated then .error .multiplePipelines
    else read { p with current := { p.current with argv := p.current.argv ++ [w] } } rest
  | .operator (.redirect r) :: rest =>
    if p.terminated then .error .multiplePipelines
    else
      match rest with
      | .word target :: rest => do
        let redirects ← p.current.redirects.apply r target
        read { p with current := { p.current with redirects := redirects } } rest
      | _ => .error (.missingRedirectTarget (.redirect r))
  | .operator .pipe :: rest =>
    if p.terminated then .error (.unexpectedOperator .pipe)
    else do
      let closed ← p.close (some .pipe)
      read closed rest
  | .operator .semicolon :: rest =>
    if p.terminated then read p rest
    else do
      let closed ← p.close (some .semicolon)
      read { closed with terminated := true } rest
  | .operator .newline :: rest =>
    if p.terminated || p.isFresh then read p rest
    else do
      let closed ← p.close (some .newline)
      read { closed with terminated := true } rest
  | .operator .background :: _ => .error .background
  | .operator op :: _ => .error (.unsupportedOperator op)

end PartialPipeline

/-- The commands of a list of words and operators. -/
def stagesOfParts (parts : List Part) : Except ParseError (List Stage) :=
  ({} : PartialPipeline).read parts

/-- Read filled-in tokens as one pipeline. -/
def parse (tokens : List Token) : Except ParseError Pipeline := do
  let parts ← assemble tokens
  let stages ← stagesOfParts parts
  return { stages, line := commandLine tokens }

end ShellTemplate
