import ShellTemplate.Filling
import ShellTemplate.Pipeline.Parse

/-!
# From template to pipeline

Scan a template, fill its holes, read the result as one pipeline.
-/

namespace ShellTemplate

/-- Why a template does not describe a pipeline. -/
inductive CompileError where
  | lex (error : LexError)
  | fill (error : FillError)
  | parse (error : ParseError)
deriving DecidableEq, Repr, Inhabited

namespace CompileError

def ofFilling : FillingError → CompileError
  | .lex error => .lex error
  | .fill error => .fill error

def message : CompileError → String
  | .lex error => error.message
  | .fill error => error.message
  | .parse error => error.message

end CompileError

namespace Template

/-- The tokens of a template with its holes filled. -/
def tokens (t : Template) (options : FillOptions) : Except CompileError (List Token) := do
  let lexemes ← t.lexemes.mapError .lex
  (fill options t.holes lexemes).mapError .ofFilling

/-- The pipeline that a template describes. -/
def compile (t : Template) (options : FillOptions) : Except CompileError Pipeline := do
  let tokens ← t.tokens options
  (parse tokens).mapError .parse

end Template

end ShellTemplate
