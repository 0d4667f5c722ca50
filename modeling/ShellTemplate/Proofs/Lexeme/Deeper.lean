import ShellTemplate.Proofs.Lexeme.Retold

/-!
# One substitution deeper

The body of a backtick substitution is scanned as a text of its own. It gives the tokens that
the text gives outside the substitution; only the contexts show that it stands inside one more.
-/

namespace ShellTemplate

/-- A context, seen inside one more command substitution. -/
def Quoting.deeper : Quoting → Quoting
  | .bare => .substitution 1
  | .substitution depth => .substitution (depth + 1)
  | .single => .single
  | .double => .double
  | .escaped => .escaped
  | .parameter => .parameter

/-- The constructs around a hole and one more pair of backticks around them. -/
def Enclosing.deeper (enclosing : Enclosing) : Enclosing :=
  { enclosing with backticks := enclosing.backticks + 1 }

def LexError.deeper : LexError → LexError
  | .unterminated quoting place => .unterminated quoting.deeper place
  | .trailingEscape => .trailingEscape

/-- Operators and blanks have no context of their own. -/
def Lexeme.deeper : Lexeme → Lexeme
  | ⟨.piece p, quoting, enclosing⟩ => ⟨.piece p, quoting.deeper, enclosing⟩
  | ⟨.hole index, quoting, enclosing⟩ => ⟨.hole index, quoting.deeper, enclosing.deeper⟩
  | ⟨.operator op, quoting, enclosing⟩ => ⟨.operator op, quoting, enclosing⟩
  | ⟨.blank, quoting, enclosing⟩ => ⟨.blank, quoting, enclosing⟩

@[simp] theorem Lexeme.token_deeper (lexeme : Lexeme) : lexeme.deeper.token = lexeme.token := by
  obtain ⟨token, _, _⟩ := lexeme
  cases token <;> rfl

namespace Scope

/-- The same scope inside one more pair of backticks that stands outside double quotes. -/
def deeper (scope : Scope) : Scope :=
  { scope with depth := scope.depth + 1, backticks := scope.backticks + 1 }

variable (scope : Scope) (frames : List Frame)

theorem substitutions_deeper :
    scope.deeper.substitutions frames = scope.substitutions frames + 1 := by
  simp only [substitutions, deeper]
  omega

theorem quoting_deeper : scope.deeper.quoting frames = (scope.quoting frames).deeper := by
  cases frames with
  | nil =>
      cases hdepth : scope.depth with
      | zero => simp [quoting, deeper, hdepth, Quoting.deeper]
      | succ n => simp [quoting, deeper, hdepth, Quoting.deeper]
  | cons frame rest =>
      cases frame with
      | substitution opened parens =>
          have hcount := substitutions_deeper scope (.substitution opened parens :: rest)
          simp [quoting, hcount, Quoting.deeper]
      | single | double | parameter => rfl

theorem enclosing_deeper : scope.deeper.enclosing frames = (scope.enclosing frames).deeper := rfl

theorem body_deeper : scope.deeper.body frames = (scope.body frames).deeper := by
  simp only [body, substitutions_deeper]
  rfl

end Scope

/-- A body tells its text one substitution deeper. -/
def Retelling.deeper : Retelling where
  place := id
  index := id
  scope := Scope.deeper
  quoting := Quoting.deeper
  enclosing := Enclosing.deeper
  quoting_scope := Scope.quoting_deeper
  enclosing_scope := Scope.enclosing_deeper
  body_scope := Scope.body_deeper
  quoting_double := rfl
  quoting_escaped := rfl
  eager := False
  quoting_bare := False.elim

theorem Retelling.map_item_deeper (items : List Item) :
    items.map Retelling.deeper.item = items := by
  have hitem : Retelling.deeper.item = id := by
    funext ⟨symbol, place⟩
    cases symbol <;> rfl
  rw [hitem, List.map_id]

theorem scanAll_deeper (scope : Scope) (items : List Item) :
    scanAll scope.deeper items =
      ((scanAll scope items).map (List.map Lexeme.deeper)).mapError LexError.deeper := by
  have hlexeme : Retelling.deeper.lexeme = Lexeme.deeper := by
    funext ⟨token, quoting, enclosing⟩
    cases token <;> rfl
  have herror : Retelling.deeper.error = LexError.deeper := by
    funext e
    cases e <;> rfl
  have hretold := scanAll_retold .deeper scope items
  rwa [Retelling.map_item_deeper, hlexeme, herror] at hretold

end ShellTemplate
