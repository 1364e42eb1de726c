/-
# Grammar.Token — what a source is made of

A token is a piece of text and the kind of lexeme it was read as. Its value is the text it stands
for, its written form the text that stands in a source: they differ for a string only, whose value
leaves its two quotes out. Nothing inside a value is decoded or escaped, so writing a token puts
back the very characters it was read from.
-/
import CobolSource.Text.Alphabet

namespace CobolSource

set_option autoImplicit false

inductive TokenKind where
  /-- A letter, then letters, digits and hyphens: `WORKING-STORAGE`. -/
  | name
  /-- An unsigned run of digits, leading zeroes kept. -/
  | integer
  /-- A literal between quotes. -/
  | string
  | punctuation
  /-- A comparison: `<`, `>`, `=`, `<=` or `>=`. -/
  | operator
  deriving DecidableEq, Repr, Inhabited

namespace TokenKind

def all : List TokenKind :=
  [.name, .integer, .string, .punctuation, .operator]

/-- The word a report uses for the kind. -/
def label : TokenKind → String
  | .name => "name"
  | .integer => "integer"
  | .string => "string"
  | .punctuation => "punctuation"
  | .operator => "operator"

def ofLabel? (word : String) : Option TokenKind :=
  all.find? fun kind => kind.label == word

/-- A kind is known by its label. -/
theorem ofLabel?_label (kind : TokenKind) : ofLabel? kind.label = some kind := by
  cases kind <;> decide

end TokenKind

structure Token where
  kind : TokenKind
  value : String
  deriving DecidableEq, Repr, Inhabited

namespace Token

/-- The token as a source writes it. -/
def written (token : Token) : String :=
  match token.kind with
  | .string => String.ofList (quote :: token.value.toList ++ [quote])
  | _ => token.value

/-- Whether the token is of that kind and has that value. -/
def is (token : Token) (kind : TokenKind) (value : String) : Bool :=
  token.kind == kind && token.value == value

theorem is_iff (token : Token) (kind : TokenKind) (value : String) :
    token.is kind value = true ↔ token = ⟨kind, value⟩ := by
  obtain ⟨k, v⟩ := token
  simp [Token.is]

end Token

end CobolSource
