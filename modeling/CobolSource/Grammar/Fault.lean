/-
# Grammar.Fault — why a source cannot be read on as tokens

A scan fails in two ways: a string that is never closed, and a character that starts nothing. The
`Fault` says which and the `ScanError` adds where. The wording of a report depends on the fault
alone.
-/
import CobolSource.Text.Place

namespace CobolSource

set_option autoImplicit false

inductive Fault where
  /-- The source ends before a string's closing quote. -/
  | unclosedString
  /-- No token starts with this character. -/
  | unexpectedCharacter (c : Char)
  deriving DecidableEq, Repr

/-- A fault without its particulars. -/
inductive FaultKind where
  | unclosedString
  | unexpectedCharacter
  deriving DecidableEq, Repr

namespace Fault

def kind : Fault → FaultKind
  | .unclosedString => .unclosedString
  | .unexpectedCharacter _ => .unexpectedCharacter

/-- The wording of a report. A character stands in it as it is, whatever it is. -/
def message : Fault → String
  | .unclosedString => "unclosed string"
  | .unexpectedCharacter c => "unexpected '" ++ String.singleton c ++ "'"

end Fault

/-- A fault and the part of the source it is about. -/
structure ScanError where
  fault : Fault
  span : Span
  deriving DecidableEq, Repr

end CobolSource
