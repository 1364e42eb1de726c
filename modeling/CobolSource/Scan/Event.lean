/-
# Scan.Event — what a scan tells its observer

Whatever a scan produces it also reports: one event for a token, a phrase or an error, none for the
end of the source. An event carries what was produced and the line and column it was produced at.
-/
import CobolSource.Grammar.Fault
import CobolSource.Grammar.Token

namespace CobolSource

set_option autoImplicit false

inductive Level where
  | trace
  | debug
  deriving DecidableEq, Repr

def Level.label : Level → String
  | .trace => "TRACE"
  | .debug => "DEBUG"

/-- What an event is about. -/
inductive Subject where
  | token (token : Token)
  | phrase (text : String)
  /-- The wording of an error. -/
  | error (message : String)
  deriving DecidableEq, Repr

namespace Subject

def level : Subject → Level
  | .token _ => .trace
  | .phrase _ => .trace
  | .error _ => .debug

def message : Subject → String
  | .token _ => "scanned token"
  | .phrase _ => "scanned phrase"
  | .error _ => "lexical error"

end Subject

structure Event where
  subject : Subject
  line : UInt32
  column : UInt32
  deriving DecidableEq, Repr

/-- An event about something at a span. -/
def Event.atSpan (subject : Subject) (span : Span) : Event :=
  ⟨subject, span.line, span.column⟩

end CobolSource
