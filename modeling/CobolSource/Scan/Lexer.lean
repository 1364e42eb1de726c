/-
# Scan.Lexer — one scan of a source

A `Lexer` is a cursor in a source, the settings to read it by, and the little that a scan leaves
behind: the span of what was produced last, and whether pulling tokens has stopped. A scan is a
function of it. It answers with an `Outcome`, the lexer to go on with, and the events to report.

There are three ways to ask. `scanToken` and `scanPhrase` read the same cursor by different
grammars and may be mixed freely. `pull` reads tokens for a caller who wants them one after another:
the first error it meets is the last thing it yields.

* A byte order mark is passed over at the start of the source and nowhere else (`unmarked`). Only
  the first scan can find the cursor there, unless the source is empty, so no scan has to remember
  whether an earlier one has looked.
* A failing scan leaves the cursor after the text at fault, and the last span as it was.
* A scan that finds the source at its end forgets the last span.
-/
import CobolSource.Grammar.Layout
import CobolSource.Grammar.Lexeme
import CobolSource.Grammar.Phrase
import CobolSource.Scan.Event
import CobolSource.Scan.Settings
import CobolSource.Text.Cursor

namespace CobolSource

set_option autoImplicit false

structure Lexer where
  cursor : Cursor
  settings : Settings := {}
  valid : settings.Valid := by decide
  /-- The span of the token or phrase produced last. -/
  latest : Option Span := none
  /-- Whether pulling has met an error. -/
  stopped : Bool := false

inductive Outcome where
  | token (token : Token)
  | phrase (text : String)
  | error (error : ScanError)
  | endOfInput
  deriving DecidableEq, Repr

structure Scan where
  outcome : Outcome
  lexer : Lexer
  events : List Event

namespace Lexer

/-! ## Making one -/

def ofText (text : List Char) : Lexer :=
  { cursor := .ofText text }

instance : Inhabited Lexer :=
  ⟨ofText []⟩

/-- The text of a source; no source is the empty source. -/
def sourceText (source : Option String) : List Char :=
  (source.getD "").toList

def ofSource (source : Option String) : Lexer :=
  ofText (sourceText source)

def withSettings (text : List Char) (settings : Settings) : Except SettingsError Lexer :=
  if valid : settings.Valid then .ok { cursor := .ofText text, settings, valid }
  else .error settings.refusal

theorem withSettings_of_valid (text : List Char) {settings : Settings} (valid : settings.Valid) :
    withSettings text settings = .ok { cursor := .ofText text, settings, valid } :=
  dif_pos valid

/-! ## Where a scan starts reading -/

/-- The cursor, past a byte order mark that opens the source. -/
def unmarked (lexer : Lexer) : Cursor :=
  if lexer.settings.skipMark && lexer.cursor.atStart then
    (lexer.cursor.accept? byteOrderMark).getD lexer.cursor
  else lexer.cursor

def tokenStart (lexer : Lexer) : Cursor :=
  lexer.unmarked.advanceBy (layoutLength lexer.settings.commentIndicator lexer.unmarked.ahead)

/-- Comments are part of a phrase, so only blanks are skipped before one. -/
def phraseStart (lexer : Lexer) : Cursor :=
  lexer.unmarked.skipBlanks

/-! ## How a scan ends -/

def produce (lexer : Lexer) (cursor : Cursor) (span : Span) (outcome : Outcome)
    (subject : Subject) : Scan :=
  ⟨outcome, { lexer with cursor, latest := some span }, [.atSpan subject span]⟩

def fail (lexer : Lexer) (cursor : Cursor) (error : ScanError) : Scan :=
  ⟨.error error, { lexer with cursor }, [.atSpan (.error error.fault.message) error.span]⟩

def finish (lexer : Lexer) (cursor : Cursor) : Scan :=
  ⟨.endOfInput, { lexer with cursor, latest := none }, []⟩

/-! ## The three ways to ask -/

def scanToken (lexer : Lexer) : Scan :=
  let start := lexer.tokenStart
  match reading start.ahead with
  | .nothing => lexer.finish start
  | .token token width =>
      let stop := start.advanceBy width
      lexer.produce stop (start.place.spanTo stop.place.offset) (.token token) (.token token)
  | .fault fault width =>
      let stop := start.advanceBy width
      lexer.fail stop ⟨fault, start.place.spanTo stop.place.offset⟩

def scanPhrase (lexer : Lexer) : Scan :=
  let start := lexer.phraseStart
  if start.atEnd then lexer.finish start
  else
    let phrase := phraseText start.ahead
    let text := String.ofList phrase
    let span := start.place.spanTo (start.place.afterText phrase).offset
    -- One more character than the body: the period, unless the source ends without one.
    let stop := start.advanceBy (bodyLength start.ahead + 1)
    lexer.produce stop span (.phrase text) (.phrase text)

/-- The next token, until an error has been yielded. -/
def pull (lexer : Lexer) : Scan :=
  if lexer.stopped then ⟨.endOfInput, lexer, []⟩
  else
    let scan := lexer.scanToken
    match scan.outcome with
    | .error _ => { scan with lexer := { scan.lexer with stopped := true } }
    | _ => scan

end Lexer

end CobolSource
