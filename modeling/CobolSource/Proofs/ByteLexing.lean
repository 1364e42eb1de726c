/-
# Proofs.ByteLexing — a lexer that keeps its source as bytes

`Lexer` reads lists of characters, and nothing it does can go wrong. `ByteLexer` reads the source as
it is stored. It remembers bytes at which something started, runs a loop over what follows, and then
cuts the source from there to where it stands. A cut whose bytes are out of order, past the end or
inside a character has no answer, and then the scan breaks off (`Logged.cut`). Nothing in these
definitions says that this never happens, or that the loops come to an end: they are written as they
run, by `partial_fixpoint`, and a scan that has a result has ended and has not broken off.

All that is done is done in `Logged`, which keeps a log of the cuts asked for and of the events told
to an observer, in the order in which they come. `Logged.Gives` is what a proof says of it: the
result, the events, and that every cut was sound.
-/
import CobolSource.Proofs.ByteReading
import CobolSource.Scan.Session

namespace CobolSource

set_option autoImplicit false

/-! ## What is logged -/

/-- A part of a source that is asked for by two bytes. -/
structure Cut where
  start : Nat
  stop : Nat
  deriving DecidableEq, Repr

/-- The bytes of a cut are in order, lie within the source, and are between two of its characters or
at one of its ends. -/
structure Cut.Sound (source : String) (cut : Cut) : Prop where
  ordered : cut.start ≤ cut.stop
  within : cut.stop ≤ source.utf8ByteSize
  start_boundary : (⟨cut.start⟩ : String.Pos.Raw).IsValid source
  stop_boundary : (⟨cut.stop⟩ : String.Pos.Raw).IsValid source

structure Log where
  cuts : List Cut := []
  events : List Event := []

/-- A computation that keeps a log. It breaks off at a cut that has no answer. -/
abbrev Logged : Type → Type :=
  StateT Log Option

namespace Logged

/-- What the source has between two bytes. -/
def cut (source : String) (start stop : Nat) : Logged (List Char) := do
  modify fun log => { log with cuts := log.cuts ++ [⟨start, stop⟩] }
  textBetween? source start stop

def emit (event : Event) : Logged Unit :=
  modify fun log => { log with events := log.events ++ [event] }

end Logged

/-! ## A cursor that logs its cuts -/

namespace ByteCursor

def rest (cursor : ByteCursor) : Logged (List Char) :=
  .cut cursor.source cursor.place.offset cursor.source.utf8ByteSize

def cutFrom (cursor : ByteCursor) (start : Nat) : Logged (List Char) :=
  .cut cursor.source start cursor.place.offset

/-- The character at the cursor. A byte below 128 is one as it stands; before any other the rest of
the source is cut out. -/
def look (cursor : ByteCursor) : Logged (Option Char) := do
  match cursor.source.toByteArray.data[cursor.place.offset]? with
  | none => return none
  | some byte => if byte < 128 then return some (.ofUInt8 byte) else return (← cursor.rest).head?

/-- The character `n` characters past the one at the cursor. -/
def lookPast (cursor : ByteCursor) : Nat → Logged (Option Char)
  | 0 => cursor.look
  | n + 1 => return (← cursor.rest)[n + 1]?

/-- The character at the cursor, and the cursor past it. -/
def step (cursor : ByteCursor) : Logged (Option Char × ByteCursor) := do
  match ← cursor.look with
  | none => return (none, cursor)
  | some c => return (some c, { cursor with place := cursor.place.after c })

/-- Past `c`, if it is the character at the cursor, and whether it was. -/
def stepOver (cursor : ByteCursor) (c : Char) : Logged (Bool × ByteCursor) := do
  if (← cursor.look) = some c then
    let (_, past) ← cursor.step
    return (true, past)
  else return (false, cursor)

def stepWhile (test : Char → Bool) (cursor : ByteCursor) : Logged ByteCursor := do
  match ← cursor.look with
  | none => return cursor
  | some c =>
      if test c then
        let (_, past) ← cursor.step
        past |>.stepWhile test
      else return cursor
partial_fixpoint

/-- Past the end of a line: CR, LF, or the two together. -/
def stepOverLineEnd (cursor : ByteCursor) : Logged ByteCursor := do
  let (_, feed) ← cursor.stepOver '\r'
  let (_, past) ← feed.stepOver '\n'
  return past

/-- Past a comment whose indicator is at the cursor, and past the end of its line. -/
def stepOverComment (cursor : ByteCursor) : Logged ByteCursor := do
  let (_, body) ← cursor.step
  let lineEnd ← body.stepWhile fun c => !endsLine c
  lineEnd.stepOverLineEnd

def stepOverLayout (indicator : Char) (cursor : ByteCursor) : Logged ByteCursor := do
  let solid ← cursor.stepWhile isBlank
  match ← solid.look with
  | none => return solid
  | some c =>
      if c = indicator then (← solid.stepOverComment) |>.stepOverLayout indicator
      else return solid
partial_fixpoint

/-- Past an operator. An equals sign belongs to one that starts with `<` or `>`. -/
def stepOverOperator (cursor : ByteCursor) : Logged ByteCursor := do
  let (first, past) ← cursor.step
  if first = some '<' ∨ first = some '>' then
    let (_, wide) ← past.stepOver '='
    return wide
  else return past

/-- Past `c`, the character at the cursor, inside a string, and past the quote that it keeps from
closing the string if it is a backslash. -/
def stepInside (cursor : ByteCursor) (c : Char) : Logged ByteCursor := do
  let (_, past) ← cursor.step
  if c = escape then
    let (_, escaped) ← past.stepOver quote
    return escaped
  else return past

/-- Whether `c`, the character at the cursor, is a period that ends a phrase. -/
def atTerminator (cursor : ByteCursor) (c : Char) : Logged Bool := do
  if c = period then return (← cursor.lookPast 1).all isBlank else return false

/-- Past the period that ends the phrase at the cursor, or to the end, and the byte at which the
phrase's own characters stop; `stop` is that byte if none are left. -/
def stepOverBody (cursor : ByteCursor) (stop : Nat) : Logged (Nat × ByteCursor) := do
  match ← cursor.look with
  | none => return (stop, cursor)
  | some c =>
      let terminates ← cursor.atTerminator c
      let (_, past) ← cursor.step
      if terminates then return (stop, past) else past |>.stepOverBody past.place.offset
partial_fixpoint

end ByteCursor

/-! ## The lexer -/

structure ByteLexer where
  cursor : ByteCursor
  settings : Settings := {}
  /-- Where the token or phrase that is being read started. -/
  start : Place := {}
  latest : Option Span := none
  /-- Whether a mark has been looked for. -/
  markChecked : Bool := false
  stopped : Bool := false

/-- What a token scan came to, as an outcome: no token is the end of the source. -/
def Outcome.ofTokenScan : Except ScanError (Option Token) → Outcome
  | .ok (some found) => .token found
  | .ok none => .endOfInput
  | .error failed => .error failed

/-- What a phrase scan came to. -/
def Outcome.ofPhraseScan : Option String → Outcome
  | some text => .phrase text
  | none => .endOfInput

namespace ByteLexer

def withSettings (source : String) (settings : Settings) : Except SettingsError ByteLexer :=
  settings.validate.map fun _ => { cursor := { source }, settings }

/-! ### Starting and stopping -/

/-- The lexer, with its cursor somewhere else. -/
def standing (lexer : ByteLexer) (cursor : ByteCursor) : ByteLexer :=
  { lexer with cursor }

/-- The first scan looks for a mark to skip, and no later one does. -/
def checkMark (lexer : ByteLexer) : Logged ByteLexer := do
  if lexer.markChecked then return lexer
  else if lexer.settings.skipMark && lexer.cursor.place.offset == 0 then
    let (_, cursor) ← lexer.cursor.stepOver byteOrderMark
    return { lexer with cursor, markChecked := true }
  else return { lexer with markChecked := true }

/-- The lexer, about to read a token or a phrase that starts where it stands. -/
def starting (lexer : ByteLexer) : ByteLexer :=
  { lexer with start := lexer.cursor.place }

/-- The span from the start of what is being read to where the lexer stands. -/
def span (lexer : ByteLexer) : Span :=
  lexer.start.spanTo lexer.cursor.place.offset

/-- The error, which has been told to the observer. -/
def report (error : ScanError) : Logged ScanError := do
  Logged.emit (.atSpan (.error error.fault.message) error.span)
  return error

/-! ### Reading a token -/

/-- What the lexer has passed since byte `start`, as a token. -/
def tokenFrom (lexer : ByteLexer) (kind : TokenKind) (start : Nat) :
    Logged (Except ScanError Token × ByteLexer) := do
  let value ← lexer.cursor.cutFrom start
  return (.ok ⟨kind, String.ofList value⟩, lexer)

/-- The characters that pass `test`. -/
def readRun (lexer : ByteLexer) (kind : TokenKind) (test : Char → Bool) :
    Logged (Except ScanError Token × ByteLexer) := do
  let cursor ← lexer.cursor.stepWhile test
  (lexer.standing cursor).tokenFrom kind lexer.cursor.place.offset

def readPunctuation (lexer : ByteLexer) : Logged (Except ScanError Token × ByteLexer) := do
  let (_, cursor) ← lexer.cursor.step
  (lexer.standing cursor).tokenFrom .punctuation lexer.cursor.place.offset

def readOperator (lexer : ByteLexer) : Logged (Except ScanError Token × ByteLexer) := do
  let cursor ← lexer.cursor.stepOverOperator
  (lexer.standing cursor).tokenFrom .operator lexer.cursor.place.offset

/-- A string whose content started at byte `start`, from somewhere inside it on. -/
def readContent (start : Nat) (lexer : ByteLexer) :
    Logged (Except ScanError Token × ByteLexer) := do
  match ← lexer.cursor.look with
  | none =>
      let error ← report ⟨.unclosedString, lexer.span⟩
      return (.error error, lexer)
  | some c =>
      if c = quote then
        let content ← lexer.cursor.cutFrom start
        let (_, cursor) ← lexer.cursor.step
        return (.ok ⟨.string, String.ofList content⟩, lexer.standing cursor)
      else
        let cursor ← lexer.cursor.stepInside c
        lexer.standing cursor |>.readContent start
partial_fixpoint

def readString (lexer : ByteLexer) : Logged (Except ScanError Token × ByteLexer) := do
  let (_, cursor) ← lexer.cursor.step
  (lexer.standing cursor).readContent cursor.place.offset

def readUnexpected (lexer : ByteLexer) (c : Char) :
    Logged (Except ScanError Token × ByteLexer) := do
  let (_, cursor) ← lexer.cursor.step
  let past := lexer.standing cursor
  let error ← report ⟨.unexpectedCharacter c, past.span⟩
  return (.error error, past)

/-- What stands at the cursor, where `c` is the first character. -/
def read (lexer : ByteLexer) (c : Char) : Logged (Except ScanError Token × ByteLexer) :=
  if startsName c then lexer.readRun .name continuesName
  else if c.isDigit then lexer.readRun .integer Char.isDigit
  else if c = quote then lexer.readString
  else if isPunctuation c then lexer.readPunctuation
  else if startsOperator c then lexer.readOperator
  else lexer.readUnexpected c

/-! ### The ways to ask -/

/-- A token scan, from where it has nothing left to pass over. -/
def scanSolid (lexer : ByteLexer) : Logged (Except ScanError (Option Token) × ByteLexer) := do
  let starting := lexer.starting
  match ← starting.cursor.look with
  | none => return (.ok none, { starting with latest := none })
  | some c =>
      match ← starting.read c with
      | (.error error, past) => return (.error error, past)
      | (.ok token, past) =>
          Logged.emit (.atSpan (.token token) past.span)
          return (.ok (some token), { past with latest := some past.span })

def scanToken (lexer : ByteLexer) : Logged (Except ScanError (Option Token) × ByteLexer) := do
  let unmarked ← lexer.checkMark
  let cursor ← unmarked.cursor.stepOverLayout unmarked.settings.commentIndicator
  (unmarked.standing cursor).scanSolid

def scanPhrase (lexer : ByteLexer) : Logged (Option String × ByteLexer) := do
  let unmarked ← lexer.checkMark
  let cursor ← unmarked.cursor.stepWhile isBlank
  if cursor.atEnd then return (none, { unmarked with cursor, latest := none })
  else
    let starting := (unmarked.standing cursor).starting
    let (stop, past) ← cursor.stepOverBody cursor.place.offset
    let body ← Logged.cut cursor.source cursor.place.offset stop
    let phrase := trimEnd body
    let span := starting.start.spanTo (cursor.place.offset + byteCount phrase)
    let text := String.ofList phrase
    Logged.emit (.atSpan (.phrase text) span)
    return (some text, { starting with cursor := past, latest := some span })

def pull (lexer : ByteLexer) : Logged (Except ScanError (Option Token) × ByteLexer) := do
  if lexer.stopped then return (.ok none, lexer)
  else
    match ← lexer.scanToken with
    | (.error error, past) => return (.error error, { past with stopped := true })
    | (.ok token?, past) => return (.ok token?, past)

/-- The tokens that pulling yields, or the first error. -/
def allTokens (lexer : ByteLexer) : Logged (Except ScanError (List Token)) := do
  match ← lexer.pull with
  | (.error error, _) => return .error error
  | (.ok none, _) => return .ok []
  | (.ok (some token), past) => return (← past |>.allTokens).map (token :: ·)
partial_fixpoint

def perform (lexer : ByteLexer) : Call → Logged (Outcome × ByteLexer)
  | .token => return (← lexer.scanToken).map .ofTokenScan id
  | .phrase => return (← lexer.scanPhrase).map .ofPhraseScan id
  | .pull => return (← lexer.pull).map .ofTokenScan id

end ByteLexer

/-! ## Step by step -/

abbrev ByteSession := Checkpointed ByteLexer

namespace ByteSession

def step (session : ByteSession) : Step → Logged (Reply × ByteSession)
  | .call call => do
      let (outcome, lexer) ← session.current.perform call
      return (.outcome outcome, session.update lexer)
  | .allTokens => return (.tokens (← session.current.allTokens), session)
  | .settings => return (.settings session.current.settings, session)
  | .save => return (.saved, session.save)
  | .restore =>
      match session.restore? with
      | some earlier => return (.restored true, earlier)
      | none => return (.restored false, session)

/-- The steps' replies and logs, each with the session after it. -/
def transcript (session : ByteSession) : List Step → Option (List (Reply × Log × ByteSession))
  | [] => some []
  | step :: steps => do
      let ((reply, after), log) ← (session.step step).run {}
      return (reply, log, after) :: (← transcript after steps)

end ByteSession

end CobolSource
