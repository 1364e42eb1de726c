/-
# Scan.Session — a lexer driven step by step

A session is a lexer under the hand of someone who scans, looks at the settings, asks for all the
tokens that are left without giving up the place, sets the lexer aside and comes back to it. Each
step has a reply and the events of the scans it made. Only a call and a restored lexer move the
session on: `allTokens` reads ahead on a lexer of its own.
-/
import CobolSource.Scan.Run
import CobolSource.Text.Checkpoint

namespace CobolSource

set_option autoImplicit false

inductive Step where
  | call (call : Call)
  | allTokens
  | settings
  | save
  | restore
  deriving DecidableEq, Repr

inductive Reply where
  | outcome (outcome : Outcome)
  | tokens (result : Except ScanError (List Token))
  | settings (settings : Settings)
  | saved
  /-- Whether there was a lexer to go back to. -/
  | restored (found : Bool)

abbrev Session := Checkpointed Lexer

namespace Session

/-- A step's reply, its events, and the session after it. -/
def step (session : Session) : Step → Reply × List Event × Session
  | .call call =>
      let scan := session.current.perform call
      (.outcome scan.outcome, scan.events, session.update scan.lexer)
  | .allTokens => (.tokens session.current.allTokens, session.current.allTokensEvents, session)
  | .settings => (.settings session.current.settings, [], session)
  | .save => (.saved, [], session.save)
  | .restore =>
      match session.restore? with
      | some earlier => (.restored true, [], earlier)
      | none => (.restored false, [], session)

/-- The steps' replies and events, each with the session after it. -/
def transcript (session : Session) : List Step → List (Reply × List Event × Session)
  | [] => []
  | step :: steps =>
      let answer := session.step step
      answer :: transcript answer.2.2 steps

end Session

end CobolSource
