/-
# Proofs.Reporting — what the observer is told is what was answered

A scan that produces something tells its observer one event, with what it produced and the line and
column of its span; one that fails tells one event, with the wording of its error and the line and
column of the error's own span; and the end of the source is not told of. `Scan.Reports` says so of
one scan, whichever way it was asked for and whatever it left (`perform_reports`).

`allTokens` tells what pulls tell up to the first that yields nothing, so one event for each token,
and the error's after them if it fails (`pullsReport`). A session does no more than these two, and
so all that it tells can be read off its answers, step by step (`Session.Faithful`). Both hold of
any lexer, not only of one that some source was made into. That the events are told where and when
the scans are made is what the byte lexer adds: it tells the same, step by step (`log_faithful`).
-/
import CobolSource.Proofs.Progress
import CobolSource.Proofs.Pulling
import CobolSource.Proofs.SoundCuts

namespace CobolSource

set_option autoImplicit false

/-! ## One scan -/

/-- One event is told, of `subject` and where `span` begins, and it is logged at `level` with
`message`. -/
structure TellsOnly (events : List Event) (level : Level) (message : String) (subject : Subject)
    (span : Span) : Prop where
  events_eq : events = [⟨subject, span.line, span.column⟩]
  level_eq : subject.level = level
  message_eq : subject.message = message

/-- What a scan tells follows from what it came to and from the span that goes with it. -/
structure Scan.Reports (scan : Scan) : Prop where
  token : ∀ found, scan.outcome = .token found → ∃ span, scan.lexer.latest = some span ∧
    TellsOnly scan.events .trace "scanned token" (.token found) span
  phrase : ∀ text, scan.outcome = .phrase text → ∃ span, scan.lexer.latest = some span ∧
    TellsOnly scan.events .trace "scanned phrase" (.phrase text) span
  error : ∀ failed, scan.outcome = .error failed →
    TellsOnly scan.events .debug "lexical error" (.error failed.fault.message) failed.span
  endOfInput : scan.outcome = .endOfInput → scan.events = []

namespace Lexer

theorem conclude_reports (lexer : Lexer) (stop : Cursor) (span : Span) (finding : Finding) :
    (lexer.conclude stop span finding).Reports := by
  cases finding with
  | token found =>
      refine ⟨?_, nofun, nofun, nofun⟩
      rintro _ ⟨⟩
      exact ⟨span, rfl, rfl, rfl, rfl⟩
  | phrase text =>
      refine ⟨nofun, ?_, nofun, nofun⟩
      rintro _ ⟨⟩
      exact ⟨span, rfl, rfl, rfl, rfl⟩
  | fault failed =>
      refine ⟨nofun, nofun, ?_, nofun⟩
      rintro _ ⟨⟩
      exact ⟨rfl, rfl, rfl⟩
  | nothing => exact ⟨nofun, nofun, nofun, fun _ => rfl⟩

theorem perform_reports (lexer : Lexer) (call : Call) : (lexer.perform call).Reports := by
  rcases lexer.perform_idle_or_scans call with ⟨-, -, idle⟩ | ⟨scan, stopped, scans, -, same⟩
  · rw [idle]
    exact ⟨nofun, nofun, nofun, fun _ => rfl⟩
  · -- Stopping changes neither the outcome nor the last span nor the events.
    have reports : (lexer.perform scan).Reports := by
      rw [perform_eq_deliver _ scans, deliver_eq_conclude]
      exact conclude_reports _ _ _ _
    rw [same]
    exact ⟨reports.token, reports.phrase, reports.error, reports.endOfInput⟩

/-! ## All the tokens -/

/-- What asking for all the tokens comes to: `result`, and `events` on the way. -/
structure PullsReport (lexer : Lexer) (result : Except ScanError (List Token))
    (events : List Event) : Prop where
  /-- The events are those of pulls, up to the first that yields nothing. -/
  pulls : ∃ n, (∀ scan ∈ lexer.run (List.replicate n .pull), scan.outcome ≠ .endOfInput) ∧
    (lexer.runFinal (List.replicate n .pull)).pull.outcome = .endOfInput ∧
    events = (lexer.run (List.replicate (n + 1) .pull)).flatMap (·.events)
  tokens : ∀ tokens, result = .ok tokens → events.map (·.subject) = tokens.map .token
  error : ∀ failed, result = .error failed → ∃ told, ∃ tokens : List Token,
    events = told ++ [.atSpan (.error failed.fault.message) failed.span] ∧
      told.map (·.subject) = tokens.map .token

/-- The induction is on what is ahead: a pull that yields a token reads something. -/
theorem allTokens_told (lexer : Lexer) : ∃ tokens : List Token,
    (lexer.allTokens = .ok tokens ∧
      lexer.allTokensEvents.map (·.subject) = tokens.map .token) ∨
    ∃ failed told, lexer.allTokens = .error failed ∧
      lexer.allTokensEvents = told ++ [.atSpan (.error failed.fault.message) failed.span] ∧
      told.map (·.subject) = tokens.map .token := by
  have reports : lexer.pull.Reports := lexer.perform_reports .pull
  rcases lexer.pull_outcome with ended | ⟨token, found⟩ | ⟨failed, fails⟩
  · refine ⟨[], .inl ⟨allTokens_of_pull_end ended, ?_⟩⟩
    rw [allTokensEvents_of_pull_end ended, reports.endOfInput ended]
    rfl
  · have yields : lexer.pull.outcome ≠ .endOfInput := by
      rw [found]
      nofun
    have progress := pull_progress yields
    obtain ⟨span, -, told⟩ := reports.token token found
    obtain ⟨tokens, later⟩ := allTokens_told lexer.pull.lexer
    refine ⟨token :: tokens, ?_⟩
    rw [allTokens_of_pull_token found, allTokensEvents_of_pull_yields yields, told.events_eq]
    rcases later with ⟨all, events⟩ | ⟨failed, others, fails, events, subjects⟩
    · exact .inl ⟨by rw [all]; rfl, congrArg _ events⟩
    · exact .inr ⟨failed, _ :: others, by rw [fails]; rfl, congrArg _ events, congrArg _ subjects⟩
  · refine ⟨[], .inr ⟨failed, [], allTokens_of_pull_error fails, ?_, rfl⟩⟩
    rw [allTokensEvents_of_pull_error fails]
    exact (reports.error failed fails).events_eq
termination_by lexer.cursor.ahead.length

theorem pullsReport (lexer : Lexer) :
    lexer.PullsReport lexer.allTokens lexer.allTokensEvents := by
  obtain ⟨n, all, yield, ended⟩ := lexer.exists_untilEnd .pull
  obtain ⟨tokens, told⟩ := lexer.allTokens_told
  refine ⟨⟨n, yield, ended, by rw [allTokensEvents, all]⟩, ?_, ?_⟩
  · intro others same
    rcases told with ⟨read, subjects⟩ | ⟨failed, told, fails, -⟩
    · rw [← Except.ok.inj (read.symm.trans same)]
      exact subjects
    · cases fails.symm.trans same
  · intro failed same
    rcases told with ⟨read, -⟩ | ⟨other, told, fails, events, subjects⟩
    · cases read.symm.trans same
    · rw [← Except.error.inj (fails.symm.trans same)]
      exact ⟨told, tokens, events, subjects⟩

end Lexer

/-! ## A session -/

namespace Session

/-- The answer to a step, and what is told on the way. -/
structure Reports (session : Session) (step : Step) (answer : Reply × List Event × Session) :
    Prop where
  call : ∀ call, step = .call call → ∃ outcome, answer.1 = .outcome outcome ∧
    Scan.Reports ⟨outcome, answer.2.2.current, answer.2.1⟩
  stopped : step = .call .pull → session.current.stopped = true →
    answer.1 = .outcome .endOfInput ∧ answer.2.1 = []
  /-- Pulls have stopped once one has answered with an error. -/
  stops : ∀ call, step = .call call → (answer.2.2.current.stopped = true ↔
    session.current.stopped = true ∨ call = .pull ∧ ∃ failed, answer.1 = .outcome (.error failed))
  allTokens : step = .allTokens → ∃ result, answer.1 = .tokens result ∧
    session.current.PullsReport result answer.2.1
  others : (∀ call, step ≠ .call call) → step ≠ .allTokens → answer.2.1 = []

/-- Every step's answer tells what it should, from where the one before it has left the session. -/
inductive Faithful : Session → List Step → List (Reply × List Event × Session) → Prop
  | nil {session : Session} : Faithful session [] []
  | cons {session : Session} {step : Step} {steps : List Step}
      {answer : Reply × List Event × Session} {answers : List (Reply × List Event × Session)} :
      session.Reports step answer → Faithful answer.2.2 steps answers →
      Faithful session (step :: steps) (answer :: answers)

/-- A step that neither calls nor asks for all the tokens tells nothing. -/
theorem Reports.of_silent {session : Session} {step : Step}
    {answer : Reply × List Event × Session} (noCall : ∀ call, step ≠ .call call)
    (notAll : step ≠ .allTokens) (silent : answer.2.1 = []) : session.Reports step answer where
  call call same := absurd same (noCall call)
  stopped same := absurd same (noCall .pull)
  stops call same := absurd same (noCall call)
  allTokens same := absurd same notAll
  others _ _ := silent

theorem step_reports (session : Session) (step : Step) :
    session.Reports step (session.step step) := by
  cases step with
  | call call =>
      refine ⟨?_, ?_, ?_, ?_, fun other => absurd rfl (other call)⟩
      · rintro _ ⟨⟩
        exact ⟨_, rfl, session.current.perform_reports call⟩
      · rintro ⟨⟩ stopped
        rw [step, Lexer.perform, Lexer.pull_of_stopped stopped]
        exact ⟨rfl, rfl⟩
      · rintro _ ⟨⟩
        have stops := Lexer.stopped_perform_iff session.current call
        refine stops.trans (or_congr_right (and_congr_right ?_))
        rintro rfl
        exact exists_congr fun failed => ⟨congrArg Reply.outcome, Reply.outcome.inj⟩
      · rintro ⟨⟩
  | allTokens =>
      refine ⟨?_, ?_, ?_, fun _ => ⟨_, rfl, session.current.pullsReport⟩, ?_⟩
      · rintro _ ⟨⟩
      · rintro ⟨⟩
      · rintro _ ⟨⟩
      · exact fun _ other => absurd rfl other
  | settings => exact .of_silent (by simp) (by simp) rfl
  | save => exact .of_silent (by simp) (by simp) rfl
  | restore =>
      refine .of_silent (by simp) (by simp) ?_
      unfold step
      dsimp only
      split <;> rfl

theorem transcript_faithful (session : Session) (steps : List Step) :
    session.Faithful steps (session.transcript steps) := by
  induction steps generalizing session with
  | nil => exact .nil
  | cons step steps ih => exact .cons (session.step_reports step) (ih _)

/-- **The log is a transcript of the scanning.** Whatever the source, the settings and the steps
that are taken, each step's events follow from its answer:

* a call that answers with a token or a phrase tells one event, that it was scanned, with the line
  and column of the last span that the call leaves;
* one that answers with an error tells one event, with the error's wording and the line and column
  of the error's own span;
* one that answers with the end, as a pull does once pulls have stopped, tells nothing;
* asking for all the tokens tells what pulls from there on tell, up to the first that yields
  nothing: an event for each token, and if there is an error, the error's behind those of the
  tokens before it;
* no other step tells anything.

And the byte lexer, which tells its events one by one while it scans, has told the same after each
step. -/
theorem log_faithful {source : String} {settings : Settings} {start : Lexer}
    (made : Lexer.withSettings source.toList settings = .ok start) (steps : List Step) :
    Faithful ⟨start, []⟩ steps (transcript ⟨start, []⟩ steps) ∧
    ∃ bytes answers, ByteLexer.withSettings source settings = .ok bytes ∧
      ByteSession.transcript ⟨bytes, []⟩ steps = some answers ∧
      List.Forall₂ (fun answer told => answer.1 = told.1 ∧ answer.2.1.events = told.2.1) answers
        (transcript ⟨start, []⟩ steps) := by
  obtain ⟨bytes, answers, bytesMade, ran, alike⟩ :=
    ByteSession.exists_transcript made steps
  exact ⟨transcript_faithful _ steps, bytes, answers, bytesMade, ran,
    alike.imp fun _ _ mirrored => ⟨mirrored.reply_eq, mirrored.events_eq⟩⟩

/-- Names, a phrase, a character that starts nothing, and a string that is never closed. -/
def toldText : String :=
  "A\n B. §\"x"

def toldSteps : List Step :=
  [.call .token, .allTokens, .call .phrase, .call .pull, .call .pull, .call .token, .call .token]

/-- All the tokens are told of up to the error, which is told of again when a pull comes to it. That
stops pulls, and of the next one nothing is told. -/
theorem toldText_log :
    Faithful ⟨Lexer.ofText toldText.toList, []⟩ toldSteps
        (transcript ⟨Lexer.ofText toldText.toList, []⟩ toldSteps) ∧
      (transcript ⟨Lexer.ofText toldText.toList, []⟩ toldSteps).map (·.2.1) =
        [[⟨.token ⟨.name, "A"⟩, 1, 1⟩],
          [⟨.token ⟨.name, "B"⟩, 2, 2⟩, ⟨.token ⟨.punctuation, "."⟩, 2, 3⟩,
            ⟨.error "unexpected '§'", 2, 5⟩],
          [⟨.phrase "B", 2, 2⟩], [⟨.error "unexpected '§'", 2, 5⟩], [],
          [⟨.error "unclosed string", 2, 6⟩], []] :=
  ⟨(log_faithful (Lexer.withSettings_ofText toldText.toList) toldSteps).1, by decide⟩

end Session

end CobolSource
