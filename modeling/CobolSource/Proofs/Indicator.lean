/-
# Proofs.Indicator — the comment indicator counts only where a token would start

Which character opens a comment is a setting, and a run looks at it only where a token scan meets
something that is no blank. So it can be changed behind a run's back: as long as the run has met no
comment, and has not found the new indicator where a token would start, the same calls under the new
setting make the same scans (`run_otherIndicator`). The indicators may stand anywhere else, in
strings and in phrases.

The reason is that nothing but an unexpected character starts with a valid indicator
(`Settings.Valid.opening?_indicator`), and that layout with no indicator in it is blanks, which are
layout whatever the indicator is (`lookToken_otherIndicator`). `Lexer.under` changes a lexer's
settings and nothing else.
-/
import CobolSource.Proofs.Pulling
import CobolSource.Proofs.Writing

namespace CobolSource

set_option autoImplicit false

/-! ## Other settings -/

/-- The lexer, with other settings to go on by, and all else as it is. -/
def Lexer.under (lexer : Lexer) (settings : Settings) (valid : settings.Valid) : Lexer :=
  { lexer with settings, valid }

/-- The scan, leaving a lexer that has other settings to go on by. -/
def Scan.under (scan : Scan) (settings : Settings) (valid : settings.Valid) : Scan :=
  { scan with lexer := scan.lexer.under settings valid }

namespace Lexer

variable {lexer : Lexer} {settings : Settings} (valid : settings.Valid)

theorem deliver_under (cursor : Cursor) (look : Look) :
    (lexer.under settings valid).deliver cursor look =
      (lexer.deliver cursor look).under settings valid := by
  unfold deliver
  cases look.finding <;> rfl

theorem unmarked_under (sameMark : settings.skipMark = lexer.settings.skipMark) :
    (lexer.under settings valid).unmarked = lexer.unmarked := by
  unfold unmarked
  rw [← sameMark]
  rfl

theorem perform_under_of_scans {call : Call} (scans : call ≠ .pull)
    (sameStart : (lexer.under settings valid).unmarked = lexer.unmarked)
    (sameLook : call.look settings.commentIndicator lexer.unmarked.ahead =
      call.look lexer.settings.commentIndicator lexer.unmarked.ahead) :
    (lexer.under settings valid).perform call = (lexer.perform call).under settings valid := by
  rw [perform_eq_deliver _ scans, perform_eq_deliver _ scans, sameStart, ← sameLook]
  exact deliver_under valid _ _

/-- A call does the same under other settings if it starts at the same place and, in case it looks
at the text at all, makes the same of it. -/
theorem perform_under {call : Call}
    (sameStart : (lexer.under settings valid).unmarked = lexer.unmarked)
    (sameLook : (call = .pull → lexer.stopped = false) →
      call.look settings.commentIndicator lexer.unmarked.ahead =
        call.look lexer.settings.commentIndicator lexer.unmarked.ahead) :
    (lexer.under settings valid).perform call = (lexer.perform call).under settings valid := by
  cases call with
  | token => exact perform_under_of_scans valid (by decide) sameStart (sameLook nofun)
  | phrase => exact perform_under_of_scans valid (by decide) sameStart (sameLook nofun)
  | pull =>
      cases stopped : lexer.stopped with
      | true =>
          have stoppedToo : (lexer.under settings valid).stopped = true := stopped
          rw [perform, perform, pull_of_stopped stopped, pull_of_stopped stoppedToo]
          rfl
      | false =>
          have going : (lexer.under settings valid).stopped = false := stopped
          have scan : (lexer.under settings valid).scanToken =
              lexer.scanToken.under settings valid :=
            perform_under_of_scans valid (by decide : Call.token ≠ .pull) sameStart
              (sameLook fun _ => stopped)
          rw [perform, perform, pull_eq_withStopped stopped, pull_eq_withStopped going, scan]
          rfl

end Lexer

/-! ## Where an indicator counts -/

/-- No lexeme starts with a valid comment indicator. -/
theorem Settings.Valid.opening?_indicator {settings : Settings} (valid : settings.Valid) :
    TokenKind.opening? settings.commentIndicator = none := by
  cases opens : TokenKind.opening? settings.commentIndicator with
  | none => rfl
  | some kind => exact absurd (TokenKind.isReserved_of_opening? opens) (by simp [valid.1])

/-- A token scan that passes no comment makes the same of a text under another indicator, unless it
finds that indicator where a token would start. -/
theorem lookToken_otherIndicator {settings other : Settings} (valid : settings.Valid)
    (validOther : other.Valid) {text : List Char}
    (bare : settings.commentIndicator ∉
      text.take (lookToken settings.commentIndicator text).skipped)
    (expected : (lookToken settings.commentIndicator text).finding ≠
      .fault (.unexpectedCharacter other.commentIndicator)) :
    lookToken other.commentIndicator text = lookToken settings.commentIndicator text := by
  obtain ⟨gap, rest, rfl, layout⟩ := exists_layoutBefore settings.commentIndicator text
  rw [lookToken_layoutBefore valid.indicator_not_blank layout] at bare expected ⊢
  rw [Reading.skipped_look, List.take_left] at bare
  rw [Reading.finding_look] at expected
  have blank : Blanks gap := layout.final.blanks_of_bare bare
  have stops : LayoutBefore other.commentIndicator gap rest := by
    cases layout with
    | ended => exact .ended (.complete blank.layout)
    | solid _ notBlank _ =>
        refine .solid blank.layout notBlank ?_
        rintro rfl
        apply expected
        rw [reading_eq_unexpected_iff.2 ⟨validOther.opening?_indicator, rfl, rfl⟩]
        rfl
  exact lookToken_layoutBefore validOther.indicator_not_blank stops

namespace Lexer

/-- What a call passes over before it finds something. A pull that has stopped does not look. -/
def passedOver (lexer : Lexer) (call : Call) : List Char :=
  if call = .pull ∧ lexer.stopped = true then []
  else lexer.unmarked.ahead.take
    (call.look lexer.settings.commentIndicator lexer.unmarked.ahead).skipped

/-- Whether some of the calls passes over a comment. -/
def skipsComment (lexer : Lexer) : List Call → Bool
  | [] => false
  | call :: calls =>
      decide (lexer.settings.commentIndicator ∈ lexer.passedOver call) ||
        (lexer.perform call).lexer.skipsComment calls

theorem passedOver_of_looks {lexer : Lexer} {call : Call}
    (looks : call = .pull → lexer.stopped = false) :
    lexer.passedOver call = lexer.unmarked.ahead.take
      (call.look lexer.settings.commentIndicator lexer.unmarked.ahead).skipped := by
  apply if_neg
  rintro ⟨pulls, stopped⟩
  rw [looks pulls] at stopped
  cases stopped

theorem perform_finding {lexer : Lexer} {call : Call}
    (looks : call = .pull → lexer.stopped = false) :
    (lexer.perform call).outcome.finding =
      (call.look lexer.settings.commentIndicator lexer.unmarked.ahead).finding := by
  cases call with
  | token => rw [perform_eq_deliver _ (by decide), deliver_finding]
  | phrase => rw [perform_eq_deliver _ (by decide), deliver_finding]
  | pull =>
      rw [perform, (pull_of_going (looks rfl)).1, scanToken_eq_deliver, deliver_finding]
      rfl

section OtherIndicator

variable {lexer : Lexer} {other : Settings} (valid : other.Valid)
  (sameMark : other.skipMark = lexer.settings.skipMark)

include sameMark

theorem perform_otherIndicator {call : Call}
    (bare : lexer.settings.commentIndicator ∉ lexer.passedOver call)
    (expected : (lexer.perform call).outcome.finding ≠
      .fault (.unexpectedCharacter other.commentIndicator)) :
    (lexer.under other valid).perform call = (lexer.perform call).under other valid := by
  apply perform_under valid (unmarked_under valid sameMark)
  intro looks
  rw [passedOver_of_looks looks] at bare
  rw [perform_finding looks] at expected
  cases call with
  | token => exact lookToken_otherIndicator lexer.valid valid bare expected
  | phrase => rfl
  | pull => exact lookToken_otherIndicator lexer.valid valid bare expected

theorem run_under_of_bare {calls : List Call} (bare : lexer.skipsComment calls = false)
    (expected : ∀ scan ∈ lexer.run calls,
      scan.outcome.finding ≠ .fault (.unexpectedCharacter other.commentIndicator)) :
    (lexer.under other valid).run calls = (lexer.run calls).map (Scan.under · other valid) := by
  induction calls generalizing lexer with
  | nil => rfl
  | cons call calls ih =>
      rw [skipsComment, Bool.or_eq_false_iff, decide_eq_false_iff_not] at bare
      obtain ⟨first, later⟩ := List.forall_mem_cons.1 expected
      have sameMarkToo : other.skipMark = (lexer.perform call).lexer.settings.skipMark := by
        rw [perform_settings]
        exact sameMark
      rw [run, run, List.map_cons, perform_otherIndicator valid sameMark bare.1 first]
      exact congrArg _ (ih sameMarkToo bare.2 later)

/-- A phrase has no comments. -/
theorem run_under_of_phrases {calls : List Call} (phrases : ∀ call ∈ calls, call = .phrase) :
    (lexer.under other valid).run calls = (lexer.run calls).map (Scan.under · other valid) := by
  induction calls generalizing lexer with
  | nil => rfl
  | cons call calls ih =>
      obtain ⟨rfl, later⟩ := List.forall_mem_cons.1 phrases
      have sameMarkToo : other.skipMark = (lexer.perform .phrase).lexer.settings.skipMark := by
        rw [perform_settings]
        exact sameMark
      rw [run, run, List.map_cons,
        perform_under valid (unmarked_under valid sameMark) fun _ => rfl]
      exact congrArg _ (ih sameMarkToo later)

end OtherIndicator

/-- **The comment indicator counts only where a token would start.** Take a lexer for the same
source with another valid indicator. If calls pass over no comment, and do not find the other
indicator unexpected, the other lexer answers them with the very same scans, and only the settings
differ. So it does, in particular, if the calls scan phrases only, whatever the indicators are; and
wherever calls have led, one that passes over no comment and finds no fault is answered alike,
whatever is in the string or the phrase that it finds. -/
theorem run_otherIndicator {text : List Char} {settings other : Settings} {start : Lexer}
    (made : withSettings text settings = .ok start) (valid : other.Valid)
    (sameMark : other.skipMark = settings.skipMark) (calls : List Call) :
    ∃ changed, withSettings text other = .ok changed ∧
      (start.skipsComment calls = false →
        (∀ scan ∈ start.run calls,
          scan.outcome.finding ≠ .fault (.unexpectedCharacter other.commentIndicator)) →
        changed.run calls = (start.run calls).map (Scan.under · other valid)) ∧
      ((∀ call ∈ calls, call = .phrase) →
        changed.run calls = (start.run calls).map (Scan.under · other valid)) ∧
      ∀ call, settings.commentIndicator ∉ (start.runFinal calls).passedOver call →
        ((start.runFinal calls).perform call).outcome.finding.isFault = false →
        ((start.runFinal calls).under other valid).perform call =
          ((start.runFinal calls).perform call).under other valid := by
  have kept := settings_of_withSettings made
  have sameMarkFirst : other.skipMark = start.settings.skipMark := by rw [kept, sameMark]
  refine ⟨start.under other valid, ?_, run_under_of_bare valid sameMarkFirst,
    run_under_of_phrases valid sameMarkFirst, ?_⟩
  · obtain ⟨-, rfl⟩ := eq_of_withSettings made
    exact withSettings_of_valid text valid
  · intro call bare sound
    rw [← kept, ← runFinal_settings start calls] at bare
    refine perform_otherIndicator valid ?_ bare fun fault => ?_
    · rw [runFinal_settings, sameMarkFirst]
    · rw [fault] at sound
      cases sound

/-- Two characters that may open a comment, in a string and in a phrase, and one of them where a
token would start. -/
def strewnText : List Char :=
  "A \"#*\" B*#\nC #. D #".toList

/-- Either indicator will do, until a scan finds one of them where a token would start. -/
theorem strewnText_otherIndicator :
    ((ofText strewnText).run [.pull, .token, .phrase, .token]).map (·.outcome) =
        [.token ⟨.name, "A"⟩, .token ⟨.string, "#*"⟩, .phrase "B*#\nC #", .token ⟨.name, "D"⟩] ∧
      ∃ changed, withSettings strewnText { commentIndicator := '#' } = .ok changed ∧
        changed.run [.pull, .token, .phrase, .token] =
          ((ofText strewnText).run [.pull, .token, .phrase, .token]).map
            (Scan.under · { commentIndicator := '#' } (by decide)) ∧
        (changed.runFinal [.pull, .token, .phrase, .token]).scanToken.outcome = .endOfInput ∧
        ((ofText strewnText).runFinal [.pull, .token, .phrase, .token]).scanToken.outcome =
          .error ⟨.unexpectedCharacter '#', ⟨18, 19, 2, 8⟩⟩ := by
  have valid : ({ commentIndicator := '#' } : Settings).Valid := by decide
  obtain ⟨changed, made, same, -⟩ := run_otherIndicator (withSettings_ofText strewnText) valid rfl
    [.pull, .token, .phrase, .token]
  refine ⟨by decide, changed, made, same (by decide) (by decide), ?_, by decide⟩
  obtain rfl := Except.ok.inj ((withSettings_of_valid _ (by decide)).symm.trans made)
  decide

end Lexer

end CobolSource
