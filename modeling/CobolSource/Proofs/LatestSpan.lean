/-
# Proofs.LatestSpan — the last span, across errors

A call settles if it scans and does not fail (`Lexer.Settles`). Only such a call has a say in the
last span: it leaves the span of what it produced, or none at the end of the source (`Settled`). Any
other call leaves the last span as it was: a pull that has stopped does nothing at all, and a scan
that fails has moved the cursor and kept everything else (`Fails`). So the last span is that of the
last call that settled, whatever came after it (`latest_of_last_settling`).

A string that is never closed is read to the end of the source, and there nothing is left for any
call to find. It is the last thing that a run yields.
-/
import CobolSource.Proofs.Progress
import CobolSource.Proofs.Pulling

namespace CobolSource

set_option autoImplicit false

namespace Lexer

/-! ## Calls that settle and calls that fail -/

/-- The call scans and does not fail. -/
def Settles (lexer : Lexer) (call : Call) : Prop :=
  (call = .pull → lexer.stopped = false) ∧ ∀ failed, (lexer.perform call).outcome ≠ .error failed

/-- None of the calls settles. -/
def Unsettled (lexer : Lexer) (calls : List Call) : Prop :=
  ∀ earlier call later, calls = earlier ++ call :: later → ¬ (lexer.runFinal earlier).Settles call

/-- What a scan that settles comes to where `read` is read or passed over and `unread` is left, and
the last span that it leaves. A phrase's blanks are not in its span. -/
inductive Settled (indicator : Char) (read : List Char) : List Char → Outcome → Option Span → Prop
  | token {gap after : List Char} {found : Token} :
      LayoutBefore indicator gap (found.written.toList ++ after) →
      Settled indicator read (gap ++ (found.written.toList ++ after)) (.token found)
        (some (.over (read ++ gap) found.written.toList))
  | phrase {gap trail rest : List Char} {text : String} :
      Blanks gap → PhraseBefore text.toList trail rest →
      Settled indicator read (gap ++ (text.toList ++ (trail ++ rest))) (.phrase text)
        (some (.over (read ++ gap) text.toList))
  | endOfInput {unread : List Char} : Settled indicator read unread .endOfInput none

/-- What a scan that fails leaves where `read` is read or passed over and `unread` is left. -/
structure Fails (lexer : Lexer) (read unread : List Char) (scan : Scan) (failed : ScanError) :
    Prop where
  latest_eq : scan.lexer.latest = lexer.latest
  settings_eq : scan.lexer.settings = lexer.settings
  stops : scan.lexer.cursor.place.offset = failed.span.stop
  /-- The span covers `part`, which starts with what is not layout. -/
  parts : ∃ gap part after, unread = gap ++ (part ++ after) ∧ part ≠ [] ∧
    LayoutBefore lexer.settings.commentIndicator gap (part ++ after) ∧
    failed.span = .over (read ++ gap) part ∧
    scan.lexer.cursor = .between (read ++ gap ++ part) after ∧
    ∀ c, failed.fault = .unexpectedCharacter c → part = [c]
  unclosed : failed.fault = .unclosedString → failed.span.stop = byteCount (read ++ unread) ∧
    scan.lexer.cursor.ahead = []

/-! ## One call -/

/-- The cursor that has just read `part` stands where the span of it stops. -/
theorem offset_between_append (before part after : List Char) :
    (Cursor.between (before ++ part) after).place.offset = (Span.over before part).stop := by
  rw [Cursor.place_between, offset_afterText_start, byteCount_append, Span.stop_over]

section Scans

variable {lexer : Lexer} {read unread : List Char}
  (stands : lexer.unmarked = .between read unread)

include stands

theorem scanToken_settled (sound : ∀ failed, lexer.scanToken.outcome ≠ .error failed) :
    Settled lexer.settings.commentIndicator read unread lexer.scanToken.outcome
      lexer.scanToken.lexer.latest := by
  obtain ⟨gap, rest, rfl, layout, scanned⟩ := scanToken_spec stands
  generalize lexer.scanToken = scan at scanned sound
  cases scanned with
  | ended => exact .endOfInput
  | token longest => exact .token layout
  | unexpected | unclosed => exact absurd rfl (sound _)

theorem scanPhrase_settled :
    Settled lexer.settings.commentIndicator read unread lexer.scanPhrase.outcome
      lexer.scanPhrase.lexer.latest := by
  rcases exists_phraseBefore unread with blank | ⟨gap, phrase, trail, rest, rfl, blank, next⟩
  · rw [scanPhrase_of_blanks stands blank]
    exact .endOfInput
  · rw [scanPhrase_of_phraseBefore stands blank next]
    rw [← String.toList_ofList (l := phrase)] at next
    have settled : Settled lexer.settings.commentIndicator read _ _ _ := .phrase blank next
    rwa [String.toList_ofList] at settled

theorem scanToken_fails {failed : ScanError} (fails : lexer.scanToken.outcome = .error failed) :
    Fails lexer read unread lexer.scanToken failed := by
  obtain ⟨gap, rest, rfl, layout, scanned⟩ := scanToken_spec stands
  generalize lexer.scanToken = scan at scanned fails
  cases scanned with
  | ended | token => cases fails
  | unexpected other none =>
      cases fails
      refine ⟨rfl, rfl, offset_between_append _ _ _,
        ⟨gap, [_], _, rfl, List.cons_ne_nil _ _, layout, rfl, rfl, ?_⟩, nofun⟩
      rintro c ⟨⟩
      rfl
  | unclosed none =>
      cases fails
      refine ⟨rfl, rfl, offset_between_append _ _ _, ⟨gap, quote :: _, [], ?_, List.cons_ne_nil _ _,
        ?_, rfl, rfl, nofun⟩, fun _ => ⟨?_, rfl⟩⟩
      · rw [List.append_nil]
      · rwa [List.append_nil]
      · rw [Span.stop_over, ← byteCount_append, List.append_assoc]

end Scans

/-- A call that settles leaves its own last span. -/
theorem perform_settled {lexer : Lexer} {call : Call} {read unread : List Char}
    (stands : lexer.unmarked = .between read unread) (settles : lexer.Settles call) :
    Settled lexer.settings.commentIndicator read unread (lexer.perform call).outcome
      (lexer.perform call).lexer.latest := by
  obtain ⟨going, sound⟩ := settles
  rcases lexer.perform_idle_or_scans call with ⟨rfl, stopped, -⟩ | ⟨scan, stopped, scans, -, same⟩
  · cases stopped.symm.trans (going rfl)
  · rw [same] at sound ⊢
    cases scan with
    | token => exact scanToken_settled stands sound
    | phrase => exact scanPhrase_settled stands
    | pull => exact absurd rfl scans

theorem scanPhrase_not_error {lexer : Lexer} {failed : ScanError} :
    lexer.scanPhrase.outcome ≠ .error failed := by
  unfold scanPhrase
  dsimp only
  split <;> nofun

/-- A call that fails keeps what it can. -/
theorem perform_fails {lexer : Lexer} {call : Call} {read unread : List Char}
    (stands : lexer.unmarked = .between read unread) {failed : ScanError}
    (fails : (lexer.perform call).outcome = .error failed) :
    Fails lexer read unread (lexer.perform call) failed := by
  rcases lexer.perform_idle_or_scans call with ⟨-, -, idle⟩ | ⟨scan, stopped, scans, -, same⟩
  · rw [idle] at fails
    cases fails
  · rw [same] at fails ⊢
    cases scan with
    | token =>
        have asToken := scanToken_fails stands fails
        exact ⟨asToken.latest_eq, asToken.settings_eq, asToken.stops, asToken.parts,
          asToken.unclosed⟩
    | phrase => exact absurd fails scanPhrase_not_error
    | pull => exact absurd rfl scans

/-- A call that does not settle has no say in the last span. -/
theorem latest_of_not_settles {lexer : Lexer} {call : Call} (unsettled : ¬ lexer.Settles call) :
    (lexer.perform call).lexer.latest = lexer.latest := by
  rcases lexer.perform_idle_or_scans call with ⟨-, -, idle⟩ | ⟨scan, stopped, scans, going, same⟩
  · rw [idle]
  · obtain ⟨failed, fails⟩ : ∃ failed, (lexer.perform call).outcome = .error failed := by
      by_contra sound
      exact unsettled ⟨going, not_exists.1 sound⟩
    rw [same] at fails ⊢
    have kept := lexer.perform_latest_eq scans
    rwa [show (lexer.perform scan).outcome = .error failed from fails] at kept

/-! ## Many calls -/

theorem unsettled_nil (lexer : Lexer) : lexer.Unsettled [] :=
  fun _ _ _ split =>
    absurd split.symm (List.append_ne_nil_of_right_ne_nil _ (List.cons_ne_nil _ _))

theorem unsettled_cons_iff {lexer : Lexer} {call : Call} {calls : List Call} :
    lexer.Unsettled (call :: calls) ↔
      ¬ lexer.Settles call ∧ (lexer.perform call).lexer.Unsettled calls := by
  constructor
  · intro unsettled
    exact ⟨unsettled [] call calls rfl, fun earlier next later split =>
      unsettled (call :: earlier) next later (congrArg _ split)⟩
  · rintro ⟨first, others⟩ earlier next later split
    cases earlier with
    | nil =>
        obtain ⟨rfl, rfl⟩ := List.cons.inj split
        exact first
    | cons other earlier =>
        obtain ⟨rfl, rfl⟩ := List.cons.inj split
        exact others earlier next later rfl

theorem latest_of_unsettled {lexer : Lexer} {calls : List Call}
    (unsettled : lexer.Unsettled calls) : (lexer.runFinal calls).latest = lexer.latest := by
  induction calls generalizing lexer with
  | nil => rfl
  | cons call calls ih =>
      obtain ⟨first, others⟩ := unsettled_cons_iff.1 unsettled
      rw [runFinal, ih others, latest_of_not_settles first]

/-- The scans of a run before one of them and after it are runs themselves. -/
theorem exists_calls_of_run {lexer : Lexer} {calls : List Call} {scans rest : List Scan}
    {scan : Scan} (ran : lexer.run calls = scans ++ scan :: rest) :
    ∃ earlier call later, calls = earlier ++ call :: later ∧
      scan = (lexer.runFinal earlier).perform call ∧ rest = scan.lexer.run later := by
  induction scans generalizing lexer calls with
  | nil =>
      cases calls with
      | nil => cases ran
      | cons call calls =>
          obtain ⟨rfl, rfl⟩ := List.cons.inj ran
          exact ⟨[], call, calls, rfl, rfl, rfl⟩
  | cons first scans ih =>
      cases calls with
      | nil => cases ran
      | cons call calls =>
          obtain ⟨rfl, others⟩ := List.cons.inj ran
          obtain ⟨earlier, next, later, rfl, found, after⟩ := ih others
          exact ⟨call :: earlier, next, later, rfl, found, after⟩

/-- Behind a string that is never closed there is nothing to find. -/
theorem ended_after_unclosed {text : List Char} {settings : Settings} {start : Lexer}
    (made : withSettings text settings = .ok start) {calls : List Call} {scans rest : List Scan}
    {failed : Scan} {span : Span} (ran : start.run calls = scans ++ failed :: rest)
    (unclosed : failed.outcome = .error ⟨.unclosedString, span⟩) :
    ∀ scan ∈ rest, scan.outcome = .endOfInput := by
  obtain ⟨earlier, call, later, -, rfl, rfl⟩ := exists_calls_of_run ran
  obtain ⟨before, mark, unread, -, -, -, unmarked⟩ := unmarked_runFinal made earlier
  have atEnd := ((perform_fails unmarked unclosed).unclosed rfl).2
  exact fun scan among => (run_of_atEnd atEnd among).1

/-- **The last span is that of the last call that settled.** Whatever the calls were:

* if none of them settled, there is no last span; otherwise it is what the last one that settled
  left: the span of its token or of its phrase, from the first character to the last, or none at the
  end;
* a call that fails keeps the last span and the settings, and the cursor stands where its error's
  span stops, which starts at the first character that is not layout, and covers the one character
  that is unexpected, or all the rest of the source if a string is not closed;
* behind a string that is not closed every call finds the end, so that no run comes to two of them
  and nothing is yielded after one. -/
theorem latest_of_last_settling {text : List Char} {settings : Settings} {start : Lexer}
    (made : withSettings text settings = .ok start) (calls : List Call) :
    (start.Unsettled calls → (start.runFinal calls).latest = none) ∧
    (∀ earlier call later, calls = earlier ++ call :: later →
      (start.runFinal earlier).Settles call →
      ((start.runFinal earlier).perform call).lexer.Unsettled later →
      ∃ before mark unread, text = before ++ (mark ++ unread) ∧
        (start.runFinal earlier).cursor = .between before (mark ++ unread) ∧
        mark = (if earlier = [] then settings.skippedMark text else []) ∧
        Settled settings.commentIndicator (before ++ mark) unread
          ((start.runFinal earlier).perform call).outcome (start.runFinal calls).latest) ∧
    (∀ call failed, ((start.runFinal calls).perform call).outcome = .error failed →
      ∃ before mark unread, text = before ++ (mark ++ unread) ∧
        (start.runFinal calls).cursor = .between before (mark ++ unread) ∧
        mark = (if calls = [] then settings.skippedMark text else []) ∧
        Fails (start.runFinal calls) (before ++ mark) unread
          ((start.runFinal calls).perform call) failed) ∧
    (∀ scans failed rest span, start.run calls = scans ++ failed :: rest →
      failed.outcome = .error ⟨.unclosedString, span⟩ →
      (∀ scan ∈ rest, scan.outcome = .endOfInput) ∧
        ∀ scan ∈ scans, ∀ span, scan.outcome ≠ .error ⟨.unclosedString, span⟩) := by
  refine ⟨?_, ?_, ?_, ?_⟩
  · intro unsettled
    rw [latest_of_unsettled unsettled]
    obtain ⟨valid, rfl⟩ := eq_of_withSettings made
    rfl
  · rintro earlier call later rfl settles unsettled
    obtain ⟨before, mark, unread, split, stands, marked, unmarked⟩ := unmarked_runFinal made earlier
    have settled := perform_settled unmarked settles
    rw [runFinal_settings, settings_of_withSettings made] at settled
    refine ⟨before, mark, unread, split, stands, marked, ?_⟩
    rw [runFinal_append, runFinal, latest_of_unsettled unsettled]
    exact settled
  · intro call failed fails
    obtain ⟨before, mark, unread, split, stands, marked, unmarked⟩ := unmarked_runFinal made calls
    exact ⟨before, mark, unread, split, stands, marked, perform_fails unmarked fails⟩
  · intro scans failed rest span ran unclosed
    refine ⟨ended_after_unclosed made ran unclosed, ?_⟩
    intro scan among other unclosedToo
    obtain ⟨far, near, rfl⟩ := List.append_of_mem among
    rw [List.append_assoc, List.cons_append] at ran
    have ended := ended_after_unclosed made ran unclosedToo failed (by simp)
    cases ended.symm.trans unclosed

/-- A name, a character that starts nothing, another name, and a string that is never closed. -/
def failingText : List Char :=
  "A *x\n§ B\"é".toList

/-- A pull that fails and one that does not scan leave the last span to the name before them. Behind
the string there is nothing more. -/
theorem failingText_latest :
    ((ofText failingText).runFinal [.token, .pull, .pull]).latest = some ⟨0, 1, 1, 1⟩ ∧
      (∃ before mark unread, failingText = before ++ (mark ++ unread) ∧
        Settled '*' (before ++ mark) unread (.token ⟨.name, "A"⟩) (some ⟨0, 1, 1, 1⟩)) ∧
      (∃ before mark unread, failingText = before ++ (mark ++ unread) ∧
        Fails ((ofText failingText).runFinal [.token]) (before ++ mark) unread
          ((ofText failingText).runFinal [.token]).pull
          ⟨.unexpectedCharacter '§', ⟨5, 7, 2, 1⟩⟩) ∧
      ∀ later, ∀ scan ∈ ((ofText failingText).runFinal [.token, .token, .token, .token]).run later,
        scan.outcome = .endOfInput := by
  have made := withSettings_ofText failingText
  have kept : ((ofText failingText).runFinal [.token, .pull, .pull]).latest =
      some ⟨0, 1, 1, 1⟩ := by decide
  have found : ((ofText failingText).perform .token).outcome = .token ⟨.name, "A"⟩ := by decide
  have fails : (((ofText failingText).runFinal [.token]).perform .pull).outcome =
      .error ⟨.unexpectedCharacter '§', ⟨5, 7, 2, 1⟩⟩ := by decide
  have settles : (ofText failingText).Settles .token := ⟨nofun, by rw [found]; nofun⟩
  have unsettled : ((ofText failingText).perform .token).lexer.Unsettled [.pull, .pull] := by
    refine unsettled_cons_iff.2 ⟨fun settles => settles.2 _ fails, ?_⟩
    refine unsettled_cons_iff.2 ⟨fun settles => ?_, unsettled_nil _⟩
    exact absurd (settles.1 rfl) (by decide)
  obtain ⟨-, last, -, -⟩ := latest_of_last_settling made [.token, .pull, .pull]
  obtain ⟨-, -, failing, -⟩ := latest_of_last_settling made [.token]
  obtain ⟨before, mark, unread, split, -, -, settled⟩ := last [] .token _ rfl settles unsettled
  obtain ⟨before', mark', unread', split', -, -, keeps⟩ := failing .pull _ fails
  rw [kept, runFinal, found] at settled
  refine ⟨kept, ⟨before, mark, unread, split, settled⟩,
    ⟨before', mark', unread', split', keeps⟩, ?_⟩
  intro later
  obtain ⟨-, -, -, ended⟩ :=
    latest_of_last_settling made ([.token, .token, .token, .token] ++ later)
  refine (ended ((ofText failingText).run [.token, .token, .token]) _ _ ⟨9, 12, 2, 4⟩ rfl ?_).1
  decide

end Lexer

end CobolSource
