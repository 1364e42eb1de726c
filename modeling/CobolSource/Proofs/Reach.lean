/-
# Proofs.Reach — where calls can lead a lexer

Whatever a call does to the cursor, it only moves it forward (`perform_cursor`), so a lexer keeps
reading its own text: after any calls its cursor is `Cursor.between` the part it has read and the
part it has not, and its place is the count of the part read (`runFinal_between`).

What a call hands out is settled there too: each span starts at a place the scan passes
(`perform_span`), a lexer's last span is one that some call handed out (`runFinal_latest`), and all
the tokens are the first one scanned and then all the others (`allTokens_eq_ok_cons`).

A byte order mark is skipped by the first scan or never. No lexer remembers that scan, and none has
to: after one call the cursor has left the start of its text, unless there is no text to leave
(`runFinal_started`). `unmarked_runFinal` is the rule: what a scan skips is `Settings.skippedMark`
of the text if no call came before it, and nothing otherwise.
-/
import CobolSource.Scan.Run

namespace CobolSource

set_option autoImplicit false

/-! ## A cursor between two parts of a text -/

namespace Cursor

/-- The cursor that has read `before` and has `after` still to read. -/
def between (before after : List Char) : Cursor :=
  ⟨before.reverse, after, Place.afterText {} before⟩

@[simp] theorem ahead_between (before after : List Char) : (between before after).ahead = after :=
  rfl

@[simp] theorem behind_between (before after : List Char) :
    (between before after).behind = before.reverse := rfl

@[simp] theorem place_between (before after : List Char) :
    (between before after).place = Place.afterText {} before := rfl

@[simp] theorem atStart_between (before after : List Char) :
    (between before after).atStart = before.isEmpty := by
  simp [between, atStart, List.isEmpty_reverse]

theorem advanceBy_between (n : Nat) (before after : List Char) :
    (between before after).advanceBy n = between (before ++ after.take n) (after.drop n) := by
  rw [advanceBy_eq]
  simp [between, Place.afterText_append]

/-- Past a part that stands right ahead. -/
theorem advanceBy_length_between (before part rest : List Char) :
    (between before (part ++ rest)).advanceBy part.length = between (before ++ part) rest := by
  rw [advanceBy_between, List.take_left, List.drop_left]

/-- A cursor with nothing behind it has not moved. -/
theorem advanceBy_eq_self {cursor : Cursor} {n : Nat}
    (atStart : (cursor.advanceBy n).behind = []) : cursor.advanceBy n = cursor := by
  rw [behind_advanceBy, List.append_eq_nil_iff, List.reverse_eq_nil_iff] at atStart
  have dropped := List.take_append_drop n cursor.ahead
  rw [atStart.1, List.nil_append] at dropped
  rw [advanceBy_eq, atStart.1, dropped]
  rfl

end Cursor

namespace Lexer

/-! ## How far a call moves the cursor -/

theorem unmarked_eq_advanceBy (lexer : Lexer) : ∃ n, lexer.unmarked = lexer.cursor.advanceBy n := by
  unfold unmarked Cursor.accept?
  split
  · split
    · exact ⟨1, rfl⟩
    · exact ⟨0, rfl⟩
  · exact ⟨0, rfl⟩

theorem tokenStart_eq_advanceBy (lexer : Lexer) :
    ∃ n, lexer.tokenStart = lexer.cursor.advanceBy n := by
  obtain ⟨n, marked⟩ := lexer.unmarked_eq_advanceBy
  rw [tokenStart, marked, Cursor.advanceBy_advanceBy]
  exact ⟨_, rfl⟩

theorem phraseStart_eq_advanceBy (lexer : Lexer) :
    ∃ n, lexer.phraseStart = lexer.cursor.advanceBy n := by
  obtain ⟨n, marked⟩ := lexer.unmarked_eq_advanceBy
  rw [phraseStart, marked, Cursor.skipBlanks, Cursor.advanceWhile, Cursor.advanceBy_advanceBy]
  exact ⟨_, rfl⟩

/-! ## What a scan makes of a reading -/

theorem scanToken_of_end {lexer : Lexer} (ended : lexer.tokenStart.ahead = []) :
    lexer.scanToken = lexer.finish lexer.tokenStart := by
  simp only [scanToken, ended, reading]

theorem scanToken_of_token {lexer : Lexer} {token : Token} {width : Nat}
    (read : reading lexer.tokenStart.ahead = .token token width) :
    lexer.scanToken =
      lexer.produce (lexer.tokenStart.advanceBy width)
        (lexer.tokenStart.place.spanTo (lexer.tokenStart.advanceBy width).place.offset)
        (.token token) (.token token) := by
  simp only [scanToken, read]

theorem scanToken_of_fault {lexer : Lexer} {fault : Fault} {width : Nat}
    (read : reading lexer.tokenStart.ahead = .fault fault width) :
    lexer.scanToken =
      lexer.fail (lexer.tokenStart.advanceBy width)
        ⟨fault, lexer.tokenStart.place.spanTo
          (lexer.tokenStart.advanceBy width).place.offset⟩ := by
  simp only [scanToken, read]

theorem scanToken_outcome (lexer : Lexer) :
    lexer.scanToken.outcome = .endOfInput ∨
      (∃ token, lexer.scanToken.outcome = .token token) ∨
      ∃ error, lexer.scanToken.outcome = .error error := by
  unfold scanToken
  dsimp only
  split
  · exact .inl rfl
  · exact .inr (.inl ⟨_, rfl⟩)
  · exact .inr (.inr ⟨_, rfl⟩)

theorem scanPhrase_of_end {lexer : Lexer} (ended : lexer.phraseStart.ahead = []) :
    lexer.scanPhrase = lexer.finish lexer.phraseStart := by
  simp [scanPhrase, Cursor.atEnd, ended]

theorem scanPhrase_of_more {lexer : Lexer} (more : lexer.phraseStart.ahead ≠ []) :
    lexer.scanPhrase =
      lexer.produce (lexer.phraseStart.advanceBy (bodyLength lexer.phraseStart.ahead + 1))
        (lexer.phraseStart.place.spanTo
          (lexer.phraseStart.place.afterText (phraseText lexer.phraseStart.ahead)).offset)
        (.phrase (String.ofList (phraseText lexer.phraseStart.ahead)))
        (.phrase (String.ofList (phraseText lexer.phraseStart.ahead))) := by
  simp [scanPhrase, Cursor.atEnd, more]

theorem pull_of_stopped {lexer : Lexer} (stopped : lexer.stopped = true) :
    lexer.pull = ⟨.endOfInput, lexer, []⟩ := by
  simp [pull, stopped]

/-- A pull that has not stopped is a token scan, and an error stops it. -/
theorem pull_of_going {lexer : Lexer} (going : lexer.stopped = false) :
    lexer.pull.outcome = lexer.scanToken.outcome ∧
      lexer.pull.events = lexer.scanToken.events ∧
      lexer.pull.lexer.cursor = lexer.scanToken.lexer.cursor ∧
      lexer.pull.lexer.settings = lexer.scanToken.lexer.settings ∧
      lexer.pull.lexer.latest = lexer.scanToken.lexer.latest := by
  unfold pull
  rw [if_neg (by simp [going])]
  dsimp only
  split <;> exact ⟨rfl, rfl, rfl, rfl, rfl⟩

/-- Only an error makes a pull leave another lexer than a token scan does. -/
theorem pull_eq_scanToken {lexer : Lexer} (going : lexer.stopped = false)
    (sound : ∀ error, lexer.scanToken.outcome ≠ .error error) : lexer.pull = lexer.scanToken := by
  unfold pull
  rw [if_neg (by simp [going])]
  dsimp only
  split
  · rename_i failed
    exact absurd failed (sound _)
  · rfl

/-! ## What a call leaves -/

theorem scanToken_cursor (lexer : Lexer) :
    ∃ n, lexer.scanToken.lexer.cursor = lexer.cursor.advanceBy n := by
  obtain ⟨n, start⟩ := lexer.tokenStart_eq_advanceBy
  cases read : reading lexer.tokenStart.ahead with
  | nothing =>
      rw [scanToken_of_end (reading_nothing_iff.1 read)]
      exact ⟨n, start⟩
  | token token width =>
      rw [scanToken_of_token read, start]
      exact ⟨n + width, Cursor.advanceBy_advanceBy ..⟩
  | fault fault width =>
      rw [scanToken_of_fault read, start]
      exact ⟨n + width, Cursor.advanceBy_advanceBy ..⟩

theorem scanPhrase_cursor (lexer : Lexer) :
    ∃ n, lexer.scanPhrase.lexer.cursor = lexer.cursor.advanceBy n := by
  obtain ⟨n, start⟩ := lexer.phraseStart_eq_advanceBy
  by_cases ended : lexer.phraseStart.ahead = []
  · rw [scanPhrase_of_end ended]
    exact ⟨n, start⟩
  · rw [scanPhrase_of_more ended]
    simp only [produce, start]
    exact ⟨_, Cursor.advanceBy_advanceBy ..⟩

theorem perform_cursor (lexer : Lexer) (call : Call) :
    ∃ n, (lexer.perform call).lexer.cursor = lexer.cursor.advanceBy n := by
  cases call with
  | token => exact lexer.scanToken_cursor
  | phrase => exact lexer.scanPhrase_cursor
  | pull =>
      cases stopped : lexer.stopped with
      | true =>
          rw [perform, pull_of_stopped stopped]
          exact ⟨0, rfl⟩
      | false =>
          rw [perform, (pull_of_going stopped).2.2.1]
          exact lexer.scanToken_cursor

theorem scanToken_settings (lexer : Lexer) : lexer.scanToken.lexer.settings = lexer.settings := by
  unfold scanToken
  dsimp only
  split <;> rfl

theorem scanToken_stopped (lexer : Lexer) : lexer.scanToken.lexer.stopped = lexer.stopped := by
  unfold scanToken
  dsimp only
  split <;> rfl

theorem scanPhrase_settings (lexer : Lexer) :
    lexer.scanPhrase.lexer.settings = lexer.settings := by
  unfold scanPhrase
  dsimp only
  split <;> rfl

theorem perform_settings (lexer : Lexer) (call : Call) :
    (lexer.perform call).lexer.settings = lexer.settings := by
  cases call with
  | token => exact lexer.scanToken_settings
  | phrase => exact lexer.scanPhrase_settings
  | pull =>
      cases stopped : lexer.stopped with
      | true => rw [perform, pull_of_stopped stopped]
      | false =>
          rw [perform, (pull_of_going stopped).2.2.2.1]
          exact lexer.scanToken_settings

theorem scanToken_ended {lexer : Lexer} (ended : lexer.scanToken.outcome = .endOfInput) :
    lexer.scanToken.lexer.cursor.ahead = [] := by
  cases read : reading lexer.tokenStart.ahead with
  | nothing =>
      have empty := reading_nothing_iff.1 read
      rw [scanToken_of_end empty]
      exact empty
  | token token width => rw [scanToken_of_token read] at ended; cases ended
  | fault fault width => rw [scanToken_of_fault read] at ended; cases ended

theorem scanPhrase_ended {lexer : Lexer} (ended : lexer.scanPhrase.outcome = .endOfInput) :
    lexer.scanPhrase.lexer.cursor.ahead = [] := by
  by_cases empty : lexer.phraseStart.ahead = []
  · rw [scanPhrase_of_end empty]
    exact empty
  · rw [scanPhrase_of_more empty] at ended
    cases ended

/-- A call that finds the end leaves nothing to read, unless it does not scan. -/
theorem perform_ended {lexer : Lexer} {call : Call}
    (scans : call = .pull → lexer.stopped = false)
    (ended : (lexer.perform call).outcome = .endOfInput) :
    (lexer.perform call).lexer.cursor.ahead = [] := by
  cases call with
  | token => exact scanToken_ended ended
  | phrase => exact scanPhrase_ended ended
  | pull =>
      obtain ⟨outcome, -, cursor, -⟩ := pull_of_going (scans rfl)
      rw [perform, outcome] at ended
      rw [perform, cursor]
      exact scanToken_ended ended

/-! ## What a call hands out -/

end Lexer

/-- The span a scan hands out: that of what it produced, or that of its error. -/
def Scan.span? (scan : Scan) : Option Span :=
  match scan.outcome with
  | .token _ => scan.lexer.latest
  | .phrase _ => scan.lexer.latest
  | .error error => some error.span
  | .endOfInput => none

theorem Scan.yields_of_span? {scan : Scan} {span : Span} (handed : scan.span? = some span) :
    scan.outcome ≠ .endOfInput := by
  intro ended
  rw [span?, ended] at handed
  cases handed

namespace Lexer

theorem scanToken_span {lexer : Lexer} {span : Span}
    (handed : lexer.scanToken.span? = some span) :
    ∃ n stop, span = (lexer.cursor.advanceBy n).place.spanTo stop := by
  obtain ⟨n, start⟩ := lexer.tokenStart_eq_advanceBy
  cases read : reading lexer.tokenStart.ahead with
  | nothing =>
      rw [scanToken_of_end (reading_nothing_iff.1 read)] at handed
      cases handed
  | token token width =>
      rw [scanToken_of_token read, start] at handed
      exact ⟨n, _, (Option.some.inj handed).symm⟩
  | fault fault width =>
      rw [scanToken_of_fault read, start] at handed
      exact ⟨n, _, (Option.some.inj handed).symm⟩

theorem scanPhrase_span {lexer : Lexer} {span : Span}
    (handed : lexer.scanPhrase.span? = some span) :
    ∃ n stop, span = (lexer.cursor.advanceBy n).place.spanTo stop := by
  obtain ⟨n, start⟩ := lexer.phraseStart_eq_advanceBy
  by_cases ended : lexer.phraseStart.ahead = []
  · rw [scanPhrase_of_end ended] at handed
    cases handed
  · rw [scanPhrase_of_more ended, start] at handed
    exact ⟨n, _, (Option.some.inj handed).symm⟩

theorem pull_span? {lexer : Lexer} (going : lexer.stopped = false) :
    lexer.pull.span? = lexer.scanToken.span? := by
  obtain ⟨outcome, -, -, -, latest⟩ := pull_of_going going
  rw [Scan.span?, Scan.span?, outcome, latest]

/-- A span handed out starts at a place that the scan's cursor passes. -/
theorem perform_span {lexer : Lexer} {call : Call} {span : Span}
    (handed : (lexer.perform call).span? = some span) :
    ∃ n stop, span = (lexer.cursor.advanceBy n).place.spanTo stop := by
  cases call with
  | token => exact scanToken_span handed
  | phrase => exact scanPhrase_span handed
  | pull =>
      rw [perform] at handed
      cases stopped : lexer.stopped with
      | true =>
          rw [pull_of_stopped stopped] at handed
          cases handed
      | false =>
          rw [pull_span? stopped] at handed
          exact scanToken_span handed

theorem scanToken_latest {lexer : Lexer} {span : Span}
    (kept : lexer.scanToken.lexer.latest = some span) :
    lexer.scanToken.span? = some span ∨ lexer.latest = some span := by
  cases read : reading lexer.tokenStart.ahead with
  | nothing =>
      rw [scanToken_of_end (reading_nothing_iff.1 read)] at kept
      cases kept
  | token token width =>
      rw [scanToken_of_token read] at kept ⊢
      exact .inl kept
  | fault fault width =>
      rw [scanToken_of_fault read] at kept
      exact .inr kept

theorem scanPhrase_latest {lexer : Lexer} {span : Span}
    (kept : lexer.scanPhrase.lexer.latest = some span) : lexer.scanPhrase.span? = some span := by
  by_cases ended : lexer.phraseStart.ahead = []
  · rw [scanPhrase_of_end ended] at kept
    cases kept
  · rw [scanPhrase_of_more ended] at kept ⊢
    exact kept

/-- A lexer's last span is what its last call handed out, or else what it had before. -/
theorem perform_latest {lexer : Lexer} {call : Call} {span : Span}
    (kept : (lexer.perform call).lexer.latest = some span) :
    (lexer.perform call).span? = some span ∨ lexer.latest = some span := by
  cases call with
  | token => exact scanToken_latest kept
  | phrase => exact .inl (scanPhrase_latest kept)
  | pull =>
      rw [perform] at kept ⊢
      cases stopped : lexer.stopped with
      | true =>
          rw [pull_of_stopped stopped] at kept
          exact .inr kept
      | false =>
          rw [pull_span? stopped]
          exact scanToken_latest ((pull_of_going stopped).2.2.2.2 ▸ kept)

/-! ## What calls leave -/

/-- Every scan of a run is one call, made on the lexer that the calls before it left. -/
theorem mem_run {lexer : Lexer} {calls : List Call} {scan : Scan} (made : scan ∈ lexer.run calls) :
    ∃ earlier call later, calls = earlier ++ call :: later ∧
      scan = (lexer.runFinal earlier).perform call := by
  induction calls generalizing lexer with
  | nil => cases made
  | cons call calls ih =>
      rcases List.mem_cons.1 made with rfl | later
      · exact ⟨[], call, calls, rfl, rfl⟩
      · obtain ⟨earlier, next, rest, rfl, rfl⟩ := ih later
        exact ⟨call :: earlier, next, rest, rfl, rfl⟩

/-- Where a last span comes from: some call of the run handed it out. -/
theorem runFinal_latest {lexer : Lexer} {calls : List Call} {span : Span}
    (kept : (lexer.runFinal calls).latest = some span) :
    (∃ scan ∈ lexer.run calls, scan.span? = some span) ∨ lexer.latest = some span := by
  induction calls generalizing lexer with
  | nil => exact .inr kept
  | cons call calls ih =>
      rcases ih kept with ⟨scan, later, handed⟩ | had
      · exact .inl ⟨scan, List.mem_cons_of_mem _ later, handed⟩
      · rcases perform_latest had with handed | before
        · exact .inl ⟨_, List.mem_cons_self, handed⟩
        · exact .inr before

theorem runFinal_cursor (lexer : Lexer) (calls : List Call) :
    ∃ n, (lexer.runFinal calls).cursor = lexer.cursor.advanceBy n := by
  induction calls generalizing lexer with
  | nil => exact ⟨0, rfl⟩
  | cons call calls ih =>
      obtain ⟨m, first⟩ := lexer.perform_cursor call
      obtain ⟨n, later⟩ := ih (lexer.perform call).lexer
      rw [runFinal, later, first, Cursor.advanceBy_advanceBy]
      exact ⟨m + n, rfl⟩

theorem runFinal_settings (lexer : Lexer) (calls : List Call) :
    (lexer.runFinal calls).settings = lexer.settings := by
  induction calls generalizing lexer with
  | nil => rfl
  | cons call calls ih => rw [runFinal, ih, perform_settings]

/-- What a lexer over `text` looks like before its first call. -/
theorem eq_of_withSettings {text : List Char} {settings : Settings} {start : Lexer}
    (made : withSettings text settings = .ok start) :
    ∃ valid : settings.Valid, start = { cursor := .ofText text, settings, valid } := by
  unfold withSettings at made
  split at made
  · rename_i valid
    exact ⟨valid, (Except.ok.inj made).symm⟩
  · cases made

theorem cursor_of_withSettings {text : List Char} {settings : Settings} {start : Lexer}
    (made : withSettings text settings = .ok start) : start.cursor = Cursor.between [] text := by
  obtain ⟨valid, rfl⟩ := eq_of_withSettings made
  rfl

theorem settings_of_withSettings {text : List Char} {settings : Settings} {start : Lexer}
    (made : withSettings text settings = .ok start) : start.settings = settings := by
  obtain ⟨valid, rfl⟩ := eq_of_withSettings made
  rfl

theorem going_of_withSettings {text : List Char} {settings : Settings} {start : Lexer}
    (made : withSettings text settings = .ok start) : start.stopped = false := by
  obtain ⟨valid, rfl⟩ := eq_of_withSettings made
  rfl

theorem withSettings_ofText (text : List Char) : withSettings text {} = .ok (ofText text) :=
  withSettings_of_valid text Settings.valid_default

/-- A lexer over `text` stands between two parts of it, whatever calls it has answered. -/
theorem runFinal_between {text : List Char} {settings : Settings} {start : Lexer}
    (made : withSettings text settings = .ok start) (calls : List Call) :
    ∃ before after, text = before ++ after ∧
      (start.runFinal calls).cursor = Cursor.between before after := by
  obtain ⟨n, moved⟩ := start.runFinal_cursor calls
  refine ⟨text.take n, text.drop n, (List.take_append_drop n text).symm, ?_⟩
  rw [moved, cursor_of_withSettings made, Cursor.advanceBy_between, List.nil_append]

/-- One call is enough to leave the start of a text, unless the text is empty. -/
theorem perform_started {lexer : Lexer} (going : lexer.stopped = false) (call : Call)
    (atStart : (lexer.perform call).lexer.cursor.behind = []) : lexer.cursor.ahead = [] := by
  obtain ⟨n, moved⟩ := lexer.perform_cursor call
  rw [moved, Cursor.behind_advanceBy] at atStart
  obtain ⟨taken, -⟩ := List.append_eq_nil_iff.1 atStart
  rw [List.reverse_eq_nil_iff, List.take_eq_nil_iff] at taken
  rcases taken with rfl | empty
  · -- The cursor did not move, so the call yielded nothing: it was at the end already.
    by_cases ended : (lexer.perform call).outcome = .endOfInput
    · have done := perform_ended (fun _ => going) ended
      rwa [moved] at done
    · have progress := perform_progress ended
      rw [moved] at progress
      exact absurd progress (Nat.lt_irrefl _)
  · exact empty

theorem runFinal_started {text : List Char} {settings : Settings} {start : Lexer}
    (made : withSettings text settings = .ok start) {calls : List Call} (called : calls ≠ [])
    (atStart : (start.runFinal calls).cursor.behind = []) : text = [] := by
  cases calls with
  | nil => exact absurd rfl called
  | cons call calls =>
      obtain ⟨n, moved⟩ := (start.perform call).lexer.runFinal_cursor calls
      rw [runFinal, moved, Cursor.behind_advanceBy] at atStart
      have whole := perform_started (going_of_withSettings made) call
        (List.append_eq_nil_iff.1 atStart).2
      rwa [cursor_of_withSettings made] at whole

/-! ## Calls until the end -/

theorem untilEnd_of_ended {lexer : Lexer} {call : Call}
    (ended : (lexer.perform call).outcome = .endOfInput) :
    lexer.untilEnd call = [lexer.perform call] := by
  rw [untilEnd_eq, ended]

theorem untilEnd_of_yields {lexer : Lexer} {call : Call}
    (yields : (lexer.perform call).outcome ≠ .endOfInput) :
    lexer.untilEnd call =
      lexer.perform call :: (lexer.perform call).lexer.untilEnd call := by
  rw [untilEnd_eq]
  split
  · rename_i ended
    exact absurd ended yields
  · rfl

theorem allTokens_of_pull_end {lexer : Lexer} (ended : lexer.pull.outcome = .endOfInput) :
    lexer.allTokens = .ok [] := by
  have pulled : (lexer.perform .pull).outcome = .endOfInput := ended
  rw [allTokens, untilEnd_of_ended pulled, List.map_singleton, pulled]
  rfl

theorem allTokens_of_pull_token {lexer : Lexer} {token : Token}
    (found : lexer.pull.outcome = .token token) :
    lexer.allTokens = lexer.pull.lexer.allTokens.map (token :: ·) := by
  have yields : (lexer.perform .pull).outcome ≠ .endOfInput := by
    rw [perform, found]
    nofun
  rw [allTokens, untilEnd_of_yields yields, List.map_cons, perform, found]
  rfl

theorem allTokens_of_pull_error {lexer : Lexer} {error : ScanError}
    (failed : lexer.pull.outcome = .error error) : lexer.allTokens = .error error := by
  have yields : (lexer.perform .pull).outcome ≠ .endOfInput := by
    rw [perform, failed]
    nofun
  rw [allTokens, untilEnd_of_yields yields, List.map_cons, perform, failed]
  rfl

theorem allTokens_of_end {lexer : Lexer} (going : lexer.stopped = false)
    (ended : lexer.scanToken.outcome = .endOfInput) : lexer.allTokens = .ok [] :=
  allTokens_of_pull_end ((pull_of_going going).1.trans ended)

theorem allTokens_of_token {lexer : Lexer} {token : Token} (going : lexer.stopped = false)
    (found : lexer.scanToken.outcome = .token token) :
    lexer.allTokens = lexer.scanToken.lexer.allTokens.map (token :: ·) := by
  rw [allTokens_of_pull_token ((pull_of_going going).1.trans found),
    pull_eq_scanToken going (by rw [found]; nofun)]

theorem allTokens_of_error {lexer : Lexer} {error : ScanError} (going : lexer.stopped = false)
    (failed : lexer.scanToken.outcome = .error error) : lexer.allTokens = .error error :=
  allTokens_of_pull_error ((pull_of_going going).1.trans failed)

theorem allTokensEvents_of_pull_end {lexer : Lexer} (ended : lexer.pull.outcome = .endOfInput) :
    lexer.allTokensEvents = lexer.pull.events := by
  have pulled : (lexer.perform .pull).outcome = .endOfInput := ended
  rw [allTokensEvents, untilEnd_of_ended pulled, List.flatMap_singleton, perform]

/-- The events of a pull that yields something come first. -/
theorem allTokensEvents_of_pull_yields {lexer : Lexer}
    (yields : lexer.pull.outcome ≠ .endOfInput) :
    lexer.allTokensEvents = lexer.pull.events ++ lexer.pull.lexer.allTokensEvents := by
  have pulled : (lexer.perform .pull).outcome ≠ .endOfInput := yields
  rw [allTokensEvents, untilEnd_of_yields pulled, List.flatMap_cons, perform]
  rfl

/-- A lexer that has not stopped yields these tokens if it scans the first, and the lexer left by
that yields the others. -/
theorem allTokens_eq_ok_cons {lexer : Lexer} (going : lexer.stopped = false) {token : Token}
    {tokens : List Token} :
    lexer.allTokens = .ok (token :: tokens) ↔
      lexer.scanToken.outcome = .token token ∧ lexer.scanToken.lexer.allTokens = .ok tokens := by
  rcases lexer.scanToken_outcome with ended | ⟨first, found⟩ | ⟨error, failed⟩
  · rw [allTokens_of_end going ended, ended]
    exact ⟨nofun, nofun⟩
  · rw [allTokens_of_token going found, found]
    cases lexer.scanToken.lexer.allTokens <;> simp [Except.map]
  · rw [allTokens_of_error going failed, failed]
    exact ⟨nofun, nofun⟩

/-! ## The mark -/

end Lexer

/-- The byte order mark that a text opens with, if it is to be skipped. -/
def Settings.skippedMark (settings : Settings) (text : List Char) : List Char :=
  if settings.skipMark = true ∧ text.head? = some byteOrderMark then [byteOrderMark] else []

namespace Lexer

theorem unmarked_of_started {lexer : Lexer} (started : lexer.cursor.behind ≠ []) :
    lexer.unmarked = lexer.cursor := by
  have notStart : lexer.cursor.atStart = false := by simpa [Cursor.atStart] using started
  simp [unmarked, notStart]

/-- With no mark to skip, no scan brings one about. -/
theorem unmarked_perform {lexer : Lexer} (noMark : lexer.unmarked = lexer.cursor) (call : Call) :
    (lexer.perform call).lexer.unmarked = (lexer.perform call).lexer.cursor := by
  by_cases started : (lexer.perform call).lexer.cursor.behind = []
  · obtain ⟨n, moved⟩ := lexer.perform_cursor call
    have still : (lexer.perform call).lexer.cursor = lexer.cursor := by
      rw [moved] at started ⊢
      exact Cursor.advanceBy_eq_self started
    have same : (lexer.perform call).lexer.unmarked = lexer.unmarked := by
      unfold unmarked
      rw [perform_settings, still]
    rw [same, still, noMark]
  · exact unmarked_of_started started

theorem unmarked_of_passed {lexer : Lexer} {before part after : List Char}
    (nonempty : part ≠ []) (stands : lexer.cursor = .between (before ++ part) after) :
    lexer.unmarked = .between (before ++ part) after := by
  have started : lexer.cursor.behind ≠ [] := by
    rw [stands, Cursor.behind_between, List.reverse_append]
    exact List.append_ne_nil_of_left_ne_nil (mt List.reverse_eq_nil_iff.1 nonempty) _
  rw [unmarked_of_started started, stands]

theorem unmarked_of_start {lexer : Lexer} {text : List Char}
    (atStart : lexer.cursor = Cursor.between [] text) :
    ∃ unread, text = lexer.settings.skippedMark text ++ unread ∧
      lexer.unmarked = Cursor.between (lexer.settings.skippedMark text) unread := by
  unfold unmarked Settings.skippedMark
  rw [atStart]
  by_cases marked : lexer.settings.skipMark = true ∧ text.head? = some byteOrderMark
  · obtain ⟨skips, opens⟩ := marked
    obtain ⟨unread, rfl⟩ := List.head?_eq_some_iff.1 opens
    refine ⟨unread, ?_, ?_⟩
    · rw [if_pos ⟨skips, opens⟩, List.singleton_append]
    · rw [if_pos (by simp [skips]), if_pos ⟨skips, opens⟩]
      rfl
  · refine ⟨text, ?_, ?_⟩
    · rw [if_neg marked, List.nil_append]
    · rw [if_neg marked]
      split
      · rename_i skips
        have other : ¬ text.head? = some byteOrderMark :=
          fun opens => marked ⟨(Bool.and_eq_true_iff.1 skips).1, opens⟩
        simp [Cursor.accept?, Cursor.current?, other]
      · rfl

/-- Settings that some lexer has will do for any other source, and then no mark is skipped in it if
they are told not to. -/
theorem exists_withoutMark {text : List Char} {settings : Settings} {start : Lexer}
    (made : withSettings text settings = .ok start) (other : List Char) :
    ∃ fresh, withSettings other { settings with skipMark := false } = .ok fresh ∧
      fresh.settings.commentIndicator = settings.commentIndicator ∧
      fresh.unmarked = .between [] other := by
  obtain ⟨valid, -⟩ := eq_of_withSettings made
  have kept : ({ settings with skipMark := false } : Settings).Valid := valid
  exact ⟨_, withSettings_of_valid other kept, rfl, rfl⟩

/-- Where the scan after some calls starts to read: past the mark, if it is the first scan. -/
theorem unmarked_runFinal {text : List Char} {settings : Settings} {start : Lexer}
    (made : withSettings text settings = .ok start) (calls : List Call) :
    ∃ before mark unread, text = before ++ (mark ++ unread) ∧
      (start.runFinal calls).cursor = .between before (mark ++ unread) ∧
      mark = (if calls = [] then settings.skippedMark text else []) ∧
      (start.runFinal calls).unmarked = .between (before ++ mark) unread := by
  obtain ⟨before, after, split, stands⟩ := runFinal_between made calls
  by_cases first : calls = []
  · subst first
    have whole := (cursor_of_withSettings made).symm.trans stands
    obtain rfl : before = [] := List.reverse_eq_nil_iff.1 (congrArg Cursor.behind whole).symm
    obtain ⟨unread, marked, unmarked⟩ := unmarked_of_start stands
    rw [runFinal, settings_of_withSettings made] at marked unmarked
    rw [List.nil_append] at split
    subst split
    refine ⟨[], settings.skippedMark text, unread, marked, ?_, (if_pos rfl).symm, unmarked⟩
    rwa [← marked]
  · refine ⟨before, [], after, split, stands, (if_neg first).symm, ?_⟩
    rw [List.append_nil]
    by_cases atStart : before = []
    · subst atStart
      have empty : text = [] := runFinal_started made first (by rw [stands]; rfl)
      obtain rfl : after = [] := split.symm.trans empty
      obtain ⟨unread, none, unmarked⟩ := unmarked_of_start stands
      obtain ⟨noMark, rfl⟩ := List.append_eq_nil_iff.1 none.symm
      rw [unmarked, noMark]
    · rw [unmarked_of_started (by simpa [stands] using atStart), stands]

end Lexer

end CobolSource
