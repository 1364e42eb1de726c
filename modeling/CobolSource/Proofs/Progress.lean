/-
# Proofs.Progress — calls move on, and the end is final

A call never moves the cursor back, and one that yields something moves it on, past a span that lies
between the two places (`MovesOn`, `perform_movesOn`). So a source has no more to yield than it has
characters (`countP_yields_add_le`), and calls repeated until the end do come to it
(`exists_untilEnd`). Within a scan nothing can go on for ever: how far it goes is counted on the
text ahead, by recursion on that text.

What is at the end stays there: with nothing ahead every call answers with the end and leaves the
cursor where it is (`run_of_atEnd`). Token scans find the end exactly where only layout is left, and
phrase scans where only blanks are (`scanToken_ended_iff`, `scanPhrase_ended_iff`).
-/
import CobolSource.Proofs.Extension
import CobolSource.Proofs.PhraseScan

namespace CobolSource

set_option autoImplicit false

/-! ## Moving on -/

namespace Cursor

theorem offset_advanceBy_mono (cursor : Cursor) {m n : Nat} (le : m ≤ n) :
    (cursor.advanceBy m).place.offset ≤ (cursor.advanceBy n).place.offset := by
  obtain ⟨k, rfl⟩ := Nat.exists_eq_add_of_le le
  rw [← advanceBy_advanceBy, place_advanceBy k, Place.offset_afterText]
  exact Nat.le_add_right _ _

/-- A cursor that has fewer characters ahead of it than before has moved over some bytes. -/
theorem offset_lt_advanceBy {cursor : Cursor} {n : Nat}
    (fewer : (cursor.advanceBy n).ahead.length < cursor.ahead.length) :
    cursor.place.offset < (cursor.advanceBy n).place.offset := by
  rw [ahead_advanceBy, List.length_drop] at fewer
  have passed : cursor.ahead.take n ≠ [] := by
    rw [← List.length_pos_iff, List.length_take]
    omega
  rw [place_advanceBy, Place.offset_afterText]
  exact Nat.lt_add_of_pos_right (byteCount_pos passed)

theorem advanceBy_of_atEnd {cursor : Cursor} (ended : cursor.ahead = []) (n : Nat) :
    cursor.advanceBy n = cursor := by
  obtain ⟨behind, ahead, place⟩ := cursor
  obtain rfl : ahead = [] := ended
  simp [advanceBy_eq]

end Cursor

namespace Lexer

/-- What a scan does to the cursor: it does not take it back, and if it yields something it takes it
on, past all of the span it hands out. -/
structure MovesOn (lexer : Lexer) (scan : Scan) : Prop where
  not_back : lexer.cursor.place.offset ≤ scan.lexer.cursor.place.offset
  forward : scan.outcome ≠ .endOfInput →
    lexer.cursor.place.offset < scan.lexer.cursor.place.offset ∧
      ∃ span, scan.span? = some span ∧ lexer.cursor.place.offset ≤ span.start ∧
        span.start ≤ span.stop ∧ span.stop ≤ scan.lexer.cursor.place.offset

theorem offset_unmarked (lexer : Lexer) :
    lexer.cursor.place.offset ≤ lexer.unmarked.place.offset := by
  obtain ⟨n, moved⟩ := lexer.unmarked_eq_advanceBy
  rw [moved]
  exact lexer.cursor.offset_advanceBy_mono (Nat.zero_le n)

/-- The span of a call that scans begins past what is skipped and does not reach past the cursor. -/
theorem span_of_scans {lexer : Lexer} {call : Call} (scans : call ≠ .pull)
    (yields : (lexer.perform call).outcome ≠ .endOfInput) :
    ∃ span, (lexer.perform call).span? = some span ∧ lexer.cursor.place.offset ≤ span.start ∧
      span.start ≤ span.stop ∧
        span.stop ≤ (lexer.perform call).lexer.cursor.place.offset := by
  have reach := covered_le_passed lexer.settings.commentIndicator call lexer.unmarked.ahead
  rw [perform_eq_deliver lexer scans] at yields ⊢
  generalize call.look lexer.settings.commentIndicator lexer.unmarked.ahead = look at yields reach ⊢
  have finds : look.finding ≠ .nothing := by
    intro nothing
    apply yields
    rw [deliver, nothing]
    rfl
  rw [deliver_span, if_neg finds, deliver_cursor, Cursor.advanceBy_advanceBy]
  refine ⟨_, rfl, ?_, ?_, ?_⟩
  · exact lexer.offset_unmarked.trans
      (lexer.unmarked.offset_advanceBy_mono (Nat.zero_le look.skipped))
  · exact lexer.unmarked.offset_advanceBy_mono (Nat.le_add_right look.skipped look.covered)
  · exact lexer.unmarked.offset_advanceBy_mono (Nat.add_le_add_left reach look.skipped)

theorem perform_movesOn (lexer : Lexer) (call : Call) : lexer.MovesOn (lexer.perform call) := by
  obtain ⟨n, moved⟩ := lexer.perform_cursor call
  refine ⟨?_, fun yields => ⟨?_, ?_⟩⟩
  · rw [moved]
    exact lexer.cursor.offset_advanceBy_mono (Nat.zero_le n)
  · have fewer := perform_progress yields
    rw [moved] at fewer ⊢
    exact Cursor.offset_lt_advanceBy fewer
  · cases call with
    | token => exact span_of_scans (by decide) yields
    | phrase => exact span_of_scans (by decide) yields
    | pull =>
        cases stopped : lexer.stopped with
        | true => exact absurd (by rw [perform, pull_of_stopped stopped]) yields
        | false =>
            have asToken := pull_of_going stopped
            rw [perform, asToken.1] at yields
            rw [perform, pull_span? stopped, asToken.2.2.1]
            exact span_of_scans (by decide : Call.token ≠ .pull) yields

/-! ## The end is final -/

theorem perform_of_atEnd {lexer : Lexer} (ended : lexer.cursor.ahead = []) (call : Call) :
    (lexer.perform call).outcome = .endOfInput ∧
      (lexer.perform call).lexer.cursor = lexer.cursor := by
  constructor
  · by_contra yields
    have fewer := perform_progress yields
    rw [ended] at fewer
    exact Nat.not_lt_zero _ fewer
  · obtain ⟨n, moved⟩ := lexer.perform_cursor call
    rw [moved, Cursor.advanceBy_of_atEnd ended]

/-- With nothing ahead there is nothing more to come, whatever the calls. -/
theorem run_of_atEnd {lexer : Lexer} (ended : lexer.cursor.ahead = []) {calls : List Call}
    {scan : Scan} (made : scan ∈ lexer.run calls) :
    scan.outcome = .endOfInput ∧ scan.lexer.cursor = lexer.cursor := by
  induction calls generalizing lexer with
  | nil => cases made
  | cons call calls ih =>
      obtain ⟨outcome, still⟩ := perform_of_atEnd ended call
      rcases List.mem_cons.1 made with rfl | later
      · exact ⟨outcome, still⟩
      · rw [← still] at ended ⊢
        exact ih ended later

/-! ## Where the end is found -/

theorem scanToken_ended_iff {lexer : Lexer} {before unread : List Char}
    (stands : lexer.unmarked = .between before unread) :
    lexer.scanToken.outcome = .endOfInput ↔
      FinalLayout lexer.settings.commentIndicator unread := by
  obtain ⟨gap, rest, rfl, layout, scanned⟩ := scanToken_spec stands
  constructor
  · intro ended
    generalize lexer.scanToken = scan at scanned ended
    cases scanned with
    | ended =>
        rw [List.append_nil]
        exact layout.final
    | token | unexpected | unclosed => cases ended
  · intro final
    have whole : LayoutBefore lexer.settings.commentIndicator (gap ++ rest) [] := .ended final
    have same : gap ++ rest = gap ++ rest ++ [] := (List.append_nil _).symm
    exact scanned.of_nil (layout.unique lexer.valid.indicator_not_blank whole same).2

theorem scanPhrase_ended_iff {lexer : Lexer} {before unread : List Char}
    (stands : lexer.unmarked = .between before unread) :
    lexer.scanPhrase.outcome = .endOfInput ↔ Blanks unread := by
  constructor
  · intro ended
    rcases exists_phraseBefore unread with all | ⟨gap, phrase, trail, rest, rfl, blank, next⟩
    · exact all
    · rw [scanPhrase_of_phraseBefore stands blank next] at ended
      cases ended
  · intro blank
    rw [scanPhrase_of_blanks stands blank]
    rfl

/-- Nothing is left to skip where a token scan starts to read: skipping layout ends by itself, and
not because the text that counts its rounds is used up. -/
theorem layoutLength_tokenStart (lexer : Lexer) :
    layoutLength lexer.settings.commentIndicator lexer.tokenStart.ahead = 0 := by
  obtain ⟨gap, rest, split, layout⟩ :=
    exists_layoutBefore lexer.settings.commentIndicator lexer.unmarked.ahead
  have counted := layoutLength_layoutBefore lexer.valid.indicator_not_blank layout
  rw [tokenStart, Cursor.ahead_advanceBy, split, counted, List.drop_left]
  cases layout with
  | ended => exact layoutLength_nil _
  | solid _ notBlank other => exact layoutLength_stop notBlank other _

end Lexer

/-! ## How much there is to yield -/

def Scan.yields (scan : Scan) : Bool :=
  scan.outcome ≠ .endOfInput

namespace Lexer

/-- What calls yield, and what they leave ahead, is not more than was ahead before. -/
theorem countP_yields_add_le (lexer : Lexer) (calls : List Call) :
    (lexer.run calls).countP Scan.yields + (lexer.runFinal calls).cursor.ahead.length ≤
      lexer.cursor.ahead.length := by
  induction calls generalizing lexer with
  | nil => exact Nat.le_of_eq (Nat.zero_add _)
  | cons call calls ih =>
      have later := ih (lexer.perform call).lexer
      obtain ⟨n, moved⟩ := lexer.perform_cursor call
      have fewer : (lexer.perform call).lexer.cursor.ahead.length ≤ lexer.cursor.ahead.length := by
        rw [moved, Cursor.ahead_advanceBy, List.length_drop]
        exact Nat.sub_le ..
      rw [run, runFinal, List.countP_cons]
      split
      · rename_i yielding
        have progress := @perform_progress lexer call (of_decide_eq_true yielding)
        omega
      · omega

/-- Calls made until the end are a run that yields at each call but the last. -/
theorem exists_untilEnd (lexer : Lexer) (call : Call) :
    ∃ n, lexer.untilEnd call = lexer.run (List.replicate (n + 1) call) ∧
      (∀ scan ∈ lexer.run (List.replicate n call), scan.outcome ≠ .endOfInput) ∧
      ((lexer.runFinal (List.replicate n call)).perform call).outcome = .endOfInput := by
  by_cases ended : (lexer.perform call).outcome = .endOfInput
  · exact ⟨0, untilEnd_of_ended ended, nofun, ended⟩
  · have progress := perform_progress ended
    obtain ⟨n, all, others, last⟩ := exists_untilEnd (lexer.perform call).lexer call
    refine ⟨n + 1, ?_, ?_, last⟩
    · rw [untilEnd_of_yields ended, all]
      rfl
    · exact List.forall_mem_cons.2 ⟨ended, others⟩
termination_by lexer.cursor.ahead.length

/-- **Calls move on, and the end is final.** Wherever calls have left a lexer:

* no call takes the cursor back, and one that yields takes it on past the span it hands out;
* a token scan finds the end exactly if only layout is left, and a phrase scan if only blanks are, a
  mark that the first scan skips not counted;
* where a call has found the end, the cursor stands at the end of the source, and every later call
  of any kind finds the end and leaves the cursor there;
* layout is skipped to its last character, and calls repeated until the end come to it;
* no more calls have yielded something than the source has characters. -/
theorem calls_move_on {text : List Char} {settings : Settings} {start : Lexer}
    (made : withSettings text settings = .ok start) (calls : List Call) :
    (∀ call, (start.runFinal calls).MovesOn ((start.runFinal calls).perform call)) ∧
    (∃ before mark unread, text = before ++ (mark ++ unread) ∧
      (start.runFinal calls).cursor = .between before (mark ++ unread) ∧
      mark = (if calls = [] then settings.skippedMark text else []) ∧
      ((start.runFinal calls).scanToken.outcome = .endOfInput ↔
        FinalLayout settings.commentIndicator unread) ∧
      ((start.runFinal calls).scanPhrase.outcome = .endOfInput ↔ Blanks unread)) ∧
    (∀ call, (call = .pull → (start.runFinal calls).stopped = false) →
      ((start.runFinal calls).perform call).outcome = .endOfInput →
        ((start.runFinal calls).perform call).lexer.cursor = .between text [] ∧
        ∀ later, ∀ scan ∈ ((start.runFinal calls).perform call).lexer.run later,
          scan.outcome = .endOfInput ∧ scan.lexer.cursor = .between text []) ∧
    layoutLength settings.commentIndicator (start.runFinal calls).tokenStart.ahead = 0 ∧
    (∀ call, ∃ n, (start.runFinal calls).untilEnd call =
        (start.runFinal calls).run (List.replicate (n + 1) call) ∧
      (((start.runFinal calls).runFinal (List.replicate n call)).perform call).outcome =
        .endOfInput) ∧
    (start.run calls).countP Scan.yields ≤ text.length := by
  have kept : (start.runFinal calls).settings = settings := by
    rw [runFinal_settings, settings_of_withSettings made]
  refine ⟨perform_movesOn _, ?_, ?_, ?_, ?_, ?_⟩
  · obtain ⟨before, mark, unread, split, stands, marked, unmarked⟩ := unmarked_runFinal made calls
    refine ⟨before, mark, unread, split, stands, marked, ?_, scanPhrase_ended_iff unmarked⟩
    rw [scanToken_ended_iff unmarked, kept]
  · intro call scans ended
    have atEnd := perform_ended scans ended
    obtain ⟨before, after, split, stands⟩ := runFinal_between made (calls ++ [call])
    rw [runFinal_append] at stands
    change ((start.runFinal calls).perform call).lexer.cursor = _ at stands
    obtain rfl : after = [] := by rw [← atEnd, stands, Cursor.ahead_between]
    rw [List.append_nil] at split
    rw [split]
    refine ⟨stands, fun later scan among => ?_⟩
    rw [← stands]
    exact run_of_atEnd atEnd among
  · rw [← kept]
    exact layoutLength_tokenStart _
  · intro call
    obtain ⟨n, all, -, last⟩ := exists_untilEnd (start.runFinal calls) call
    exact ⟨n, all, last⟩
  · have bound := countP_yields_add_le start calls
    rw [cursor_of_withSettings made, Cursor.ahead_between] at bound
    exact Nat.le_of_add_right_le bound

/-- A mark, a comment, a character that starts nothing, a phrase, and a comment that the source cuts
off. -/
def endingText : List Char :=
  "\uFEFF*é\n§A. *x".toList

/-- After the phrase a token scan finds the end, which is final; a phrase scan there goes on. -/
theorem endingText_moves_on :
    ((ofText endingText).run [.pull, .phrase, .token]).map (·.outcome) =
        [.error ⟨.unexpectedCharacter '§', ⟨7, 9, 2, 1⟩⟩, .phrase "A", .endOfInput] ∧
      ((ofText endingText).runFinal [.pull, .phrase]).scanPhrase.outcome = .phrase "*x" ∧
      (∀ call, ((ofText endingText).runFinal [.pull, .phrase]).MovesOn
        (((ofText endingText).runFinal [.pull, .phrase]).perform call)) ∧
      ∀ later, ∀ scan ∈ ((ofText endingText).runFinal [.pull, .phrase, .token]).run later,
        scan.outcome = .endOfInput ∧ scan.lexer.cursor = .between endingText [] := by
  obtain ⟨moves, -, final, -⟩ := calls_move_on (withSettings_ofText endingText) [.pull, .phrase]
  exact ⟨by decide, by decide, moves, (final .token nofun (by decide)).2⟩

end Lexer

end CobolSource
