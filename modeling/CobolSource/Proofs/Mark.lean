/-
# Proofs.Mark — a byte order mark at the start leaves no trace, and only one does

A mark that is skipped is no part of the source: what calls find in a source that opens with one is
what they find in the rest of it when no mark is to be skipped (`mark_transparent`). Only the
numbers differ, by the three bytes and, on the first line, the one column that the mark takes.

The scan that skips a mark is the first one, whichever kind it is, and it might as well have been
made from behind the mark (`perform_pastMark`). From there on the two lexers stand in the same text,
one of them further on (`Trails`), and neither has a mark to skip. A second mark is then like any
other text to both. Where a source opens with no mark it does not matter whether one is to be
skipped (`run_unmarked`).
-/
import CobolSource.Proofs.Indicator
import CobolSource.Proofs.Suffix

namespace CobolSource

set_option autoImplicit false

/-- `far` finds what `near` finds, in a text that begins at `base`, and leaves the same last span,
moved like all the others. -/
structure Scan.Shifted (base : Place) (near far : Scan) : Prop
    extends Scan.Moved base near far where
  latest : Option.Rel (Span.Moved base) near.lexer.latest far.lexer.latest

namespace Lexer

/-! ## Past the mark -/

/-- The lexer, past the mark that its next scan would skip. -/
def pastMark (lexer : Lexer) : Lexer :=
  lexer.standing lexer.unmarked

/-- Behind a mark no second one is skipped. -/
theorem unmarked_pastMark (lexer : Lexer) : lexer.pastMark.unmarked = lexer.unmarked := by
  by_cases started : lexer.unmarked.behind = []
  · obtain ⟨n, moved⟩ := lexer.unmarked_eq_advanceBy
    have still : lexer.unmarked = lexer.cursor := by
      rw [moved] at started ⊢
      exact Cursor.advanceBy_eq_self started
    have same : lexer.pastMark = lexer := by
      rw [pastMark, still]
      rfl
    rw [same]
  · exact unmarked_of_started started

/-- A scan that skips a mark might as well start behind it. -/
theorem perform_pastMark_of_scans (lexer : Lexer) {call : Call} (scans : call ≠ .pull) :
    lexer.pastMark.perform call = lexer.perform call := by
  rw [perform_eq_deliver _ scans, perform_eq_deliver _ scans, unmarked_pastMark]
  exact deliver_standing _ _ _ _

theorem perform_pastMark {lexer : Lexer} (going : lexer.stopped = false) (call : Call) :
    lexer.pastMark.perform call = lexer.perform call := by
  cases call with
  | token => exact lexer.perform_pastMark_of_scans (by decide)
  | phrase => exact lexer.perform_pastMark_of_scans (by decide)
  | pull =>
      have scan : lexer.pastMark.scanToken = lexer.scanToken :=
        lexer.perform_pastMark_of_scans (by decide : Call.token ≠ _)
      have goingToo : lexer.pastMark.stopped = false := going
      rw [perform, perform, pull_eq_withStopped going, pull_eq_withStopped goingToo, scan]

/-- A scan leaves no mark to skip. -/
theorem unmarked_of_scans (lexer : Lexer) {call : Call} (scans : call ≠ .pull) :
    (lexer.perform call).lexer.unmarked = (lexer.perform call).lexer.cursor := by
  rw [← lexer.perform_pastMark_of_scans scans]
  exact unmarked_perform lexer.unmarked_pastMark call

theorem run_pastMark {lexer : Lexer} (going : lexer.stopped = false) (calls : List Call) :
    lexer.pastMark.run calls = lexer.run calls := by
  cases calls with
  | nil => rfl
  | cons call calls => rw [run, run, perform_pastMark going]

/-! ## Two lexers in one text -/

/-- `far` has `base` behind it, and from there on it stands where `near` does and has been asked
alike. -/
structure Trails (base rest : List Char) (near far : Lexer) : Prop
    extends Reads base rest near far where
  stopped_eq : far.stopped = near.stopped
  latest : Option.Rel (Span.Moved (.afterText {} base)) near.latest far.latest

namespace Trails

variable {base rest : List Char} {near far : Lexer}

theorem perform_of_scans (trails : Trails base rest near far)
    (short : (base ++ rest).length < UInt32.size - 1) {call : Call} (scans : call ≠ .pull) :
    Scan.Shifted (.afterText {} base) (near.perform call) (far.perform call) ∧
      Trails base rest (near.perform call).lexer (far.perform call).lexer := by
  obtain ⟨moved, reads⟩ := perform_reads trails.toReads short scans
  have stopped : (far.perform call).lexer.stopped = (near.perform call).lexer.stopped := by
    rw [perform_stopped _ scans, perform_stopped _ scans, trails.stopped_eq]
  have latest : Option.Rel (Span.Moved (.afterText {} base)) (near.perform call).lexer.latest
      (far.perform call).lexer.latest := by
    rw [perform_latest_eq _ scans, perform_latest_eq _ scans, moved.finding_eq]
    split
    · exact trails.latest
    · exact moved.span
  exact ⟨⟨moved, latest⟩, ⟨reads, stopped, latest⟩⟩

theorem perform (trails : Trails base rest near far)
    (short : (base ++ rest).length < UInt32.size - 1) (call : Call) :
    Scan.Shifted (.afterText {} base) (near.perform call) (far.perform call) ∧
      Trails base rest (near.perform call).lexer (far.perform call).lexer := by
  cases call with
  | token => exact trails.perform_of_scans short (by decide)
  | phrase => exact trails.perform_of_scans short (by decide)
  | pull =>
      rw [Lexer.perform, Lexer.perform]
      cases stopped : near.stopped with
      | true =>
          rw [pull_of_stopped stopped, pull_of_stopped (trails.stopped_eq.trans stopped)]
          obtain ⟨before, ahead, rfl, nearStands, farStands⟩ := trails.stand
          have place := advanceBy_moved short 0
          rw [Cursor.advanceBy, Cursor.advanceBy, ← nearStands, ← farStands] at place
          exact ⟨⟨⟨rfl, place, .none⟩, trails.latest⟩, trails⟩
      | false =>
          have going := trails.stopped_eq.trans stopped
          obtain ⟨shifted, after⟩ :=
            trails.perform_of_scans short (by decide : Call.token ≠ .pull)
          rw [Lexer.perform, Lexer.perform] at shifted after
          rw [pull_eq_withStopped stopped, pull_eq_withStopped going, shifted.finding_eq]
          exact ⟨⟨⟨shifted.finding_eq, shifted.place, shifted.span⟩, shifted.latest⟩,
            ⟨⟨after.indicator_eq, after.stand, after.near_unmarked, after.far_unmarked⟩, rfl,
              after.latest⟩⟩

theorem run (trails : Trails base rest near far)
    (short : (base ++ rest).length < UInt32.size - 1) (calls : List Call) :
    List.Forall₂ (Scan.Shifted (.afterText {} base)) (near.run calls) (far.run calls) := by
  induction calls generalizing near far with
  | nil => exact .nil
  | cons call calls ih =>
      obtain ⟨shifted, after⟩ := trails.perform short call
      exact .cons shifted (ih after)

end Trails

/-! ## With a mark and without -/

/-- Past a mark a lexer stands where one begins that has no mark before its source. -/
theorem trails_pastMark {text : List Char} {settings : Settings} {marked plain : Lexer}
    (madeMarked : withSettings (byteOrderMark :: text) { settings with skipMark := true } =
      .ok marked)
    (madePlain : withSettings text { settings with skipMark := false } = .ok plain) :
    Trails [byteOrderMark] text plain marked.pastMark := by
  obtain ⟨-, rfl⟩ := eq_of_withSettings madeMarked
  obtain ⟨-, rfl⟩ := eq_of_withSettings madePlain
  exact ⟨⟨rfl, ⟨[], text, rfl, rfl, rfl⟩, rfl, unmarked_pastMark _⟩, rfl, .none⟩

/-- With no mark there to skip, it does not matter whether it is to be skipped. -/
theorem run_unmarked {lexer : Lexer} {settings : Settings} (valid : settings.Valid)
    (indicator : settings.commentIndicator = lexer.settings.commentIndicator)
    (noMark : lexer.unmarked = lexer.cursor)
    (noMarkToo : (lexer.under settings valid).unmarked = lexer.cursor) (calls : List Call) :
    (lexer.under settings valid).run calls =
      (lexer.run calls).map (Scan.under · settings valid) := by
  induction calls generalizing lexer with
  | nil => rfl
  | cons call calls ih =>
      have first : (lexer.under settings valid).perform call =
          (lexer.perform call).under settings valid :=
        perform_under valid (noMarkToo.trans noMark.symm) fun _ => by rw [indicator]
      have after := unmarked_perform noMarkToo call
      rw [first] at after
      rw [Lexer.run, Lexer.run, List.map_cons, first]
      refine congrArg _ (ih ?_ (unmarked_perform noMark call) after)
      rw [perform_settings, indicator]

theorem unmarked_of_head_ne {lexer : Lexer} {text : List Char}
    (stands : lexer.cursor = .between [] text) (other : text.head? ≠ some byteOrderMark) :
    lexer.unmarked = lexer.cursor := by
  have none : lexer.settings.skippedMark text = [] := if_neg fun marked => other marked.2
  obtain ⟨unread, split, unmarked⟩ := unmarked_of_start stands
  rw [none] at split unmarked
  rw [unmarked, stands, split, List.nil_append]

/-- **A mark at the start leaves no trace, and only one does.** A source that opens with a mark,
read so that a mark is skipped, is read as what comes after the mark, read so that none is skipped:
call by call the two find the same, a second mark included, and after each call every offset is
three bytes further on, every line is the same, and every column of the first line is one further
on. And a source that opens with no mark is read alike with either setting: the scans are the very
same. -/
theorem mark_transparent (text : List Char) {settings : Settings} (valid : settings.Valid)
    (calls : List Call) :
    (text.length < UInt32.size - 2 → ∃ marked plain,
      withSettings (byteOrderMark :: text) { settings with skipMark := true } = .ok marked ∧
      withSettings text { settings with skipMark := false } = .ok plain ∧
      List.Forall₂ (Scan.Shifted ⟨3, 1, 2⟩) (plain.run calls) (marked.run calls)) ∧
    (text.head? ≠ some byteOrderMark → ∃ skipping keeping,
      withSettings text { settings with skipMark := true } = .ok skipping ∧
      withSettings text { settings with skipMark := false } = .ok keeping ∧
      keeping.run calls =
        (skipping.run calls).map (Scan.under · { settings with skipMark := false } valid)) := by
  have validMarked : ({ settings with skipMark := true } : Settings).Valid := valid
  have validPlain : ({ settings with skipMark := false } : Settings).Valid := valid
  constructor
  · intro short
    have madeMarked := withSettings_of_valid (byteOrderMark :: text) validMarked
    have madePlain := withSettings_of_valid text validPlain
    refine ⟨_, _, madeMarked, madePlain, ?_⟩
    rw [← run_pastMark (going_of_withSettings madeMarked)]
    apply (trails_pastMark madeMarked madePlain).run
    rw [List.singleton_append, List.length_cons]
    omega
  · intro other
    have madeSkipping := withSettings_of_valid text validMarked
    have stands := cursor_of_withSettings madeSkipping
    refine ⟨_, _, madeSkipping, withSettings_of_valid text validPlain, ?_⟩
    exact run_unmarked validPlain rfl (unmarked_of_head_ne stands other)
      (unmarked_of_head_ne stands other) calls

/-- A mark, a comment, a string over two lines and a phrase. -/
def remarkedText : List Char :=
  "\uFEFF*é\n\"x\ny\" B.".toList

/-- Behind a mark that is skipped, another is unexpected, as it is with no mark before it. What
comes behind both is read alike with either setting. -/
theorem remarkedText_transparent :
    (∃ marked plain, withSettings (byteOrderMark :: remarkedText) {} = .ok marked ∧
      withSettings remarkedText { skipMark := false } = .ok plain ∧
      (marked.run [.pull, .pull, .token, .phrase]).map (·.outcome) =
        [.error ⟨.unexpectedCharacter byteOrderMark, ⟨3, 6, 1, 2⟩⟩, .endOfInput,
          .token ⟨.string, "x\ny"⟩, .phrase "B"] ∧
      (marked.run [.pull, .pull, .token, .phrase]).map Scan.span? =
        [some ⟨3, 6, 1, 2⟩, none, some ⟨10, 15, 2, 1⟩, some ⟨16, 17, 3, 4⟩] ∧
      (plain.run [.pull, .pull, .token, .phrase]).map Scan.span? =
        [some ⟨0, 3, 1, 1⟩, none, some ⟨7, 12, 2, 1⟩, some ⟨13, 14, 3, 4⟩] ∧
      List.Forall₂ (Scan.Shifted ⟨3, 1, 2⟩) (plain.run [.pull, .pull, .token, .phrase])
        (marked.run [.pull, .pull, .token, .phrase])) ∧
    ∃ skipping keeping, withSettings remarkedText.tail { skipMark := true } = .ok skipping ∧
      withSettings remarkedText.tail { skipMark := false } = .ok keeping ∧
      keeping.run [.pull, .phrase] =
        (skipping.run [.pull, .phrase]).map
          (Scan.under · { skipMark := false } Settings.valid_default) := by
  obtain ⟨marked, plain, madeMarked, madePlain, shifted⟩ :=
    (mark_transparent remarkedText Settings.valid_default [.pull, .pull, .token, .phrase]).1
      (by decide)
  refine ⟨⟨marked, plain, madeMarked, madePlain, ?_, ?_, ?_, shifted⟩,
    (mark_transparent remarkedText.tail Settings.valid_default [.pull, .phrase]).2 (by decide)⟩
  all_goals
    obtain rfl := Except.ok.inj ((withSettings_of_valid _ (by decide)).symm.trans madeMarked)
    obtain rfl := Except.ok.inj ((withSettings_of_valid _ (by decide)).symm.trans madePlain)
    decide

end Lexer

end CobolSource
