/-
# Proofs.Suffix — what lies behind a lexer does not matter

A lexer that has scanned before finds in the text ahead just what a new lexer finds that has this
text for its whole source. Only the numbers differ, and `Moved` says how: bytes and lines add up,
and columns do on the first line alone, because the new lexer's first line is the rest of a line.

Two lexers that stand so (`Reads`) make the same look and deliver it at places apart by a fixed text
(`deliver_moved`), and they stand so again afterwards (`perform_reads`): neither finds a mark to
skip, and nothing else that scans leave behind is looked at. `run_suffix` is the same for runs.
-/
import CobolSource.Proofs.Coordinates
import CobolSource.Proofs.Look
import Mathlib.Data.List.Forall2

namespace CobolSource

set_option autoImplicit false

/-! ## Places in a text that begins elsewhere -/

/-- `far` is the place `near`, if the text that has `near` in it begins at `base`. -/
structure Place.Moved (base near far : Place) : Prop where
  offset_eq : far.offset = near.offset + base.offset
  line_eq : far.line.toNat = near.line.toNat + (base.line.toNat - 1)
  column_eq : far.column.toNat =
    if near.line = 1 then near.column.toNat + (base.column.toNat - 1) else near.column.toNat

/-- The place where a span starts. -/
def Span.place (span : Span) : Place :=
  ⟨span.start, span.line, span.column⟩

/-- `far` is the span `near`, if the text that has `near` in it begins at `base`. -/
structure Span.Moved (base : Place) (near far : Span) : Prop where
  place : Place.Moved base near.place far.place
  stop_eq : far.stop = near.stop + base.offset

/-- `far` finds what `near` finds, in a text that begins at `base`. -/
structure Scan.Moved (base : Place) (near far : Scan) : Prop where
  finding_eq : far.outcome.finding = near.outcome.finding
  place : Place.Moved base near.lexer.cursor.place far.lexer.cursor.place
  span : Option.Rel (Span.Moved base) near.span? far.span?

theorem lineAfter_append (base before : List Char) :
    lineAfter (base ++ before) = lineAfter before + (lineAfter base - 1) := by
  simp only [lineAfter, List.count_append]
  omega

theorem lineAfter_eq_one_iff {before : List Char} : lineAfter before = 1 ↔ '\n' ∉ before := by
  rw [lineAfter, Nat.add_eq_left, List.count_eq_zero]

theorem columnAfter_append (base before : List Char) :
    columnAfter (base ++ before) =
      if lineAfter before = 1 then columnAfter before + (columnAfter base - 1)
      else columnAfter before := by
  have feed : lineAfter before = 1 ↔ ∀ c ∈ before.reverse, (c != '\n') = true := by
    simp [lineAfter_eq_one_iff, List.forall_mem_ne']
  simp only [columnAfter, List.reverse_append]
  split
  · rename_i first
    rw [List.takeWhile_append_of_pos (feed.1 first), List.takeWhile_eq_self_iff.2 (feed.1 first),
      List.length_append]
    omega
  · rename_i later
    have stops : ¬ (before.reverse.takeWhile (· != '\n')).length = before.reverse.length := by
      intro whole
      have all := (List.takeWhile_prefix (· != '\n') (l := before.reverse)).eq_of_length whole
      exact later (feed.2 (List.takeWhile_eq_self_iff.1 all))
    rw [List.takeWhile_append, if_neg stops]

namespace Place

theorem counts_of_short {text : List Char} (short : text.length < UInt32.size - 1) :
    (afterText {} text).Counts text := by
  apply counts_afterText counts_start text
  rw [List.length_nil]
  omega

/-- A place some way on in a short enough text is moved by the place it is counted from. -/
theorem moved_afterText {base before : List Char}
    (short : (base ++ before).length < UInt32.size - 1) :
    Moved (afterText {} base) (afterText {} before) (afterText {} (base ++ before)) := by
  have both := counts_of_short short
  rw [List.length_append] at short
  have one : (afterText {} base).Counts base := counts_of_short (by omega)
  have other : (afterText {} before).Counts before := counts_of_short (by omega)
  have firstLine : (afterText {} before).line = 1 ↔ lineAfter before = 1 := by
    rw [← UInt32.toNat_inj, other.line_eq]
    rfl
  refine ⟨?_, ?_, ?_⟩
  · rw [both.offset_eq, one.offset_eq, other.offset_eq, byteCount_append, Nat.add_comm]
  · rw [both.line_eq, one.line_eq, other.line_eq, lineAfter_append]
  · rw [both.column_eq, one.column_eq, other.column_eq, columnAfter_append]
    simp only [firstLine]

theorem Moved.spanTo {base near far stop stop' : Place} (start : Moved base near far)
    (stops : Moved base stop stop') :
    Span.Moved base (near.spanTo stop.offset) (far.spanTo stop'.offset) :=
  ⟨start, stops.offset_eq⟩

end Place

namespace Lexer

/-! ## One scan -/

theorem advanceBy_moved {base before ahead : List Char}
    (short : (base ++ (before ++ ahead)).length < UInt32.size - 1) (n : Nat) :
    Place.Moved (Place.afterText {} base) ((Cursor.between before ahead).advanceBy n).place
      ((Cursor.between (base ++ before) ahead).advanceBy n).place := by
  rw [Cursor.advanceBy_between, Cursor.advanceBy_between, Cursor.place_between,
    Cursor.place_between, List.append_assoc]
  apply Place.moved_afterText
  have taken := List.length_take_le' n ahead
  simp only [List.length_append] at short ⊢
  omega

/-- One look is delivered in two places as the same find, moved by what lies between the two. -/
theorem deliver_moved {base before ahead : List Char}
    (short : (base ++ (before ++ ahead)).length < UInt32.size - 1) (near far : Lexer)
    (look : Look) :
    Scan.Moved (Place.afterText {} base) (near.deliver (.between before ahead) look)
      (far.deliver (.between (base ++ before) ahead) look) := by
  have places := advanceBy_moved short
  refine ⟨?_, ?_, ?_⟩
  · rw [deliver_finding, deliver_finding]
  · rw [deliver_cursor, deliver_cursor]
    exact places _
  · rw [deliver_span, deliver_span]
    split
    · exact .none
    · refine .some ((places look.skipped).spanTo ?_)
      rw [Cursor.advanceBy_advanceBy, Cursor.advanceBy_advanceBy]
      exact places _

/-! ## Runs -/

/-- `near` has `rest` for its source, and `far` reads it too, as what comes after `base`. Neither
has a mark to skip. -/
structure Reads (base rest : List Char) (near far : Lexer) : Prop where
  indicator_eq : far.settings.commentIndicator = near.settings.commentIndicator
  stand : ∃ before ahead, rest = before ++ ahead ∧ near.cursor = .between before ahead ∧
    far.cursor = .between (base ++ before) ahead
  near_unmarked : near.unmarked = near.cursor
  far_unmarked : far.unmarked = far.cursor

theorem perform_reads {base rest : List Char} {near far : Lexer} (reads : Reads base rest near far)
    (short : (base ++ rest).length < UInt32.size - 1) {call : Call} (scans : call ≠ .pull) :
    Scan.Moved (Place.afterText {} base) (near.perform call) (far.perform call) ∧
      Reads base rest (near.perform call).lexer (far.perform call).lexer := by
  obtain ⟨before, ahead, rfl, nearStands, farStands⟩ := reads.stand
  have nearScan := near.perform_eq_deliver scans
  have farScan := far.perform_eq_deliver scans
  rw [reads.near_unmarked, nearStands, Cursor.ahead_between] at nearScan
  rw [reads.far_unmarked, farStands, Cursor.ahead_between, reads.indicator_eq] at farScan
  -- The text ahead and the indicator are the same, so there is one look, delivered in two places.
  refine ⟨?_, ?_, ?_, unmarked_perform reads.near_unmarked call,
    unmarked_perform reads.far_unmarked call⟩
  · rw [nearScan, farScan]
    exact deliver_moved short near far _
  · rw [perform_settings, perform_settings]
    exact reads.indicator_eq
  · generalize call.look near.settings.commentIndicator ahead = look at nearScan farScan
    refine ⟨before ++ ahead.take (look.skipped + look.passed),
      ahead.drop (look.skipped + look.passed), ?_, ?_, ?_⟩
    · rw [List.append_assoc, List.take_append_drop]
    · rw [nearScan, deliver_cursor, Cursor.advanceBy_between]
    · rw [farScan, deliver_cursor, Cursor.advanceBy_between, List.append_assoc]

theorem run_reads {base rest : List Char} {near far : Lexer} (reads : Reads base rest near far)
    (short : (base ++ rest).length < UInt32.size - 1) {calls : List Call}
    (scans : ∀ call ∈ calls, call ≠ .pull) :
    List.Forall₂ (Scan.Moved (Place.afterText {} base)) (near.run calls) (far.run calls) := by
  induction calls generalizing near far with
  | nil => exact .nil
  | cons call calls ih =>
      obtain ⟨first, later⟩ := List.forall_mem_cons.1 scans
      obtain ⟨moved, readsOn⟩ := perform_reads reads short first
      exact .cons moved (ih readsOn later)

/-- **Scanning depends on the text left, and on nothing before it.** A lexer that calls have moved
answers any further scans as a new lexer answers them, made for the text left with the same comment
indicator and no mark to skip. Call by call the two find the same; the spans and the places of the
new lexer are moved to where the other stood. -/
theorem run_suffix {text : List Char} {settings : Settings} {start : Lexer}
    (made : withSettings text settings = .ok start) (short : text.length < UInt32.size - 1)
    {history : List Call} (called : history ≠ []) {calls : List Call}
    (scans : ∀ call ∈ calls, call ≠ .pull) :
    ∃ fresh,
      withSettings (start.runFinal history).cursor.ahead { settings with skipMark := false } =
        .ok fresh ∧
      List.Forall₂ (Scan.Moved (start.runFinal history).cursor.place) (fresh.run calls)
        ((start.runFinal history).run calls) := by
  obtain ⟨before, mark, unread, rfl, stands, marked, unmarked⟩ := unmarked_runFinal made history
  rw [if_neg called] at marked
  subst marked
  rw [List.nil_append] at stands short
  rw [List.append_nil] at unmarked
  obtain ⟨fresh, new, indicator, noMark⟩ := exists_withoutMark made unread
  have stood := cursor_of_withSettings new
  rw [stands, Cursor.ahead_between, Cursor.place_between]
  refine ⟨fresh, new, run_reads (?_ : Reads before unread _ _) short scans⟩
  refine ⟨?_, ⟨[], unread, rfl, stood, ?_⟩, noMark.trans stood.symm, ?_⟩
  · rw [runFinal_settings, settings_of_withSettings made, indicator]
  · rw [List.append_nil, stands]
  · rw [unmarked, stands]

/-- A string over two lines, then what starts nothing, a phrase, and on the next line a string that
stays open. -/
def splitText : List Char :=
  "A\"x\n\"§ B.\n\"c".toList

theorem splitText_moved :
    ((ofText splitText).run [.token, .token, .token, .phrase, .token]).map Scan.span? =
        [some ⟨0, 1, 1, 1⟩, some ⟨1, 5, 1, 2⟩, some ⟨5, 7, 2, 2⟩, some ⟨8, 9, 2, 4⟩,
          some ⟨11, 13, 3, 1⟩] ∧
      ∃ fresh, withSettings "§ B.\n\"c".toList { skipMark := false } = .ok fresh ∧
        (fresh.run [.token, .phrase, .token]).map Scan.span? =
          [some ⟨0, 2, 1, 1⟩, some ⟨3, 4, 1, 3⟩, some ⟨6, 8, 2, 1⟩] ∧
        List.Forall₂ (Scan.Moved ⟨5, 2, 2⟩) (fresh.run [.token, .phrase, .token])
          (((ofText splitText).runFinal [.token, .token]).run [.token, .phrase, .token]) := by
  have left : ((ofText splitText).runFinal [.token, .token]).cursor =
      ⟨"\"\nx\"A".toList, "§ B.\n\"c".toList, ⟨5, 2, 2⟩⟩ := by decide
  obtain ⟨fresh, new, moved⟩ := run_suffix (withSettings_ofText splitText) (by decide)
    (by decide : [Call.token, .token] ≠ [])
    (by decide : ∀ call ∈ [Call.token, .phrase, .token], call ≠ .pull)
  rw [left] at new moved
  refine ⟨by decide, fresh, new, ?_, moved⟩
  obtain rfl := Except.ok.inj ((withSettings_of_valid _ (by decide)).symm.trans new)
  decide

end Lexer

end CobolSource
