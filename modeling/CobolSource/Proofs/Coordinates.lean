/-
# Proofs.Coordinates — the places handed out are the places a reader counts

A cursor counts its line and column as it goes, in 32 bits. `lineAt` and `columnAt` count them again
from the source alone, without bound: one more than the line feeds before a byte, and one more than
the characters since the last of them. While the source is shorter than `2 ^ 32 - 1` characters the
two counts agree at every place a scan passes, and in every span it hands out, wherever the scan
took the span's place down (`coordinates_agree`). No character is treated apart: carriage returns, a
skipped mark, and the inside of comments, strings and phrases all count alike.

The step is one character (`counts_after`), the run is a text (`counts_afterText`).
-/
import CobolSource.Proofs.Reach
import CobolSource.Proofs.Slices

namespace CobolSource

set_option autoImplicit false

/-! ## Counting from the source -/

/-- The line of the place just after `before`. -/
def lineAfter (before : List Char) : Nat :=
  1 + before.count '\n'

/-- The column of the place just after `before`. -/
def columnAfter (before : List Char) : Nat :=
  1 + (before.reverse.takeWhile (· != '\n')).length

def lineAt (text : List Char) (offset : Nat) : Nat :=
  lineAfter (readTo text offset)

def columnAt (text : List Char) (offset : Nat) : Nat :=
  columnAfter (readTo text offset)

/-- Byte `offset` of a text is a boundary, and `line` and `column` are a reader's counts there. -/
structure Located (text : List Char) (offset : Nat) (line column : UInt32) : Prop where
  boundary : IsBoundary text offset
  line_eq : line.toNat = lineAt text offset
  column_eq : column.toNat = columnAt text offset

theorem lineAfter_append_single (before : List Char) (c : Char) :
    lineAfter (before ++ [c]) = if c = '\n' then lineAfter before + 1 else lineAfter before := by
  by_cases feed : c = '\n' <;> simp [lineAfter, feed, Nat.add_assoc]

theorem columnAfter_append_single (before : List Char) (c : Char) :
    columnAfter (before ++ [c]) = if c = '\n' then 1 else columnAfter before + 1 := by
  by_cases feed : c = '\n' <;> simp [columnAfter, feed, Nat.add_assoc]

theorem lineAfter_le (before : List Char) : lineAfter before ≤ 1 + before.length :=
  Nat.add_le_add_left List.count_le_length _

theorem columnAfter_le (before : List Char) : columnAfter before ≤ 1 + before.length := by
  have taken := (List.takeWhile_sublist (· != '\n') (l := before.reverse)).length_le
  rw [List.length_reverse] at taken
  exact Nat.add_le_add_left taken _

/-! ## Counting as the cursor does -/

/-- The line and the column that a reader is told. -/
def Place.lineColumn (place : Place) : UInt32 × UInt32 :=
  (place.line, place.column)

def Span.lineColumn (span : Span) : UInt32 × UInt32 :=
  (span.line, span.column)

theorem toNat_add_one {counter : UInt32} (room : counter.toNat + 1 < UInt32.size) :
    (counter + 1).toNat = counter.toNat + 1 := by
  rw [UInt32.toNat_add]
  exact Nat.mod_eq_of_lt room

namespace Place

/-- A place whose numbers are the counts of what lies before it, none of them wrapped. -/
structure Counts (place : Place) (before : List Char) : Prop where
  offset_eq : place.offset = byteCount before
  line_eq : place.line.toNat = lineAfter before
  column_eq : place.column.toNat = columnAfter before

theorem counts_start : Counts {} [] := ⟨rfl, rfl, rfl⟩

theorem counts_after {place : Place} {before : List Char} (counts : place.Counts before) (c : Char)
    (room : before.length + 2 < UInt32.size) : (place.after c).Counts (before ++ [c]) := by
  obtain ⟨offset, line, column⟩ := counts
  have lineRoom := lineAfter_le before
  have columnRoom := columnAfter_le before
  have bytes : (place.after c).offset = byteCount (before ++ [c]) := by
    simp [offset_after, offset, byteCount]
  by_cases feed : c = '\n'
  · refine ⟨bytes, ?_, ?_⟩
    · rw [lineAfter_append_single, if_pos feed, ← line, after, if_pos feed]
      exact toNat_add_one (by omega)
    · rw [columnAfter_append_single, if_pos feed, after, if_pos feed]
      rfl
  · refine ⟨bytes, ?_, ?_⟩
    · rw [lineAfter_append_single, if_neg feed, ← line, after, if_neg feed]
    · rw [columnAfter_append_single, if_neg feed, ← column, after, if_neg feed]
      exact toNat_add_one (by omega)

theorem counts_afterText {place : Place} {before : List Char} (counts : place.Counts before)
    (text : List Char) (room : before.length + text.length + 1 < UInt32.size) :
    (place.afterText text).Counts (before ++ text) := by
  induction text generalizing place before with
  | nil => rwa [List.append_nil]
  | cons c rest ih =>
      rw [List.length_cons] at room
      rw [afterText_cons, List.append_cons]
      apply ih (counts_after counts c (by omega))
      rw [List.length_append, List.length_singleton]
      omega

end Place

/-! ## Every place and every span -/

theorem located_of_counts {before after : List Char} {place : Place}
    (counts : place.Counts before) :
    Located (before ++ after) place.offset place.line place.column := by
  obtain ⟨offset, line, column⟩ := counts
  refine ⟨offset ▸ isBoundary_append before after, ?_, ?_⟩
  · rw [lineAt, offset, readTo_append, line]
  · rw [columnAt, offset, readTo_append, column]

/-- Every place that a cursor in a short enough text passes is where a reader would say it is. -/
theorem located_advanceBy {before after : List Char}
    (short : (before ++ after).length < UInt32.size - 1) (n : Nat) :
    Located (before ++ after) ((Cursor.between before after).advanceBy n).place.offset
      ((Cursor.between before after).advanceBy n).place.line
      ((Cursor.between before after).advanceBy n).place.column := by
  have split : before ++ after = (before ++ after.take n) ++ after.drop n := by
    rw [List.append_assoc, List.take_append_drop]
  rw [split] at short ⊢
  rw [Cursor.advanceBy_between, Cursor.place_between]
  apply located_of_counts
  apply Place.counts_afterText Place.counts_start
  rw [List.length_append] at short
  rw [List.length_nil]
  omega

namespace Lexer

/-- **Coordinates agree with the source.** After any calls, the cursor's place and every place it
can still move through are located in the source; so is the span of the token or phrase produced
last, and so are all the spans that tokens, phrases and errors were handed out with. -/
theorem coordinates_agree {text : List Char} {settings : Settings} {start : Lexer}
    (made : withSettings text settings = .ok start) (short : text.length < UInt32.size - 1)
    (calls : List Call) :
    (∀ n, Located text ((start.runFinal calls).cursor.advanceBy n).place.offset
      ((start.runFinal calls).cursor.advanceBy n).place.line
      ((start.runFinal calls).cursor.advanceBy n).place.column) ∧
    (∀ span, (start.runFinal calls).latest = some span →
      Located text span.start span.line span.column) ∧
    ∀ scan ∈ start.run calls, ∀ span, scan.span? = some span →
      Located text span.start span.line span.column := by
  have places (calls : List Call) (n : Nat) :
      Located text ((start.runFinal calls).cursor.advanceBy n).place.offset
        ((start.runFinal calls).cursor.advanceBy n).place.line
        ((start.runFinal calls).cursor.advanceBy n).place.column := by
    obtain ⟨before, after, rfl, stands⟩ := runFinal_between made calls
    rw [stands]
    exact located_advanceBy short n
  have spans : ∀ scan ∈ start.run calls, ∀ span, scan.span? = some span →
      Located text span.start span.line span.column := by
    intro scan member span handed
    obtain ⟨earlier, call, later, -, rfl⟩ := mem_run member
    obtain ⟨n, stop, rfl⟩ := perform_span handed
    exact places earlier n
  refine ⟨places calls, ?_, spans⟩
  intro span kept
  rcases runFinal_latest kept with ⟨scan, member, handed⟩ | atStart
  · exact spans scan member span handed
  · obtain ⟨valid, rfl⟩ := eq_of_withSettings made
    cases atStart

/-- A mark, a comment, a string over two lines, a phrase over two more, and something unexpected. -/
def windingText : List Char :=
  "\uFEFF*é\r\n\"a\nb\" C\nD. §".toList

theorem windingText_located :
    ((ofText windingText).run [.token, .phrase, .pull]).map Scan.span? =
        [some ⟨8, 13, 2, 1⟩, some ⟨14, 17, 3, 4⟩, some ⟨19, 21, 4, 4⟩] ∧
      Located windingText 8 2 1 ∧ Located windingText 14 3 4 ∧ Located windingText 19 4 4 := by
  have agree := (coordinates_agree (withSettings_of_valid windingText Settings.valid_default)
    (by decide) [.token, .phrase, .pull]).2.2
  have handed (span : Span)
      (among : ∃ scan ∈ (ofText windingText).run [.token, .phrase, .pull],
        scan.span? = some span) : Located windingText span.start span.line span.column := by
    obtain ⟨scan, member, has⟩ := among
    exact agree scan member span has
  refine ⟨by decide, ?_, ?_, ?_⟩
  · exact handed ⟨8, 13, 2, 1⟩ (by decide)
  · exact handed ⟨14, 17, 3, 4⟩ (by decide)
  · exact handed ⟨19, 21, 4, 4⟩ (by decide)

end Lexer

end CobolSource
