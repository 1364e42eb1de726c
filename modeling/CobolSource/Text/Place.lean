/-
# Text.Place — where in a source something stands

A `Place` is a point between two characters: how many UTF-8 bytes lie before it, and the line and
column a reader would give it. Lines and columns count from one; a line feed, and nothing else,
opens a new line; a column is one character, however many bytes it takes. Both are 32-bit words
and wrap. `offset_afterText` says that offsets count bytes, whatever way the lines fall.

A `Span` is the range of bytes from one place up to an offset, and it carries the line and column
of its first place only.
-/

namespace CobolSource

set_option autoImplicit false

/-- How many bytes a text takes in UTF-8. -/
def byteCount : List Char → Nat
  | [] => 0
  | c :: rest => c.utf8Size + byteCount rest

structure Place where
  /-- UTF-8 bytes before this place. -/
  offset : Nat := 0
  line : UInt32 := 1
  column : UInt32 := 1
  deriving DecidableEq, Repr, Inhabited

namespace Place

/-- The place just after a character that stands at `place`. -/
def after (place : Place) (c : Char) : Place :=
  let offset := place.offset + c.utf8Size
  if c = '\n' then ⟨offset, place.line + 1, 1⟩ else ⟨offset, place.line, place.column + 1⟩

/-- The place just after a text that starts at `place`. -/
def afterText (place : Place) (text : List Char) : Place :=
  text.foldl after place

@[simp] theorem afterText_nil (place : Place) : place.afterText [] = place := rfl

@[simp] theorem afterText_cons (place : Place) (c : Char) (text : List Char) :
    place.afterText (c :: text) = (place.after c).afterText text := rfl

theorem afterText_append (place : Place) (first second : List Char) :
    place.afterText (first ++ second) = (place.afterText first).afterText second := by
  simp [afterText]

theorem offset_after (place : Place) (c : Char) :
    (place.after c).offset = place.offset + c.utf8Size := by
  unfold after
  dsimp only
  split <;> rfl

theorem offset_afterText (place : Place) (text : List Char) :
    (place.afterText text).offset = place.offset + byteCount text := by
  induction text generalizing place with
  | nil => rfl
  | cons c rest ih => rw [afterText_cons, ih, offset_after, byteCount, Nat.add_assoc]

end Place

/-- A range of bytes, from `start` up to but not including `stop`. -/
structure Span where
  start : Nat := 0
  stop : Nat := 0
  line : UInt32 := 0
  column : UInt32 := 0
  deriving DecidableEq, Repr, Inhabited

namespace Span

/-- The span of no source: no place has line or column zero. -/
def nowhere : Span := {}

/-- Bytes covered; a span that stops before its start covers none. -/
def byteLength (span : Span) : Nat :=
  span.stop - span.start

def isEmpty (span : Span) : Bool :=
  decide (span.stop ≤ span.start)

/-- The span's place as a reader is told it. -/
def label (span : Span) : String :=
  toString span.line.toNat ++ ":" ++ toString span.column.toNat

theorem isEmpty_iff (span : Span) : span.isEmpty = true ↔ span.byteLength = 0 := by
  simp [isEmpty, byteLength, Nat.sub_eq_zero_iff_le]

end Span

/-- The span from a place up to byte `stop`. -/
def Place.spanTo (place : Place) (stop : Nat) : Span :=
  ⟨place.offset, stop, place.line, place.column⟩

end CobolSource
