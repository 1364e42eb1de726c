/-
# Text.Cursor — a text read from left to right

A `Cursor` holds a text split in two: the characters behind it, nearest first, and the characters
ahead. It only ever moves forward, so the text itself, `Cursor.text`, never changes
(`text_advanceBy`). Beside the split it keeps its `Place`, moved along one character at a time
rather than counted again (`place_advanceBy`).

Every movement is `advanceBy`, a number of characters: how far to go is decided by looking at the
characters ahead, and `ahead_advanceBy` and `behind_advanceBy` say what is then on each side.

`cutFrom?` reads back from the cursor by bytes. It has an answer only where the byte is not past
the cursor and begins a character, because a text cannot be cut inside one (`cutBack?_eq_some_iff`).
-/
import CobolSource.Text.Alphabet
import CobolSource.Text.Place

namespace CobolSource

set_option autoImplicit false

structure Cursor where
  /-- The characters already read, the latest first. -/
  behind : List Char := []
  ahead : List Char
  place : Place := {}
  deriving DecidableEq, Repr, Inhabited

namespace Cursor

def ofText (text : List Char) : Cursor :=
  { ahead := text }

/-! ## Looking -/

/-- The whole text, read and unread. -/
def text (cursor : Cursor) : List Char :=
  cursor.behind.reverse ++ cursor.ahead

def atStart (cursor : Cursor) : Bool :=
  cursor.behind.isEmpty

def atEnd (cursor : Cursor) : Bool :=
  cursor.ahead.isEmpty

def current? (cursor : Cursor) : Option Char :=
  cursor.ahead.head?

/-- The character `n` characters past the current one. -/
def peek? (cursor : Cursor) (n : Nat) : Option Char :=
  cursor.ahead[n]?

/-- Takes `bytes` bytes of whole characters off a text that is given backwards, and puts them in
front of `taken`. -/
def cutBack? : Nat → List Char → List Char → Option (List Char)
  | 0, _, taken => some taken
  | _ + 1, [], _ => none
  | bytes + 1, c :: behind, taken =>
      if c.utf8Size ≤ bytes + 1 then cutBack? (bytes + 1 - c.utf8Size) behind (c :: taken)
      else none

/-- The text between byte `start` and the cursor. -/
def cutFrom? (cursor : Cursor) (start : Nat) : Option (List Char) :=
  if start ≤ cursor.place.offset then cutBack? (cursor.place.offset - start) cursor.behind []
  else none

/-! ## Moving -/

/-- The current character and the cursor past it; nothing at the end. -/
def next? (cursor : Cursor) : Option (Char × Cursor) :=
  match cursor.ahead with
  | [] => none
  | c :: rest => some (c, ⟨c :: cursor.behind, rest, cursor.place.after c⟩)

/-- Past the current character; at the end, nowhere. -/
def advance (cursor : Cursor) : Cursor :=
  match cursor.next? with
  | some (_, past) => past
  | none => cursor

/-- Past `n` characters, or to the end if fewer are left. -/
def advanceBy : Nat → Cursor → Cursor
  | 0, cursor => cursor
  | n + 1, cursor => advanceBy n cursor.advance

def advanceWhile (cursor : Cursor) (test : Char → Bool) : Cursor :=
  cursor.advanceBy (cursor.ahead.takeWhile test).length

def skipBlanks (cursor : Cursor) : Cursor :=
  cursor.advanceWhile isBlank

/-- Past `c`, if it is the current character. -/
def accept? (cursor : Cursor) (c : Char) : Option Cursor :=
  if cursor.current? = some c then some cursor.advance else none

/-- How many leading characters `test` accepts, and its state after the first it refuses. A test
is asked about each character once, from left to right, and never past the end. -/
def acceptedBy {σ : Type} (test : σ → Char → Bool × σ) : σ → List Char → Nat × σ
  | state, [] => (0, state)
  | state, c :: rest =>
      match test state c with
      | (true, later) =>
          let (n, final) := acceptedBy test later rest
          (n + 1, final)
      | (false, later) => (0, later)

/-- `advanceWhile` under a test that keeps a state of its own from one character to the next. -/
def advanceWhileFrom {σ : Type} (cursor : Cursor) (test : σ → Char → Bool × σ) (state : σ) :
    Cursor × σ :=
  let (n, final) := acceptedBy test state cursor.ahead
  (cursor.advanceBy n, final)

/-! ## What a cut is -/

/-- A cut of `bytes` bytes is the nearest part of the text that takes so many bytes. -/
theorem cutBack?_eq_some_iff {bytes : Nat} {behind taken cut : List Char} :
    cutBack? bytes behind taken = some cut ↔
      ∃ near far, behind = near ++ far ∧ byteCount near = bytes ∧ cut = near.reverse ++ taken := by
  induction behind generalizing bytes taken with
  | nil =>
      cases bytes with
      | zero =>
          constructor
          · rintro ⟨⟩
            exact ⟨[], [], rfl, rfl, rfl⟩
          · rintro ⟨near, far, split, -, rfl⟩
            obtain ⟨rfl, -⟩ := List.append_eq_nil_iff.1 split.symm
            rfl
      | succ bytes =>
          constructor
          · rintro ⟨⟩
          · rintro ⟨near, far, split, count, -⟩
            obtain ⟨rfl, -⟩ := List.append_eq_nil_iff.1 split.symm
            cases count
  | cons c behind ih =>
      have size := c.utf8Size_pos
      cases bytes with
      | zero =>
          constructor
          · rintro ⟨⟩
            exact ⟨[], c :: behind, rfl, rfl, rfl⟩
          · rintro ⟨near, far, split, count, rfl⟩
            cases near with
            | nil => rfl
            | cons d near =>
                have sized := d.utf8Size_pos
                rw [byteCount] at count
                omega
      | succ bytes =>
          rw [cutBack?]
          constructor
          · intro h
            split at h
            · rename_i fits
              obtain ⟨near, far, rfl, count, rfl⟩ := ih.1 h
              refine ⟨c :: near, far, rfl, ?_, by simp⟩
              rw [byteCount, count]
              omega
            · cases h
          · rintro ⟨near, far, split, count, rfl⟩
            cases near with
            | nil => cases count
            | cons d near =>
                obtain ⟨rfl, rfl⟩ := List.cons.inj split
                rw [byteCount] at count
                rw [if_pos (by omega)]
                exact ih.2 ⟨near, far, rfl, by omega, by simp⟩

/-! ## What moving does to the two sides -/

@[simp] theorem text_ofText (text : List Char) : (ofText text).text = text := by
  simp [ofText, Cursor.text]

theorem advance_cons (behind : List Char) (c : Char) (rest : List Char) (place : Place) :
    advance ⟨behind, c :: rest, place⟩ = ⟨c :: behind, rest, place.after c⟩ := rfl

theorem advance_nil (behind : List Char) (place : Place) :
    advance ⟨behind, [], place⟩ = ⟨behind, [], place⟩ := rfl

/-- The three facts about `advanceBy` in one equation. -/
theorem advanceBy_eq (n : Nat) (cursor : Cursor) :
    cursor.advanceBy n =
      ⟨(cursor.ahead.take n).reverse ++ cursor.behind, cursor.ahead.drop n,
        cursor.place.afterText (cursor.ahead.take n)⟩ := by
  induction n generalizing cursor with
  | zero => simp [advanceBy]
  | succ n ih =>
      obtain ⟨behind, ahead, place⟩ := cursor
      cases ahead with
      | nil => simp [advanceBy, advance_nil, ih]
      | cons c rest => simp [advanceBy, advance_cons, ih]

@[simp] theorem ahead_advanceBy (n : Nat) (cursor : Cursor) :
    (cursor.advanceBy n).ahead = cursor.ahead.drop n := by
  rw [advanceBy_eq]

@[simp] theorem behind_advanceBy (n : Nat) (cursor : Cursor) :
    (cursor.advanceBy n).behind = (cursor.ahead.take n).reverse ++ cursor.behind := by
  rw [advanceBy_eq]

@[simp] theorem place_advanceBy (n : Nat) (cursor : Cursor) :
    (cursor.advanceBy n).place = cursor.place.afterText (cursor.ahead.take n) := by
  rw [advanceBy_eq]

@[simp] theorem text_advanceBy (n : Nat) (cursor : Cursor) :
    (cursor.advanceBy n).text = cursor.text := by
  simp [Cursor.text]

theorem advanceBy_advanceBy (m n : Nat) (cursor : Cursor) :
    (cursor.advanceBy m).advanceBy n = cursor.advanceBy (m + n) := by
  induction m generalizing cursor with
  | zero => simp [advanceBy]
  | succ m ih => simp only [advanceBy, Nat.succ_add, ih]

/-- A test without a state accepts as many characters as it does one by one. -/
theorem acceptedBy_stateless (test : Char → Bool) (text : List Char) :
    acceptedBy (fun _ c => (test c, ())) () text = ((text.takeWhile test).length, ()) := by
  induction text with
  | nil => rfl
  | cons c rest ih => cases h : test c <;> simp [acceptedBy, h, ih]

end Cursor

end CobolSource
