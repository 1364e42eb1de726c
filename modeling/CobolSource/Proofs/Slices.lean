/-
# Proofs.Slices — a text cut at bytes

Spans count UTF-8 bytes, so what a span is about is found by cutting the source at its two bytes.
`readTo` keeps the characters that begin before a byte, whatever the byte is; a byte is a boundary
when those characters end exactly there, and that is what a valid position of a string is
(`isBoundary_iff_isValid`). A cut of a text whose parts are known finds the part
(`slice_append`).
-/
import CobolSource.Text.Place

namespace CobolSource

set_option autoImplicit false

/-! ## Counting bytes -/

@[simp] theorem byteCount_append (first second : List Char) :
    byteCount (first ++ second) = byteCount first + byteCount second := by
  induction first with
  | nil => simp [byteCount]
  | cons c rest ih => simp [byteCount, ih, Nat.add_assoc]

@[simp] theorem byteCount_reverse (text : List Char) : byteCount text.reverse = byteCount text := by
  induction text with
  | nil => rfl
  | cons c rest ih => simp [byteCount, ih, Nat.add_comm]

theorem byteCount_pos {text : List Char} (more : text ≠ []) : 0 < byteCount text := by
  cases text with
  | nil => exact absurd rfl more
  | cons c rest => exact Nat.add_pos_left c.utf8Size_pos _

theorem byteCount_eq_utf8ByteSize (text : List Char) :
    byteCount text = (String.ofList text).utf8ByteSize := by
  induction text with
  | nil => rfl
  | cons c rest ih =>
      rw [byteCount, ih, ← List.singleton_append, String.ofList_append, String.utf8ByteSize_append,
        ← String.singleton_eq_ofList, String.utf8ByteSize_singleton]

@[simp] theorem offset_afterText_start (before : List Char) :
    (Place.afterText {} before).offset = byteCount before := by
  rw [Place.offset_afterText]
  exact Nat.zero_add _

/-! ## Cutting -/

/-- The characters of a text that begin before byte `offset`. -/
def readTo : List Char → Nat → List Char
  | [], _ => []
  | c :: rest, offset => if offset = 0 then [] else c :: readTo rest (offset - c.utf8Size)

/-- Whether a character of the text begins at byte `offset`, or the text ends there. -/
def IsBoundary (text : List Char) (offset : Nat) : Prop :=
  byteCount (readTo text offset) = offset

instance (text : List Char) (offset : Nat) : Decidable (IsBoundary text offset) :=
  inferInstanceAs (Decidable (_ = _))

/-- What a text has from byte `start` up to byte `stop`. -/
def slice (text : List Char) (start stop : Nat) : List Char :=
  (readTo text stop).drop (readTo text start).length

@[simp] theorem readTo_append (before after : List Char) :
    readTo (before ++ after) (byteCount before) = before := by
  induction before with
  | nil => cases after <;> simp [readTo, byteCount]
  | cons c before ih =>
      have size := c.utf8Size_pos
      rw [List.cons_append, readTo, byteCount, if_neg (by omega), Nat.add_sub_cancel_left, ih]

theorem readTo_isPrefix (text : List Char) (offset : Nat) : readTo text offset <+: text := by
  induction text generalizing offset with
  | nil => exact List.nil_prefix
  | cons c rest ih =>
      rw [readTo]
      split
      · exact List.nil_prefix
      · exact List.cons_prefix_cons.2 ⟨rfl, ih _⟩

theorem isBoundary_iff {text : List Char} {offset : Nat} :
    IsBoundary text offset ↔
      ∃ before after, text = before ++ after ∧ byteCount before = offset := by
  constructor
  · intro boundary
    obtain ⟨after, split⟩ := readTo_isPrefix text offset
    exact ⟨readTo text offset, after, split.symm, boundary⟩
  · rintro ⟨before, after, rfl, rfl⟩
    rw [IsBoundary, readTo_append]

theorem isBoundary_append (before after : List Char) :
    IsBoundary (before ++ after) (byteCount before) :=
  isBoundary_iff.2 ⟨before, after, rfl, rfl⟩

/-- The boundaries up to the end of a part are where that part can be cut. -/
theorem isBoundary_append_iff {before after : List Char} {offset : Nat} :
    offset ≤ byteCount before ∧ IsBoundary (before ++ after) offset ↔
      ∃ far part, before = far ++ part ∧ byteCount far = offset := by
  rw [isBoundary_iff]
  constructor
  · rintro ⟨reached, first, second, split, rfl⟩
    rcases List.append_eq_append_iff.1 split with ⟨part, rfl, -⟩ | ⟨part, rfl, -⟩
    · cases part with
      | nil => exact ⟨before, [], (List.append_nil _).symm, by rw [List.append_nil]⟩
      | cons c part =>
          have size := byteCount_pos (List.cons_ne_nil c part)
          rw [byteCount_append] at reached
          omega
    · exact ⟨first, part, rfl, rfl⟩
  · rintro ⟨far, part, rfl, rfl⟩
    exact ⟨by simp, far, part ++ after, by simp, rfl⟩

/-- The boundaries of a text are the valid positions of it as a string. -/
theorem isBoundary_iff_isValid {text : List Char} {offset : Nat} :
    IsBoundary text offset ↔ (⟨offset⟩ : String.Pos.Raw).IsValid (String.ofList text) := by
  rw [isBoundary_iff, String.Pos.Raw.isValid_iff_exists_append]
  constructor
  · rintro ⟨before, after, rfl, rfl⟩
    refine ⟨String.ofList before, String.ofList after, String.ofList_append, ?_⟩
    rw [byteCount_eq_utf8ByteSize]
    rfl
  · rintro ⟨first, second, split, count⟩
    refine ⟨first.toList, second.toList, ?_, ?_⟩
    · rw [← String.toList_append, ← split, String.toList_ofList]
    · rw [byteCount_eq_utf8ByteSize, String.ofList_toList]
      exact (congrArg String.Pos.Raw.byteIdx count).symm

theorem slice_append (before part after : List Char) :
    slice (before ++ part ++ after) (byteCount before) (byteCount before + byteCount part) =
      part := by
  rw [slice, ← byteCount_append, readTo_append, List.append_assoc, readTo_append, List.drop_left]

theorem slice_append_end (before part : List Char) :
    slice (before ++ part) (byteCount before) (byteCount (before ++ part)) = part := by
  have cut := slice_append before part []
  rwa [List.append_nil, ← byteCount_append] at cut

end CobolSource
