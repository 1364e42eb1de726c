/-
# Proofs.ByteReading — a cursor over characters and a cursor over bytes

`Cursor` keeps a text as the characters on its two sides. `ByteCursor` keeps a source as it is
stored, as bytes, and nothing else but its place: the byte there is the current character when it is
below 128, anything else is found by cutting the source at bytes and decoding what is cut, and a
movement adds a number of bytes to the offset. No step of it says that the offset stays between two
characters.

It does: wherever movements lead a `Cursor`, they lead the byte cursor to the same place, and there
the two give the same answers (`Cursor.ReadsBytes`). So what reading by bytes comes to can be said
of the two sides of the cursor (`Cursor.Zips`), and `movements_zip` says it of every source and of
all movements, including those under a test that keeps a state of its own. `Asked` is what such a
test gets to see.
-/
import CobolSource.Proofs.Reach
import CobolSource.Proofs.Slices

namespace CobolSource

set_option autoImplicit false

/-! ## The bytes of a text -/

theorem toList_data_ofList (text : List Char) :
    (String.ofList text).toByteArray.data.toList = text.flatMap String.utf8EncodeChar := by
  rw [String.toByteArray_ofList, List.utf8Encode, List.toList_data_toByteArray]

theorem size_utf8Encode (text : List Char) : text.utf8Encode.size = byteCount text := by
  rw [byteCount_eq_utf8ByteSize, ← String.size_toByteArray, String.toByteArray_ofList]

/-- The byte that follows a part of a text is the first one of what comes after. -/
theorem getElem?_data_append (before after : List Char) :
    (String.ofList (before ++ after)).toByteArray.data[byteCount before]? =
      (after.flatMap String.utf8EncodeChar).head? := by
  have length : (before.flatMap String.utf8EncodeChar).length = byteCount before := by
    rw [← toList_data_ofList, Array.length_toList, ← size_utf8Encode, String.toByteArray_ofList]
    rfl
  rw [← Array.getElem?_toList, toList_data_ofList, List.flatMap_append, ← length,
    List.getElem?_append_right (Nat.le_refl _), Nat.sub_self, List.head?_eq_getElem?]

/-- A byte below 128 that a character starts with is that character. -/
theorem ofUInt8_eq_of_encoded {c : Char} {first : UInt8} {others : List UInt8}
    (encoded : String.utf8EncodeChar c = first :: others) (ascii : first < 128) :
    Char.ofUInt8 first = c := by
  replace ascii : first.toNat < 128 := UInt8.lt_iff_toNat_lt.1 ascii
  unfold String.utf8EncodeChar at encoded
  dsimp only at encoded
  split at encoded
  · rename_i small
    obtain ⟨rfl, -⟩ := List.cons.inj encoded
    apply Char.ext
    apply UInt32.toNat_inj.1
    change (UInt8.ofNat c.val.toNat).toUInt32.toNat = c.val.toNat
    rw [UInt8.toNat_toUInt32, UInt8.toNat_ofNat']
    omega
  -- every longer encoding opens with a byte of at least 192
  · exfalso
    split at encoded
    · obtain ⟨rfl, -⟩ := List.cons.inj encoded
      rw [UInt8.toNat_ofNat'] at ascii
      omega
    · split at encoded
      all_goals
        obtain ⟨rfl, -⟩ := List.cons.inj encoded
        rw [UInt8.toNat_ofNat'] at ascii
        omega

theorem extract_toByteArray (far part after : List Char) :
    (String.ofList (far ++ part ++ after)).toByteArray.extract (byteCount far)
      (byteCount (far ++ part)) = part.utf8Encode := by
  rw [String.toByteArray_ofList, List.utf8Encode_append, ← size_utf8Encode (far ++ part),
    ByteArray.extract_append_size_left, List.utf8Encode_append]
  exact ByteArray.extract_append_eq_right (size_utf8Encode far).symm ByteArray.size_append

/-- What a source has from byte `start` up to byte `stop`. There is no answer where the two are out
of order, or where one of them is past the end or inside a character. -/
def textBetween? (source : String) (start stop : Nat) : Option (List Char) :=
  if start ≤ stop ∧ String.Pos.Raw.isValid source ⟨start⟩ ∧
      String.Pos.Raw.isValid source ⟨stop⟩ then
    (source.toByteArray.extract start stop).utf8Decode?.map Array.toList
  else none

theorem textBetween?_append (far part after : List Char) :
    textBetween? (String.ofList (far ++ part ++ after)) (byteCount far) (byteCount (far ++ part)) =
      some part := by
  have start : IsBoundary (far ++ part ++ after) (byteCount far) := by
    rw [List.append_assoc]
    exact isBoundary_append _ _
  have stop : IsBoundary (far ++ part ++ after) (byteCount (far ++ part)) :=
    isBoundary_append _ _
  rw [isBoundary_iff_isValid, ← String.Pos.Raw.isValid_eq_true_iff] at start stop
  rw [textBetween?, if_pos ⟨by simp, start, stop⟩, extract_toByteArray, List.utf8Decode?_utf8Encode]
  rfl

/-! ## A cursor over bytes -/

structure ByteCursor where
  source : String
  place : Place := {}

namespace ByteCursor

def rest? (cursor : ByteCursor) : Option (List Char) :=
  textBetween? cursor.source cursor.place.offset cursor.source.utf8ByteSize

def cutFrom? (cursor : ByteCursor) (start : Nat) : Option (List Char) :=
  textBetween? cursor.source start cursor.place.offset

/-- A byte below 128 is a character as it stands; before any other the rest is decoded. -/
def current? (cursor : ByteCursor) : Option Char :=
  match cursor.source.toByteArray.data[cursor.place.offset]? with
  | none => none
  | some byte => if byte < 128 then some (.ofUInt8 byte) else cursor.rest?.bind List.head?

def peek? (cursor : ByteCursor) : Nat → Option Char
  | 0 => cursor.current?
  | n + 1 => cursor.rest?.bind (·[n + 1]?)

def atEnd (cursor : ByteCursor) : Bool :=
  decide (cursor.source.utf8ByteSize ≤ cursor.place.offset)

def next? (cursor : ByteCursor) : Option (Char × ByteCursor) :=
  cursor.current?.map fun c => (c, { cursor with place := cursor.place.after c })

def advance (cursor : ByteCursor) : ByteCursor :=
  match cursor.next? with
  | some (_, past) => past
  | none => cursor

def accept? (cursor : ByteCursor) (c : Char) : Option ByteCursor :=
  if cursor.current? = some c then some cursor.advance else none

theorem offset_lt_of_current? {cursor : ByteCursor} {c : Char}
    (current : cursor.current? = some c) :
    cursor.place.offset < cursor.source.utf8ByteSize := by
  unfold current? at current
  split at current
  · cases current
  · rename_i byte found
    obtain ⟨inside, -⟩ := Array.getElem?_eq_some_iff.1 found
    exact inside

theorem advance_of_current? {cursor : ByteCursor} {c : Char} (current : cursor.current? = some c) :
    cursor.advance = { cursor with place := cursor.place.after c } := by
  rw [advance, next?, current]
  rfl

/-- Asks about the current character, as long as there is one, and moves past it if the test
accepts it. -/
def advanceWhileFrom {σ : Type} (cursor : ByteCursor) (test : σ → Char → Bool × σ) (state : σ) :
    ByteCursor × σ :=
  match _ : cursor.current? with
  | none => (cursor, state)
  | some c =>
      match test state c with
      | (true, later) => cursor.advance.advanceWhileFrom test later
      | (false, later) => (cursor, later)
termination_by cursor.source.utf8ByteSize - cursor.place.offset
decreasing_by
  have current : cursor.current? = some c := ‹_›
  have inside := offset_lt_of_current? current
  have size := c.utf8Size_pos
  rw [advance_of_current? current]
  simp only [Place.offset_after]
  omega

def advanceWhile (cursor : ByteCursor) (test : Char → Bool) : ByteCursor :=
  (cursor.advanceWhileFrom (fun _ c => (test c, ())) ()).1

def skipBlanks (cursor : ByteCursor) : ByteCursor :=
  cursor.advanceWhile isBlank

theorem advanceWhileFrom_of_end {σ : Type} {cursor : ByteCursor} (ended : cursor.current? = none)
    (test : σ → Char → Bool × σ) (state : σ) :
    cursor.advanceWhileFrom test state = (cursor, state) := by
  unfold advanceWhileFrom
  split
  · rfl
  · rename_i found
    rw [ended] at found
    cases found

theorem advanceWhileFrom_of_current? {σ : Type} {cursor : ByteCursor} {c : Char}
    (current : cursor.current? = some c) (test : σ → Char → Bool × σ) (state : σ) :
    cursor.advanceWhileFrom test state =
      match test state c with
      | (true, later) => cursor.advance.advanceWhileFrom test later
      | (false, later) => (cursor, later) := by
  rw [advanceWhileFrom]
  split
  · rename_i found
    rw [current] at found
    cases found
  · rename_i found
    obtain rfl := Option.some.inj (current.symm.trans found)
    rfl

end ByteCursor

/-! ## Movements -/

inductive Movement : Type 1 where
  | advance
  | accept (c : Char)
  | skipBlanks
  | advanceWhile (test : Char → Bool)
  /-- A movement under a test that has a state of its own, which it has before the movement. -/
  | advanceWhileFrom {σ : Type} (test : σ → Char → Bool × σ) (state : σ)

/-- Where a movement leads. Past a character that is not there leads nowhere. -/
def Cursor.move (cursor : Cursor) : Movement → Cursor
  | .advance => cursor.advance
  | .accept c => (cursor.accept? c).getD cursor
  | .skipBlanks => cursor.skipBlanks
  | .advanceWhile test => cursor.advanceWhile test
  | .advanceWhileFrom test state => (cursor.advanceWhileFrom test state).1

def ByteCursor.move (cursor : ByteCursor) : Movement → ByteCursor
  | .advance => cursor.advance
  | .accept c => (cursor.accept? c).getD cursor
  | .skipBlanks => cursor.skipBlanks
  | .advanceWhile test => cursor.advanceWhile test
  | .advanceWhileFrom test state => (cursor.advanceWhileFrom test state).1

/-! ## What a test is asked -/

/-- `Asked test state part rest final`: a test is asked about the characters of a text from left to
right, about each once, until it refuses one or none is left. It starts in `state`, accepts `part`,
refuses the head of `rest` if there is one, and is then in `final`. -/
inductive Asked {σ : Type} (test : σ → Char → Bool × σ) : σ → List Char → List Char → σ → Prop
  | ended (state : σ) : Asked test state [] [] state
  | refused {state later : σ} {c : Char} {rest : List Char} :
      test state c = (false, later) → Asked test state [] (c :: rest) later
  | accepted {state later final : σ} {c : Char} {part rest : List Char} :
      test state c = (true, later) → Asked test later part rest final →
        Asked test state (c :: part) rest final

theorem exists_asked {σ : Type} (test : σ → Char → Bool × σ) (state : σ) (text : List Char) :
    ∃ part rest, text = part ++ rest ∧ (Cursor.acceptedBy test state text).1 = part.length ∧
      Asked test state part rest (Cursor.acceptedBy test state text).2 := by
  induction text generalizing state with
  | nil => exact ⟨[], [], rfl, rfl, .ended state⟩
  | cons c rest ih =>
      rw [Cursor.acceptedBy]
      rcases answer : test state c with ⟨_ | _, later⟩
      · exact ⟨[], c :: rest, rfl, rfl, .refused answer⟩
      · obtain ⟨part, left, rfl, count, asked⟩ := ih later
        exact ⟨c :: part, left, rfl, congrArg (· + 1) count, .accepted answer asked⟩

namespace Cursor

variable (before after : List Char)

/-! ## Moving between two parts of a text -/

@[simp] theorem text_between : (between before after).text = before ++ after := by
  simp [between, text]

theorem advance_between_cons (c : Char) (rest : List Char) :
    (between before (c :: rest)).advance = between (before ++ [c]) rest :=
  advanceBy_length_between before [c] rest

theorem next?_between :
    (between before after).next? =
      after.head?.map fun c => (c, (between before after).advance) := by
  cases after <;> rfl

theorem next?_eq_some_iff {c : Char} {past : Cursor} :
    (between before after).next? = some (c, past) ↔
      ∃ rest, after = c :: rest ∧ past = between (before ++ [c]) rest := by
  rw [next?_between]
  cases after with
  | nil => simp
  | cons d rest =>
      rw [advance_between_cons, List.head?_cons, Option.map_some, Option.some.injEq, Prod.mk.injEq]
      constructor
      · rintro ⟨rfl, rfl⟩
        exact ⟨rest, rfl, rfl⟩
      · rintro ⟨others, split, rfl⟩
        obtain ⟨rfl, rfl⟩ := List.cons.inj split
        exact ⟨rfl, rfl⟩

theorem accept?_eq_some_iff {cursor past : Cursor} {c : Char} :
    cursor.accept? c = some past ↔ cursor.next? = some (c, past) := by
  obtain ⟨behind, ahead, place⟩ := cursor
  cases ahead with
  | nil => simp [accept?, current?, next?]
  | cons d rest =>
      rw [accept?, current?, List.head?_cons, advance_cons, next?]
      by_cases same : d = c
      · rw [same, if_pos rfl]
        simp
      · rw [if_neg (by simpa using same)]
        simp [same]

theorem advanceWhile_between (test : Char → Bool) :
    (between before after).advanceWhile test =
      between (before ++ after.takeWhile test) (after.dropWhile test) := by
  have moved := advanceBy_length_between before (after.takeWhile test) (after.dropWhile test)
  rw [List.takeWhile_append_dropWhile] at moved
  exact moved

theorem advanceWhileFrom_eq {σ : Type} (cursor : Cursor) (test : σ → Char → Bool × σ) (state : σ) :
    cursor.advanceWhileFrom test state =
      (cursor.advanceBy (acceptedBy test state cursor.ahead).1,
        (acceptedBy test state cursor.ahead).2) :=
  rfl

theorem advanceWhile_eq (cursor : Cursor) (test : Char → Bool) :
    cursor.advanceWhile test = (cursor.advanceWhileFrom (fun _ c => (test c, ())) ()).1 := by
  rw [advanceWhileFrom_eq, acceptedBy_stateless]
  rfl

/-! ## Cutting back from a cursor -/

theorem cutFrom?_eq_some_iff {start : Nat} {part : List Char} :
    (between before after).cutFrom? start = some part ↔
      ∃ far, before = far ++ part ∧ byteCount far = start := by
  rw [cutFrom?, place_between, offset_afterText_start, behind_between]
  constructor
  · intro cut
    split at cut
    · rename_i reached
      obtain ⟨near, far, split, count, rfl⟩ := cutBack?_eq_some_iff.1 cut
      have parts := congrArg List.reverse split
      rw [List.reverse_reverse, List.reverse_append] at parts
      rw [parts, byteCount_append, byteCount_reverse near] at count reached
      exact ⟨far.reverse, by rw [parts, List.append_nil], by omega⟩
    · cases cut
  · rintro ⟨far, rfl, rfl⟩
    rw [byteCount_append, if_pos (Nat.le_add_right _ _), Nat.add_sub_cancel_left,
      cutBack?_eq_some_iff]
    exact ⟨part.reverse, far.reverse, List.reverse_append, byteCount_reverse part, by simp⟩

theorem cutFrom?_eq_none_iff {start : Nat} :
    (between before after).cutFrom? start = none ↔
      ¬(start ≤ byteCount before ∧ IsBoundary (before ++ after) start) := by
  rw [isBoundary_append_iff, Option.eq_none_iff_forall_ne_some]
  simp only [ne_eq, cutFrom?_eq_some_iff, not_exists]
  exact forall_comm

/-! ## The same text as bytes -/

/-- The byte cursor that stands where this cursor stands. -/
def bytes (cursor : Cursor) : ByteCursor :=
  ⟨String.ofList cursor.text, cursor.place⟩

theorem bytes_between :
    (between before after).bytes =
      ⟨String.ofList (before ++ after), Place.afterText {} before⟩ := by
  rw [bytes, text_between, place_between]

theorem rest?_bytes : (between before after).bytes.rest? = some after := by
  have cut := textBetween?_append before after []
  rw [List.append_nil, byteCount_eq_utf8ByteSize (before ++ after)] at cut
  rw [ByteCursor.rest?, bytes_between, offset_afterText_start]
  exact cut

theorem current?_bytes : (between before after).bytes.current? = after.head? := by
  rw [ByteCursor.current?, rest?_bytes, bytes_between, offset_afterText_start,
    getElem?_data_append]
  cases after with
  | nil => rfl
  | cons c rest =>
      obtain ⟨first, others, encoded⟩ := List.exists_cons_of_length_pos
        (String.length_utf8EncodeChar c ▸ c.utf8Size_pos)
      rw [List.flatMap_cons, encoded, List.cons_append, List.head?_cons]
      dsimp only
      split
      · rename_i ascii
        rw [ofUInt8_eq_of_encoded encoded ascii]
        rfl
      · rfl

theorem peek?_bytes (n : Nat) : (between before after).bytes.peek? n = after[n]? := by
  cases n with
  | zero => rw [ByteCursor.peek?, current?_bytes, List.head?_eq_getElem?]
  | succ n => rw [ByteCursor.peek?, rest?_bytes, Option.bind_some]

theorem atEnd_bytes : (between before after).bytes.atEnd = after.isEmpty := by
  rw [ByteCursor.atEnd, bytes_between, offset_afterText_start, ← byteCount_eq_utf8ByteSize,
    byteCount_append]
  cases after with
  | nil => simp [byteCount]
  | cons c rest =>
      have size := byteCount_pos (List.cons_ne_nil c rest)
      rw [List.isEmpty_cons, decide_eq_false]
      omega

theorem cutFrom?_bytes (start : Nat) :
    (between before after).bytes.cutFrom? start = (between before after).cutFrom? start := by
  rw [ByteCursor.cutFrom?, bytes_between, offset_afterText_start]
  by_cases boundary : start ≤ byteCount before ∧ IsBoundary (before ++ after) start
  · obtain ⟨far, part, rfl, rfl⟩ := isBoundary_append_iff.1 boundary
    rw [textBetween?_append, (cutFrom?_eq_some_iff _ after).2 ⟨far, rfl, rfl⟩]
  · rw [(cutFrom?_eq_none_iff before after).2 boundary, textBetween?, if_neg]
    rintro ⟨reached, valid, -⟩
    exact boundary ⟨reached, isBoundary_iff_isValid.2 (String.Pos.Raw.isValid_eq_true_iff.1 valid)⟩

theorem advance_bytes :
    (between before after).bytes.advance = (between before after).advance.bytes := by
  rw [ByteCursor.advance, ByteCursor.next?, current?_bytes]
  cases after with
  | nil => rfl
  | cons c rest =>
      rw [advance_between_cons, bytes_between, bytes_between, Place.afterText_append,
        List.append_assoc]
      rfl

theorem next?_bytes :
    (between before after).bytes.next? = (between before after).next?.map (Prod.map id bytes) := by
  rw [ByteCursor.next?, current?_bytes, next?_between]
  cases after with
  | nil => rfl
  | cons c rest =>
      have moved := advance_bytes before (c :: rest)
      rw [ByteCursor.advance_of_current? (current?_bytes before (c :: rest))] at moved
      rw [List.head?_cons, Option.map_some, moved]
      rfl

theorem accept?_bytes (c : Char) :
    (between before after).bytes.accept? c = ((between before after).accept? c).map bytes := by
  rw [ByteCursor.accept?, accept?, current?_bytes, current?, ahead_between, advance_bytes]
  split <;> rfl

/-- The induction is on the text ahead. The byte cursor's loop moves on by one character at a time,
so its next turn is about the cursor one character on. -/
theorem advanceWhileFrom_bytes {σ : Type} (test : σ → Char → Bool × σ) (state : σ) :
    (between before after).bytes.advanceWhileFrom test state =
      ((between before after).advanceWhileFrom test state).map bytes id := by
  induction after generalizing before state with
  | nil => exact ByteCursor.advanceWhileFrom_of_end (current?_bytes before []) test state
  | cons c rest ih =>
      rw [ByteCursor.advanceWhileFrom_of_current? (current?_bytes before (c :: rest)),
        advanceWhileFrom_eq, ahead_between, acceptedBy]
      rcases answer : test state c with ⟨_ | _, later⟩
      · rfl
      · dsimp only
        rw [advance_bytes, advance_between_cons, ih, advanceWhileFrom_eq, ahead_between,
          ← advance_between_cons]
        rfl

theorem advanceWhile_bytes (test : Char → Bool) :
    (between before after).bytes.advanceWhile test =
      ((between before after).advanceWhile test).bytes := by
  rw [ByteCursor.advanceWhile, advanceWhileFrom_bytes, advanceWhile_eq]
  rfl

/-! ## What movements lead to -/

/-- The answers of a cursor, and where it goes from here, are those of the byte cursor that stands
there. -/
structure ReadsBytes (cursor : Cursor) : Prop where
  current : cursor.bytes.current? = cursor.current?
  peek : ∀ n, cursor.bytes.peek? n = cursor.peek? n
  rest : cursor.bytes.rest? = some cursor.ahead
  atEnd : cursor.bytes.atEnd = cursor.atEnd
  cut : ∀ start, cursor.bytes.cutFrom? start = cursor.cutFrom? start
  next : cursor.bytes.next? = cursor.next?.map (Prod.map id bytes)
  accept : ∀ c, cursor.bytes.accept? c = (cursor.accept? c).map bytes
  advanceWhileFrom : ∀ {σ : Type} (test : σ → Char → Bool × σ) (state : σ),
    cursor.bytes.advanceWhileFrom test state = (cursor.advanceWhileFrom test state).map bytes id
  move : ∀ movement, cursor.bytes.move movement = (cursor.move movement).bytes

/-- A cursor has read `before` and has `after` still to read, as far as its answers tell and
wherever it goes from here. -/
structure Zips (cursor : Cursor) (before after : List Char) : Prop where
  text : cursor.text = before ++ after
  offset : cursor.place.offset = byteCount before
  current : cursor.current? = after.head?
  peek : ∀ n, cursor.peek? n = after[n]?
  current_advanceBy : ∀ n, (cursor.advanceBy n).current? = after[n]?
  rest : cursor.ahead = after
  atEnd : cursor.atEnd = true ↔ after = []
  cut : ∀ start part,
    cursor.cutFrom? start = some part ↔ ∃ far, before = far ++ part ∧ byteCount far = start
  uncut : ∀ start,
    cursor.cutFrom? start = none ↔
      cursor.place.offset < start ∨ ¬IsBoundary (before ++ after) start
  next : ∀ c past,
    cursor.next? = some (c, past) ↔ ∃ rest, after = c :: rest ∧ past = between (before ++ [c]) rest
  advance_cons : ∀ c rest, after = c :: rest → cursor.advance = between (before ++ [c]) rest
  advance_nil : after = [] → cursor.advance = cursor
  accept : ∀ c past,
    cursor.accept? c = some past ↔ ∃ rest, after = c :: rest ∧ past = between (before ++ [c]) rest
  advanceWhile : ∀ test,
    cursor.advanceWhile test = between (before ++ after.takeWhile test) (after.dropWhile test)
  advanceWhileFrom : ∀ {σ : Type} (test : σ → Char → Bool × σ) (state : σ), ∃ part rest,
    after = part ++ rest ∧
      (cursor.advanceWhileFrom test state).1 = between (before ++ part) rest ∧
      Asked test state part rest (cursor.advanceWhileFrom test state).2

theorem move_bytes (movement : Movement) :
    (between before after).bytes.move movement = ((between before after).move movement).bytes := by
  cases movement with
  | advance => exact advance_bytes before after
  | accept c =>
      rw [ByteCursor.move, move, accept?_bytes]
      cases (between before after).accept? c <;> rfl
  | skipBlanks => exact advanceWhile_bytes before after isBlank
  | advanceWhile test => exact advanceWhile_bytes before after test
  | advanceWhileFrom test state => rw [ByteCursor.move, advanceWhileFrom_bytes]; rfl

theorem readsBytes_between : (between before after).ReadsBytes where
  current := current?_bytes before after
  peek := peek?_bytes before after
  rest := rest?_bytes before after
  atEnd := atEnd_bytes before after
  cut := cutFrom?_bytes before after
  next := next?_bytes before after
  accept := accept?_bytes before after
  advanceWhileFrom := advanceWhileFrom_bytes before after
  move := move_bytes before after

theorem zips_between : (between before after).Zips before after where
  text := text_between before after
  offset := offset_afterText_start before
  current := rfl
  peek _ := rfl
  current_advanceBy n := by rw [current?, ahead_advanceBy, ahead_between, List.head?_drop]
  rest := rfl
  atEnd := List.isEmpty_iff
  cut _ _ := cutFrom?_eq_some_iff before after
  uncut start := by
    rw [cutFrom?_eq_none_iff, place_between, offset_afterText_start, ← Nat.not_le]
    exact Decidable.not_and_iff_not_or_not
  next _ _ := next?_eq_some_iff before after
  advance_cons := by
    rintro c rest rfl
    exact advance_between_cons before c rest
  advance_nil := by
    rintro rfl
    rfl
  accept _ _ := accept?_eq_some_iff.trans (next?_eq_some_iff before after)
  advanceWhile := advanceWhile_between before after
  advanceWhileFrom test state := by
    obtain ⟨part, rest, rfl, count, asked⟩ := exists_asked test state after
    refine ⟨part, rest, rfl, ?_, asked⟩
    rw [advanceWhileFrom_eq, ahead_between, count]
    exact advanceBy_length_between before part rest

/-- However a movement decides how far to go, it goes some number of characters. -/
theorem move_eq_advanceBy (cursor : Cursor) (movement : Movement) :
    ∃ n, cursor.move movement = cursor.advanceBy n := by
  cases movement with
  | advance => exact ⟨1, rfl⟩
  | accept c =>
      rw [move, accept?]
      split
      · exact ⟨1, rfl⟩
      · exact ⟨0, rfl⟩
  | skipBlanks => exact ⟨_, rfl⟩
  | advanceWhile test => exact ⟨_, rfl⟩
  | advanceWhileFrom test state => exact ⟨_, rfl⟩

theorem foldl_move_between (movements : List Movement) :
    ∃ part rest, after = part ++ rest ∧
      movements.foldl move (between before after) = between (before ++ part) rest ∧
      movements.foldl ByteCursor.move (between before after).bytes =
        (between (before ++ part) rest).bytes := by
  induction movements generalizing before after with
  | nil => exact ⟨[], after, rfl, by simp, by simp⟩
  | cons movement movements ih =>
      rw [List.foldl_cons, List.foldl_cons, move_bytes]
      obtain ⟨n, moved⟩ := move_eq_advanceBy (between before after) movement
      rw [moved, advanceBy_between]
      obtain ⟨part, rest, split, chars, bytes⟩ := ih (before ++ after.take n) (after.drop n)
      refine ⟨after.take n ++ part, rest, ?_, ?_, ?_⟩
      · rw [List.append_assoc, ← split, List.take_append_drop]
      · rw [chars, List.append_assoc]
      · rw [bytes, List.append_assoc]

/-- **Reading by bytes is reading character by character.** For every source, and wherever movements
lead, the source is split in two: what is behind the cursor and what is ahead. The answers are those
of the two sides, each further movement takes characters from one side to the other, and a cursor
that knows only the bytes and an offset into them stands at the same place, gives the same answers
and goes on to the same places. -/
theorem movements_zip (source : String) (movements : List Movement) :
    ∃ before after, source.toList = before ++ after ∧
      movements.foldl move (ofText source.toList) = between before after ∧
      movements.foldl ByteCursor.move { source } = (between before after).bytes ∧
      (between before after).Zips before after ∧ (between before after).ReadsBytes := by
  obtain ⟨before, after, split, chars, bytes⟩ := foldl_move_between [] source.toList movements
  have start : (between [] source.toList).bytes = { source } := by
    rw [bytes_between, List.nil_append, String.ofList_toList]
    rfl
  rw [start] at bytes
  exact ⟨before, after, split, chars, bytes, zips_between before after,
    readsBytes_between before after⟩

/-- The second byte of a letter is no place to cut. -/
example : ((ofText "Aé€".toList).advanceBy 2).cutFrom? 1 = some ['é'] ∧
    ((ofText "Aé€".toList).advanceBy 2).cutFrom? 2 = none := by
  decide

end Cursor

end CobolSource
