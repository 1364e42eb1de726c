/-
# Proofs.LineEnds — whichever way lines end

Sources end their lines with LF, with CR LF, or with CR, and a scan finds the same in them. Two
respellings say so. `pairsToFeeds` writes one LF for each CR LF: that moves bytes, but no line and
no column, since a CR is the last character of a line that an LF ends anyway
(`lineColumn_pairsToFeeds`). `returnsToFeeds` writes an LF for each CR: that opens new lines, but
moves no byte.

`run_lineEnds` is the theorem for all calls. Strings and phrases are the only finds with line ends
in them, so these alone are respelled (`Finding.mapText`).
-/
import CobolSource.Proofs.Coordinates
import CobolSource.Proofs.RespelledRun

namespace CobolSource

set_option autoImplicit false

/-! ## The two conversions -/

/-- The text with one LF in place of each CR LF. -/
def pairsToFeeds : List Char → List Char
  | [] => []
  | c :: rest =>
      if c = '\r' ∧ rest.head? = some '\n' then pairsToFeeds rest else c :: pairsToFeeds rest

def returnToFeed (c : Char) : Char :=
  if c = '\r' then '\n' else c

/-- The text with an LF in place of each CR. -/
def returnsToFeeds (text : List Char) : List Char :=
  text.map returnToFeed

theorem pairsToFeeds_pair (rest : List Char) :
    pairsToFeeds ('\r' :: '\n' :: rest) = pairsToFeeds ('\n' :: rest) :=
  if_pos ⟨rfl, rfl⟩

theorem pairsToFeeds_other {c : Char} {rest : List Char}
    (other : ¬ (c = '\r' ∧ rest.head? = some '\n')) :
    pairsToFeeds (c :: rest) = c :: pairsToFeeds rest :=
  if_neg other

theorem respelled_pairsToFeeds (text : List Char) : Respelled text (pairsToFeeds text) := by
  induction text with
  | nil => exact .nil
  | cons c rest ih =>
      by_cases pair : c = '\r' ∧ rest.head? = some '\n'
      · obtain ⟨rfl, feed⟩ := pair
        obtain ⟨more, rfl⟩ := List.head?_eq_some_iff.1 feed
        rw [pairsToFeeds_pair]
        exact .drop (by decide) (by decide) ih
      · rw [pairsToFeeds_other pair]
        exact .cons rfl ih

theorem pairsToFeeds_append {before after : List Char} (parted : Parted before after) :
    pairsToFeeds (before ++ after) = pairsToFeeds before ++ pairsToFeeds after := by
  induction before with
  | nil => rfl
  | cons c rest ih =>
      have later : Parted rest after := by
        intro d last
        cases rest with
        | nil => cases last
        | cons e rest => exact parted d (by rwa [List.getLast?_cons_cons])
      rw [List.cons_append]
      by_cases pair : c = '\r' ∧ rest.head? = some '\n'
      · obtain ⟨rfl, feed⟩ := pair
        obtain ⟨more, rfl⟩ := List.head?_eq_some_iff.1 feed
        rw [List.cons_append, pairsToFeeds_pair, pairsToFeeds_pair]
        exact ih later
      · have stays : ¬ (c = '\r' ∧ (rest ++ after).head? = some '\n') := by
          rintro ⟨rfl, feed⟩
          cases rest with
          | nil => exact absurd (parted '\r' rfl '\n' feed (by decide)) (by decide)
          | cons d rest => exact pair ⟨rfl, feed⟩
        rw [pairsToFeeds_other pair, pairsToFeeds_other stays, ih later, List.cons_append]

theorem returnToFeed_of_ne {c : Char} (other : c ≠ '\r') : returnToFeed c = c :=
  if_neg other

theorem alike_returnToFeed (c : Char) : Alike c (returnToFeed c) := by
  by_cases carriage : c = '\r'
  · subst carriage
    decide
  · rw [returnToFeed_of_ne carriage]
    rfl

/-- LF for CR LF, and all else as it is. -/
def feedsForPairs : Respelling :=
  ⟨pairsToFeeds, respelled_pairsToFeeds, pairsToFeeds_append⟩

/-- LF for CR, and all else as it is. -/
def feedsForReturns : Respelling :=
  .ofMap returnToFeed alike_returnToFeed

/-! ## What stays where it is -/

def Span.bytes (span : Span) : Nat × Nat :=
  (span.start, span.stop)

/-- Two places in one line, and in one column unless that line ends here, are alike after a text and
after the text with LF for CR LF. -/
theorem afterText_pairsToFeeds {near far : Place} (text : List Char) (line : far.line = near.line)
    (column : text.head? ≠ some '\n' → far.column = near.column) :
    (far.afterText (pairsToFeeds text)).lineColumn = (near.afterText text).lineColumn := by
  induction text generalizing near far with
  | nil => exact Prod.ext line (column nofun)
  | cons c rest ih =>
      by_cases pair : c = '\r' ∧ rest.head? = some '\n'
      · obtain ⟨rfl, feed⟩ := pair
        obtain ⟨more, rfl⟩ := List.head?_eq_some_iff.1 feed
        rw [pairsToFeeds_pair]
        exact ih line fun other => absurd rfl other
      · rw [pairsToFeeds_other pair, Place.afterText_cons, Place.afterText_cons]
        by_cases feed : c = '\n'
        · subst feed
          exact ih (congrArg (· + 1) line) fun _ => rfl
        · have same := column (by simpa using feed)
          apply ih
          · simp [Place.after, feed, line]
          · simp [Place.after, feed, same]

theorem lineColumn_pairsToFeeds (before : List Char) :
    (Place.afterText {} (pairsToFeeds before)).lineColumn =
      (Place.afterText {} before).lineColumn :=
  afterText_pairsToFeeds before rfl fun _ => rfl

theorem byteCount_returnsToFeeds (text : List Char) :
    byteCount (returnsToFeeds text) = byteCount text := by
  induction text with
  | nil => rfl
  | cons c rest ih =>
      have size : (returnToFeed c).utf8Size = c.utf8Size := by
        by_cases carriage : c = '\r'
        · subst carriage
          rfl
        · rw [returnToFeed_of_ne carriage]
      show (returnToFeed c).utf8Size + byteCount (returnsToFeeds rest) = _
      rw [ih, size, byteCount]

/-! ## Runs -/

/-- What is found, with the texts of strings and phrases spelled otherwise. -/
def Finding.mapText (spell : List Char → List Char) : Finding → Finding
  | .token ⟨.string, value⟩ => .token ⟨.string, String.ofList (spell value.toList)⟩
  | .phrase text => .phrase (String.ofList (spell text.toList))
  | other => other

/-- The second scan finds what the first one does and leaves ahead what that does, spelled
otherwise. -/
structure Scan.Spelled (spell : List Char → List Char) (near far : Scan) : Prop where
  finding_eq : far.outcome.finding = near.outcome.finding.mapText spell
  ahead_eq : far.lexer.cursor.ahead = spell near.lexer.cursor.ahead

/-- The two scans tell a reader of the same lines and columns. -/
structure Scan.SameLines (near far : Scan) : Prop where
  cursor_eq : far.lexer.cursor.place.lineColumn = near.lexer.cursor.place.lineColumn
  span_eq : far.span?.map Span.lineColumn = near.span?.map Span.lineColumn
  latest_eq : far.lexer.latest.map Span.lineColumn = near.lexer.latest.map Span.lineColumn

/-- The two scans are about the same bytes. -/
structure Scan.SameBytes (near far : Scan) : Prop where
  cursor_eq : far.lexer.cursor.place.offset = near.lexer.cursor.place.offset
  span_eq : far.span?.map Span.bytes = near.span?.map Span.bytes
  latest_eq : far.lexer.latest.map Span.bytes = near.lexer.latest.map Span.bytes

namespace Scan.Respelt

variable {near far : Scan}

theorem sameLines (respelt : Scan.Respelt feedsForPairs near far) : Scan.SameLines near far := by
  have spans : ∀ before part : List Char,
      (Span.over (pairsToFeeds before) (pairsToFeeds part)).lineColumn =
        (Span.over before part).lineColumn := fun before _ => lineColumn_pairsToFeeds before
  obtain ⟨before, ahead, -, here, there⟩ := respelt.lexer.stands
  refine ⟨?_, Span.Respelt.map_eq spans respelt.span,
    Span.Respelt.map_eq spans respelt.lexer.latest⟩
  rw [here, there]
  exact lineColumn_pairsToFeeds before

theorem sameBytes (respelt : Scan.Respelt feedsForReturns near far) : Scan.SameBytes near far := by
  have spans : ∀ before part : List Char,
      (Span.over (returnsToFeeds before) (returnsToFeeds part)).bytes =
        (Span.over before part).bytes := by
    intro before part
    simp only [Span.bytes, Span.start_over, Span.stop_over, byteCount_returnsToFeeds]
  obtain ⟨before, ahead, -, here, there⟩ := respelt.lexer.stands
  refine ⟨?_, Span.Respelt.map_eq spans respelt.span,
    Span.Respelt.map_eq spans respelt.lexer.latest⟩
  rw [here, there, Cursor.place_between, Cursor.place_between, offset_afterText_start,
    offset_afterText_start]
  exact byteCount_returnsToFeeds before

end Scan.Respelt

/-- Where blanks are all that is respelled, only strings and phrases are. -/
theorem Finding.respell_eq_mapText {spelling : Respelling}
    (fixes : ∀ text, (∀ c ∈ text, isBlank c = false) → spelling.apply text = text)
    {finding : Finding} (formed : ∀ token, finding = .token token → token.WellFormed) :
    finding.respell spelling = finding.mapText spelling.apply := by
  cases finding with
  | token token =>
      have admitted := formed token rfl
      obtain ⟨kind, value⟩ := token
      by_cases string : kind = .string
      · subst string
        rfl
      · have plain := fixes value.toList (admitted.solid string)
        have same : (⟨kind, value⟩ : Token).respell spelling = ⟨kind, value⟩ := by
          rw [Token.respell, plain, String.ofList_toList]
        rw [Finding.respell, same]
        cases kind with
        | string => exact absurd rfl string
        | name | integer | punctuation | operator => rfl
  | phrase text => rfl
  | fault fault => rfl
  | nothing => rfl

theorem pairsToFeeds_of_solid {text : List Char} (solid : ∀ c ∈ text, isBlank c = false) :
    pairsToFeeds text = text := by
  induction text with
  | nil => rfl
  | cons c rest ih =>
      obtain ⟨first, later⟩ := List.forall_mem_cons.1 solid
      have other : ¬ (c = '\r' ∧ rest.head? = some '\n') := by
        rintro ⟨rfl, -⟩
        exact absurd first (by decide)
      rw [pairsToFeeds_other other, ih later]

theorem returnsToFeeds_of_solid {text : List Char} (solid : ∀ c ∈ text, isBlank c = false) :
    returnsToFeeds text = text := by
  induction text with
  | nil => rfl
  | cons c rest ih =>
      obtain ⟨first, later⟩ := List.forall_mem_cons.1 solid
      have other : c ≠ '\r' := by
        rintro rfl
        exact absurd first (by decide)
      show returnToFeed c :: returnsToFeeds rest = _
      rw [returnToFeed_of_ne other, ih later]

namespace Lexer

/-- What calls find in a respelled source, if blanks are all that is respelled in it. -/
theorem run_spelled {spelling : Respelling}
    (fixes : ∀ text, (∀ c ∈ text, isBlank c = false) → spelling.apply text = text)
    {near far : Lexer} (respelt : Lexer.Respelt spelling near far) (calls : List Call) :
    List.Forall₂ (fun one other => Scan.Respelt spelling one other ∧
      Scan.Spelled spelling.apply one other) (near.run calls) (far.run calls) := by
  have formed : ∀ scan ∈ near.run calls, ∀ token, scan.outcome.finding = .token token →
      token.WellFormed := by
    intro scan among token found
    obtain ⟨earlier, call, later, -, rfl⟩ := mem_run among
    exact wellFormed_of_perform found
  refine ((List.forall₂_and_left _ _).2 ⟨formed, respelt.run calls⟩).imp ?_
  rintro one other ⟨formed, both⟩
  refine ⟨both, ?_, ?_⟩
  · rw [both.finding_eq]
    exact Finding.respell_eq_mapText fixes formed
  · obtain ⟨before, ahead, -, here, there⟩ := both.lexer.stands
    rw [here, there]
    rfl

/-- **It does not matter which way lines end.** Spell a source with LF for each CR LF, or with LF
for each CR, and there is a lexer for it as well. All calls find in it what they find in the source,
with the texts of strings and phrases spelled that way too, and leave ahead what they leave of the
source, spelled that way. In the first spelling every line and column is the same, in the second
every byte. -/
theorem run_lineEnds {text : List Char} {settings : Settings} {start : Lexer}
    (made : withSettings text settings = .ok start) (calls : List Call) :
    (∃ other, withSettings (pairsToFeeds text) settings = .ok other ∧
      List.Forall₂ (fun near far => Scan.Spelled pairsToFeeds near far ∧ Scan.SameLines near far)
        (start.run calls) (other.run calls)) ∧
    ∃ other, withSettings (returnsToFeeds text) settings = .ok other ∧
      List.Forall₂ (fun near far => Scan.Spelled returnsToFeeds near far ∧ Scan.SameBytes near far)
        (start.run calls) (other.run calls) := by
  obtain ⟨valid, rfl⟩ := eq_of_withSettings made
  constructor
  · refine ⟨_, withSettings_of_valid _ valid, ?_⟩
    have respelt := Respelt.start feedsForPairs valid text
    refine (run_spelled (fun _ => pairsToFeeds_of_solid) respelt calls).imp ?_
    rintro near far ⟨both, spelled⟩
    exact ⟨spelled, both.sameLines⟩
  · refine ⟨_, withSettings_of_valid _ valid, ?_⟩
    have respelt := Respelt.start feedsForReturns valid text
    refine (run_spelled (fun _ => returnsToFeeds_of_solid) respelt calls).imp ?_
    rintro near far ⟨both, spelled⟩
    exact ⟨spelled, both.sameBytes⟩

/-- A comment, a string over three lines, a phrase over two, and a character that starts nothing,
with lines that end in all three ways. -/
def mixedText : List Char :=
  "*é\r\n\"a\r\nb\rc\" D\r\nE.\r\r\n§".toList

theorem mixedText_lineEnds :
    ((ofText mixedText).run [.token, .phrase, .pull]).map (·.outcome.finding) =
        [.token ⟨.string, "a\r\nb\rc"⟩, .phrase "D\r\nE", .fault (.unexpectedCharacter '§')] ∧
      ((ofText (pairsToFeeds mixedText)).run [.token, .phrase, .pull]).map (·.outcome.finding) =
        [.token ⟨.string, "a\nb\rc"⟩, .phrase "D\nE", .fault (.unexpectedCharacter '§')] ∧
      ((ofText (returnsToFeeds mixedText)).run [.token, .phrase, .pull]).map (·.outcome.finding) =
        [.token ⟨.string, "a\n\nb\nc"⟩, .phrase "D\n\nE", .fault (.unexpectedCharacter '§')] ∧
      List.Forall₂ (fun near far => Scan.Spelled pairsToFeeds near far ∧ Scan.SameLines near far)
        ((ofText mixedText).run [.token, .phrase, .pull])
        ((ofText (pairsToFeeds mixedText)).run [.token, .phrase, .pull]) ∧
      List.Forall₂ (fun near far => Scan.Spelled returnsToFeeds near far ∧ Scan.SameBytes near far)
        ((ofText mixedText).run [.token, .phrase, .pull])
        ((ofText (returnsToFeeds mixedText)).run [.token, .phrase, .pull]) := by
  obtain ⟨⟨one, madeOne, pairs⟩, other, madeOther, returns⟩ :=
    run_lineEnds (withSettings_ofText mixedText) [.token, .phrase, .pull]
  obtain rfl := Except.ok.inj ((withSettings_ofText _).symm.trans madeOne)
  obtain rfl := Except.ok.inj ((withSettings_ofText _).symm.trans madeOther)
  exact ⟨by decide, by decide, by decide, pairs, returns⟩

end Lexer

end CobolSource
