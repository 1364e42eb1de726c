/-
# Proofs.Renaming — other letters and other digits

A renaming puts letters in place of letters and digits in place of digits, and leaves every other
character alone (`Renaming`). Writing all in capitals is one (`Renaming.capitals`), and so is any
other way to fold case, but a renaming may also make one letter of two. No scan looks closer at a
letter than to see that it is one, wherever it stands: in a name, in a string, after a backslash, in
a comment, or before a period.

What is scanned changes in its texts alone. `Scan.rename` says what that leaves: kinds, faults,
places, spans and settings are as they were. `run_rename` says that scanning the renamed source is
renaming what is scanned, scan by scan, with the lexers and the events. The renamed source reads
alike because it is respelled, and nothing moves because every letter and digit of ASCII takes one
byte and one column (`Renaming.afterText_map`).
-/
import CobolSource.Proofs.Reporting
import CobolSource.Proofs.RespelledRun

namespace CobolSource

set_option autoImplicit false

/-! ## Renamings -/

/-- A way to write letters for letters and digits for digits. -/
structure Renaming where
  apply : Char → Char
  letter : ∀ c, c.isAlpha = true → (apply c).isAlpha = true
  digit : ∀ c, c.isDigit = true → (apply c).isDigit = true
  other : ∀ c, c.isAlphanum = false → apply c = c

theorem shade_of_letter {c : Char} (letter : c.isAlpha = true) : shade c = 'A' := by
  have inside : endsLine c = false := endsLine_eq_false_of_solid
    (isBlank_eq_false_of_continuesName (continuesName_of_startsName letter))
  have starts : startsName c = true := letter
  simp [shade, inside, starts]

theorem shade_of_digit {c : Char} (digit : c.isDigit = true) : shade c = '0' := by
  have inside : endsLine c = false := endsLine_eq_false_of_solid
    (isBlank_eq_false_of_continuesName (continuesName_of_isDigit digit))
  simp [shade, inside, startsName_eq_false_of_isDigit digit, digit]

theorem toNat_le_of_isAlphanum {c : Char} (alphanum : c.isAlphanum = true) :
    c.val.toNat ≤ 127 := by
  unfold Char.isAlphanum Char.isAlpha Char.isUpper Char.isLower Char.isDigit at alphanum
  simp only [Bool.or_eq_true, Bool.and_eq_true, decide_eq_true_eq, ge_iff_le,
    UInt32.le_iff_toNat_le] at alphanum
  have capital : 'Z'.val.toNat = 90 := rfl
  have small : 'z'.val.toNat = 122 := rfl
  have digit : '9'.val.toNat = 57 := rfl
  omega

theorem utf8Size_of_isAlphanum {c : Char} (alphanum : c.isAlphanum = true) : c.utf8Size = 1 := by
  rw [Char.utf8Size_eq_one_iff, UInt32.le_iff_toNat_le]
  exact toNat_le_of_isAlphanum alphanum

theorem ne_feed_of_isAlphanum {c : Char} (alphanum : c.isAlphanum = true) : c ≠ '\n' := by
  rintro rfl
  exact absurd alphanum (by decide)

namespace Renaming

variable (lettering : Renaming)

theorem isAlphanum {c : Char} (alphanum : c.isAlphanum = true) :
    (lettering.apply c).isAlphanum = true := by
  rw [Char.isAlphanum, Bool.or_eq_true] at alphanum ⊢
  exact alphanum.imp (lettering.letter c) (lettering.digit c)

theorem alike (c : Char) : Alike c (lettering.apply c) := by
  cases alphanum : c.isAlphanum with
  | false =>
      rw [lettering.other c alphanum]
      rfl
  | true =>
      rw [Char.isAlphanum, Bool.or_eq_true] at alphanum
      rcases alphanum with letter | digit
      · exact (shade_of_letter letter).trans (shade_of_letter (lettering.letter c letter)).symm
      · exact (shade_of_digit digit).trans (shade_of_digit (lettering.digit c digit)).symm

def spelling : Respelling :=
  .ofMap lettering.apply lettering.alike

theorem after_apply (place : Place) (c : Char) :
    place.after (lettering.apply c) = place.after c := by
  cases alphanum : c.isAlphanum with
  | false => rw [lettering.other c alphanum]
  | true =>
      have too := lettering.isAlphanum alphanum
      simp [Place.after, utf8Size_of_isAlphanum alphanum, utf8Size_of_isAlphanum too,
        ne_feed_of_isAlphanum alphanum, ne_feed_of_isAlphanum too]

/-- What is renamed stays where it is. -/
theorem afterText_map (place : Place) (text : List Char) :
    place.afterText (text.map lettering.apply) = place.afterText text := by
  induction text generalizing place with
  | nil => rfl
  | cons c rest ih =>
      rw [List.map_cons, Place.afterText_cons, Place.afterText_cons, after_apply, ih]

theorem byteCount_map (text : List Char) :
    byteCount (text.map lettering.apply) = byteCount text := by
  rw [← offset_afterText_start, afterText_map, offset_afterText_start]

theorem over_map (before part : List Char) :
    Span.over (before.map lettering.apply) (part.map lettering.apply) = .over before part := by
  rw [Span.over, Span.over, afterText_map, byteCount_map, byteCount_map]

/-! ### Capital letters -/

theorem isAlpha_toUpper_ascii : ∀ n : Fin 128, (Char.ofNat n).isAlpha = true →
    (Char.ofNat n).toUpper.isAlpha = true := by
  decide

theorem isAlpha_toUpper {c : Char} (letter : c.isAlpha = true) : c.toUpper.isAlpha = true := by
  have alphanum : c.isAlphanum = true := Bool.or_eq_true_iff.2 (.inl letter)
  have few : c.toNat < 128 := Nat.lt_succ_of_le (toNat_le_of_isAlphanum alphanum)
  have capital := isAlpha_toUpper_ascii ⟨c.toNat, few⟩
  rw [Char.ofNat_toNat] at capital
  exact capital letter

theorem toUpper_of_not_letter {c : Char} (other : c.isAlpha = false) : c.toUpper = c := by
  apply dif_neg
  intro small
  have lower : c.isLower = true :=
    Bool.and_eq_true_iff.2 ⟨decide_eq_true small.1, decide_eq_true small.2⟩
  exact absurd lower (Bool.eq_false_iff.1 (Bool.or_eq_false_iff.1 other).2)

/-- All letters written as capitals. -/
def capitals : Renaming where
  apply := Char.toUpper
  letter _ := isAlpha_toUpper
  digit c digit := by
    have other : c.isAlpha = false := startsName_eq_false_of_isDigit digit
    rwa [toUpper_of_not_letter other]
  other _ neither := toUpper_of_not_letter (Bool.or_eq_false_iff.1 neither).1

end Renaming

/-! ## What a renaming changes -/

section Rename

variable (lettering : Renaming)

def Token.rename (token : Token) : Token :=
  { token with value := token.value.map lettering.apply }

/-- An error is what it was: no letter and no digit is unexpected. -/
def Outcome.rename : Outcome → Outcome
  | .token found => .token (found.rename lettering)
  | .phrase text => .phrase (text.map lettering.apply)
  | .error failed => .error failed
  | .endOfInput => .endOfInput

def Subject.rename : Subject → Subject
  | .token found => .token (found.rename lettering)
  | .phrase text => .phrase (text.map lettering.apply)
  | .error message => .error message

def Event.rename (event : Event) : Event :=
  { event with subject := event.subject.rename lettering }

/-- The cursor at the same place of the renamed text. -/
def Cursor.rename (cursor : Cursor) : Cursor :=
  { cursor with
    behind := cursor.behind.map lettering.apply
    ahead := cursor.ahead.map lettering.apply }

def Lexer.rename (lexer : Lexer) : Lexer :=
  { lexer with cursor := lexer.cursor.rename lettering }

def Scan.rename (scan : Scan) : Scan :=
  ⟨scan.outcome.rename lettering, scan.lexer.rename lettering,
    scan.events.map (Event.rename lettering)⟩

end Rename

variable {lettering : Renaming}

theorem Cursor.rename_between (before after : List Char) :
    (between before after).rename lettering =
      between (before.map lettering.apply) (after.map lettering.apply) := by
  rw [between, between, rename, List.map_reverse, Renaming.afterText_map]

theorem ofList_map (text : String) :
    String.ofList (text.toList.map lettering.apply) = text.map lettering.apply := by
  rw [← String.toList_inj, String.toList_ofList, String.toList_map]

/-! ## Scans of the source and of the renamed one -/

/-- Spans do not tell a source from the renamed one. -/
theorem Span.Respelt.eq_of_lettering {near far : Option Span}
    (respelt : Option.Rel (Span.Respelt lettering.spelling) near far) : far = near := by
  have same : far.map id = near.map id :=
    Span.Respelt.map_eq (fun before part => lettering.over_map before part) respelt
  rwa [Option.map_id, id, id] at same

theorem Lexer.Respelt.eq_rename {near far : Lexer}
    (respelt : Lexer.Respelt lettering.spelling near far) : far = near.rename lettering := by
  obtain ⟨before, ahead, -, here, there⟩ := respelt.stands
  have cursor : far.cursor = near.cursor.rename lettering := by
    rw [here, there, Cursor.rename_between]
    rfl
  have latest := Span.Respelt.eq_of_lettering respelt.latest
  have settings := respelt.settings_eq
  have stopped := respelt.stopped_eq
  cases far
  subst cursor latest settings stopped
  rfl

namespace Scan

variable {near far : Scan}

theorem Respelt.outcome_eq_rename (respelt : Scan.Respelt lettering.spelling near far) :
    far.outcome = near.outcome.rename lettering := by
  have found := respelt.finding_eq
  have spans := Span.Respelt.eq_of_lettering respelt.span
  rw [span?, span?] at spans
  cases outcome : near.outcome with
  | token token =>
      rw [outcome] at found
      rw [Outcome.finding_eq_token_iff.1 found, Outcome.rename, Token.rename, ← ofList_map]
      rfl
  | phrase text =>
      rw [outcome] at found
      rw [Outcome.finding_eq_phrase_iff.1 found, Outcome.rename, ← ofList_map]
      rfl
  | error failed =>
      rw [outcome] at found spans
      obtain ⟨span, same⟩ := Outcome.finding_eq_fault_iff.1 found
      rw [same] at spans ⊢
      obtain rfl : span = failed.span := Option.some.inj spans
      rfl
  | endOfInput =>
      rw [outcome] at found
      exact Outcome.finding_eq_nothing_iff.1 found

/-- What is told follows from what is answered and from the span that goes with it, and so it is
renamed with that. -/
theorem Reports.events_eq_rename (told : near.Reports) (toldToo : far.Reports)
    (outcome : far.outcome = near.outcome.rename lettering)
    (latest : far.lexer.latest = near.lexer.latest) :
    far.events = near.events.map (Event.rename lettering) := by
  cases answer : near.outcome with
  | token token =>
      rw [answer] at outcome
      obtain ⟨span, kept, tells⟩ := told.token token answer
      obtain ⟨spanToo, keptToo, tellsToo⟩ := toldToo.token _ outcome
      obtain rfl : spanToo = span := Option.some.inj (keptToo.symm.trans (latest.trans kept))
      rw [tells.events_eq, tellsToo.events_eq]
      rfl
  | phrase text =>
      rw [answer] at outcome
      obtain ⟨span, kept, tells⟩ := told.phrase text answer
      obtain ⟨spanToo, keptToo, tellsToo⟩ := toldToo.phrase _ outcome
      obtain rfl : spanToo = span := Option.some.inj (keptToo.symm.trans (latest.trans kept))
      rw [tells.events_eq, tellsToo.events_eq]
      rfl
  | error failed =>
      rw [answer] at outcome
      rw [(told.error failed answer).events_eq, (toldToo.error failed outcome).events_eq]
      rfl
  | endOfInput =>
      rw [answer] at outcome
      rw [told.endOfInput answer, toldToo.endOfInput outcome, List.map_nil]

end Scan

namespace Lexer

/-- One call on each: the second scan is the first one renamed. -/
theorem Respelt.perform_eq_rename {near far : Lexer}
    (respelt : Lexer.Respelt lettering.spelling near far) (call : Call) :
    far.perform call = (near.perform call).rename lettering := by
  have scans := respelt.perform call
  have outcome := scans.outcome_eq_rename
  have lexer := scans.lexer.eq_rename
  have latest : (far.perform call).lexer.latest = (near.perform call).lexer.latest := by
    rw [lexer]
    rfl
  have events := (near.perform_reports call).events_eq_rename (far.perform_reports call) outcome
    latest
  generalize far.perform call = scan at outcome lexer events
  cases scan
  subst outcome lexer events
  rfl

theorem Respelt.run_eq_rename {near far : Lexer}
    (respelt : Lexer.Respelt lettering.spelling near far) (calls : List Call) :
    far.run calls = (near.run calls).map (Scan.rename lettering) := by
  induction calls generalizing near far with
  | nil => rfl
  | cons call calls ih =>
      rw [Lexer.run, Lexer.run, List.map_cons, ih (respelt.perform call).lexer,
        respelt.perform_eq_rename call]

/-- **Scanning commutes with renaming letters and digits.** Put letters for the letters of a source
and digits for its digits, and there is a lexer for it as well. Whatever calls are made on both, the
scans of the second are those of the first, renamed: each finds the same kind of token with its
value renamed, or the phrase renamed, or the very same error, or the end; and each leaves the lexer
that stands at the same place of the renamed source, byte, line and column, with the same last span.
-/
theorem run_rename {text : List Char} {settings : Settings} {start : Lexer}
    (made : withSettings text settings = .ok start) (lettering : Renaming) (calls : List Call) :
    ∃ other, withSettings (text.map lettering.apply) settings = .ok other ∧
      other.run calls = (start.run calls).map (Scan.rename lettering) := by
  obtain ⟨valid, rfl⟩ := eq_of_withSettings made
  exact ⟨_, withSettings_of_valid _ valid,
    (Respelt.start lettering.spelling valid text).run_eq_rename calls⟩

/-- A comment, a name with a digit, a string with a letter after a backslash, a letter that is not
of ASCII and so starts nothing, and a phrase with a letter after a period. -/
def smallText : List Char :=
  "*é a\nmove1 \"a\\n\" é b.c. ".toList

theorem smallText_rename :
    ((ofText smallText).run [.token, .token, .pull, .phrase]).map (·.outcome) =
        [.token ⟨.name, "move1"⟩, .token ⟨.string, "a\\n"⟩,
          .error ⟨.unexpectedCharacter 'é', ⟨18, 20, 2, 13⟩⟩, .phrase "b.c"] ∧
      ((ofText (smallText.map Char.toUpper)).run [.token, .token, .pull, .phrase]).map (·.outcome) =
        [.token ⟨.name, "MOVE1"⟩, .token ⟨.string, "A\\N"⟩,
          .error ⟨.unexpectedCharacter 'é', ⟨18, 20, 2, 13⟩⟩, .phrase "B.C"] ∧
      (ofText (smallText.map Char.toUpper)).run [.token, .token, .pull, .phrase] =
        ((ofText smallText).run [.token, .token, .pull, .phrase]).map
          (Scan.rename Renaming.capitals) := by
  obtain ⟨other, made, same⟩ := run_rename (withSettings_ofText smallText) Renaming.capitals
    [.token, .token, .pull, .phrase]
  obtain rfl := Except.ok.inj ((withSettings_ofText _).symm.trans made)
  exact ⟨by decide, by decide, same⟩

end Lexer

end CobolSource
