/-
# Proofs.StringEnd — a string ends at the first quote that no backslash stands before

`contentLength?` goes through a string by ones and twos: a backslash takes the quote after it along,
and so that quote is never looked at. Said by looking back instead: a string that starts at index 0
closes at a later quote if the character right before is no backslash (`ClosesStringAt`), and it
ends at the first such quote (`contentLength?_eq_some_iff_closes`). Backslashes before a quote do
not cancel in pairs, for the quote sees the last of them only, and the opening quote itself is no
backslash, so the very next character may close the string.

`scanToken_to_closing_quote` says this of the source. It gives the value, the span and the cursor of
a token scan that meets a quote, wherever calls have led the lexer.
-/
import CobolSource.Proofs.TokenScan

namespace CobolSource

set_option autoImplicit false

/-! ## Where a string closes, by index -/

/-- At index `i`, past the quote that opens the text, stands a quote with no backslash before it. -/
def ClosesStringAt (text : List Char) (i : Nat) : Prop :=
  0 < i ∧ text[i]? = some quote ∧ text[i - 1]? ≠ some escape

instance (text : List Char) (i : Nat) : Decidable (ClosesStringAt text i) :=
  inferInstanceAs (Decidable (_ ∧ _ ∧ _))

theorem not_closesStringAt_zero (text : List Char) : ¬ ClosesStringAt text 0 :=
  fun closes => Nat.lt_irrefl 0 closes.1

theorem closesStringAt_succ_iff {text : List Char} {i : Nat} :
    ClosesStringAt text (i + 1) ↔ text[i + 1]? = some quote ∧ text[i]? ≠ some escape := by
  simp [ClosesStringAt]

theorem closesStringAt_take_iff {text : List Char} {n i : Nat} :
    ClosesStringAt (text.take n) i ↔ i < n ∧ ClosesStringAt text i := by
  by_cases within : i < n
  · have before : i - 1 < n := Nat.lt_of_le_of_lt (Nat.sub_le i 1) within
    rw [ClosesStringAt, List.getElem?_take_of_lt within, List.getElem?_take_of_lt before]
    exact (and_iff_right within).symm
  · have outside : (text.take n)[i]? = none := by rw [List.getElem?_take, if_neg within]
    rw [ClosesStringAt, outside]
    exact ⟨fun closes => absurd closes.2.1 nofun, fun closes => absurd closes.1 within⟩

/-- A text keeps a string open if nothing in it closes the string. -/
theorem isChain_keepsOpen_iff {text : List Char} :
    text.IsChain KeepsOpen ↔ ∀ i, ¬ ClosesStringAt text i := by
  rw [List.isChain_iff_getElem]
  constructor
  · intro follows i closes
    cases i with
    | zero => exact not_closesStringAt_zero text closes
    | succ i =>
        obtain ⟨quoted, plain⟩ := closesStringAt_succ_iff.1 closes
        obtain ⟨within, is⟩ := List.getElem?_eq_some_iff.1 quoted
        apply plain
        rw [List.getElem?_eq_getElem (Nat.lt_of_succ_lt within), follows i within is]
  · intro none i within quoted
    by_contra plain
    refine none (i + 1) (closesStringAt_succ_iff.2 ⟨?_, ?_⟩)
    · rw [List.getElem?_eq_getElem within, quoted]
    · rw [List.getElem?_eq_getElem (Nat.lt_of_succ_lt within)]
      exact fun escaped => plain (Option.some.inj escaped)

theorem last_take_iff {body : List Char} {n : Nat} (within : n < body.length) :
    (body.take n).getLast? = some escape ↔ (quote :: body)[n]? = some escape := by
  cases n with
  | zero => exact ⟨nofun, fun escaped => absurd (Option.some.inj escaped) (by decide)⟩
  | succ n =>
      rw [List.getLast?_take, if_neg n.succ_ne_zero, Nat.add_sub_cancel,
        List.getElem?_eq_getElem (Nat.lt_of_succ_lt within), Option.some_or,
        List.getElem?_cons_succ, List.getElem?_eq_getElem (Nat.lt_of_succ_lt within)]

/-- The part of a text up to one of its quotes is a content if that quote is the first that closes
the string. -/
theorem isContent_take_iff {body : List Char} {n : Nat} (quoted : body[n]? = some quote) :
    IsContent (body.take n) ↔
      ClosesStringAt (quote :: body) (n + 1) ∧
        ∀ j < n + 1, ¬ ClosesStringAt (quote :: body) j := by
  obtain ⟨within, -⟩ := List.getElem?_eq_some_iff.1 quoted
  have open_iff : (quote :: body.take n).IsChain KeepsOpen ↔
      ∀ j < n + 1, ¬ ClosesStringAt (quote :: body) j := by
    rw [← List.take_succ_cons, isChain_keepsOpen_iff]
    simp only [closesStringAt_take_iff, not_and]
  rw [IsContent, open_iff, closesStringAt_succ_iff, List.getElem?_cons_succ, Ne,
    last_take_iff within]
  exact ⟨fun content => ⟨⟨quoted, content.2⟩, content.1⟩, fun first => ⟨first.2, first.1.2⟩⟩

theorem contentLength?_eq_some_iff_closes {body : List Char} {n : Nat} :
    contentLength? body = some n ↔
      ClosesStringAt (quote :: body) (n + 1) ∧
        ∀ j < n + 1, ¬ ClosesStringAt (quote :: body) j := by
  rw [contentLength?_eq_some_iff]
  constructor
  · rintro ⟨content, rest, rfl, isContent, rfl⟩
    apply (isContent_take_iff (by simp)).1
    rwa [List.take_left]
  · intro first
    have quoted := (closesStringAt_succ_iff.1 first.1).1
    rw [List.getElem?_cons_succ] at quoted
    obtain ⟨within, is⟩ := List.getElem?_eq_some_iff.1 quoted
    refine ⟨body.take n, body.drop (n + 1), ?_, (isContent_take_iff quoted).2 first,
      List.length_take_of_le within.le⟩
    rw [← is, ← List.drop_eq_getElem_cons within, List.take_append_drop]

theorem contentLength?_eq_none_iff_closes {body : List Char} :
    contentLength? body = none ↔ ∀ i, ¬ ClosesStringAt (quote :: body) i :=
  contentLength?_eq_none_iff.trans isChain_keepsOpen_iff

/-! ## What stands before the end -/

variable {rest : List Char}

/-- Where a scan meets a quote it does one of two things, as some quote closes the string or none
does. -/
theorem closes_or_unclosed (opens : rest.head? = some quote) :
    (∃ k, ClosesStringAt rest k ∧ ∀ j < k, ¬ ClosesStringAt rest j) ∨
      ∀ i, ¬ ClosesStringAt rest i := by
  obtain ⟨body, rfl⟩ := List.head?_eq_some_iff.1 opens
  cases read : contentLength? body with
  | some n => exact .inl ⟨n + 1, contentLength?_eq_some_iff_closes.1 read⟩
  | none => exact .inr (contentLength?_eq_none_iff_closes.1 read)

/-- The bytes of a string without its quotes are the bytes of its value. -/
theorem slice_inside {passed : List Char} (opens : rest.head? = some quote) {k : Nat}
    (later : 0 < k) :
    slice (passed ++ rest) (byteCount passed + 1) (byteCount (passed ++ rest.take k)) =
      (rest.take k).drop 1 := by
  obtain ⟨body, rfl⟩ := List.head?_eq_some_iff.1 opens
  cases k with
  | zero => exact absurd later (Nat.lt_irrefl 0)
  | succ n =>
      have parts : passed ++ quote :: body = passed ++ [quote] ++ body.take n ++ body.drop n := by
        simp [List.take_append_drop]
      have start : byteCount passed + 1 = byteCount (passed ++ [quote]) := by
        rw [byteCount_append]
        rfl
      have stop : byteCount (passed ++ (quote :: body).take (n + 1)) =
          byteCount (passed ++ [quote]) + byteCount (body.take n) := by
        rw [← byteCount_append, List.append_assoc, List.singleton_append, List.take_succ_cons]
      rw [parts, start, stop, slice_append, List.take_succ_cons, List.drop_one, List.tail_cons]

/-- A quote that closes the string does not come right after a run of backslashes. -/
theorem ClosesStringAt.not_escaped {part after : List Char} {n k : Nat}
    (closes : ClosesStringAt (part ++ (List.replicate (n + 1) escape ++ quote :: after)) k) :
    k ≠ part.length + (n + 1) := by
  rintro rfl
  apply closes.2.2
  rw [← Nat.add_assoc, Nat.add_sub_cancel, List.getElem?_append_right (Nat.le_add_right _ n),
    Nat.add_sub_cancel_left, List.getElem?_append_left (by simp), List.getElem?_replicate,
    if_pos n.lt_succ_self]

/-! ## The scan -/

namespace Lexer

variable {lexer : Lexer} {before gap : List Char}

/-- A string is scanned up to the first quote that closes it. -/
theorem scanToken_of_closing (stands : lexer.unmarked = .between before (gap ++ rest))
    (layout : LayoutBefore lexer.settings.commentIndicator gap rest)
    (opens : rest.head? = some quote) {k : Nat} (closes : ClosesStringAt rest k)
    (first : ∀ j < k, ¬ ClosesStringAt rest j) :
    lexer.scanToken =
      lexer.produce (.between (before ++ gap ++ rest.take (k + 1)) (rest.drop (k + 1)))
        (.over (before ++ gap) (rest.take (k + 1)))
        (.token ⟨.string, String.ofList ((rest.take k).drop 1)⟩)
        (.token ⟨.string, String.ofList ((rest.take k).drop 1)⟩) := by
  obtain ⟨body, rfl⟩ := List.head?_eq_some_iff.1 opens
  cases k with
  | zero => exact absurd closes (not_closesStringAt_zero _)
  | succ n =>
      have cut := List.take_append_drop (n + 1 + 1) (quote :: body)
      have within := (List.getElem?_eq_some_iff.1 closes.2.1).1
      have read : reading (quote :: body) =
          .token ⟨.string, String.ofList (body.take n)⟩ (n + 2) := by
        rw [reading_quote, Reading.string, contentLength?_eq_some_iff_closes.2 ⟨closes, first⟩]
      have passes : lexer.Passes before gap ((quote :: body).take (n + 1 + 1))
          ((quote :: body).drop (n + 1 + 1)) := by
        refine ⟨by rw [cut, stands], by rw [cut]; exact layout, ?_⟩
        rw [cut, read, List.length_take_of_le within]
        rfl
      rw [passes.scanToken, cut, read]
      rfl

/-- A string that nothing closes takes the rest of the source, and the scan fails. -/
theorem scanToken_of_unclosed (stands : lexer.unmarked = .between before (gap ++ rest))
    (layout : LayoutBefore lexer.settings.commentIndicator gap rest)
    (opens : rest.head? = some quote) (none : ∀ i, ¬ ClosesStringAt rest i) :
    lexer.scanToken =
      lexer.fail (.between (before ++ gap ++ rest) [])
        ⟨.unclosedString, .over (before ++ gap) rest⟩ := by
  obtain ⟨body, rfl⟩ := List.head?_eq_some_iff.1 opens
  have read : reading (quote :: body) = .fault .unclosedString (body.length + 1) := by
    rw [reading_quote, Reading.string, contentLength?_eq_none_iff_closes.2 none]
  have passes : lexer.Passes before gap (quote :: body) [] := by
    refine ⟨by rw [List.append_nil, stands], by rw [List.append_nil]; exact layout, ?_⟩
    rw [List.append_nil, read]
    rfl
  rw [passes.scanToken, List.append_nil, read]
  rfl

/-- **A string ends at the first quote that no backslash stands before.** Wherever calls have left
the lexer, pass over the mark if this is the first scan, and then over all the layout there is, and
let a quote come next. If some later quote has no backslash right before it, the scan produces a
string: its value is what the source has between the two quotes, unchanged, its span starts at the
first one and stops right behind the second, for the first such second one there is, and the cursor
stands there. So no string ends with a quote that a run of backslashes stands before, odd or even.
If there is no such quote, and then only, the string is unclosed, its span goes on to the end of the
source, and the cursor stands at the end. -/
theorem scanToken_to_closing_quote {text : List Char} {settings : Settings} {start : Lexer}
    (made : withSettings text settings = .ok start) (calls : List Call) :
    ∃ before mark gap passed rest, passed = before ++ mark ++ gap ∧ text = passed ++ rest ∧
      (start.runFinal calls).cursor = .between before (mark ++ (gap ++ rest)) ∧
      mark = (if calls = [] then settings.skippedMark text else []) ∧
      IsLongestLayout settings.commentIndicator gap (gap ++ rest) ∧
      (rest.head? = some quote →
        (∀ k, ClosesStringAt rest k → (∀ j < k, ¬ ClosesStringAt rest j) →
          (start.runFinal calls).scanToken.outcome =
            .token ⟨.string, String.ofList
              (slice text (byteCount passed + 1) (byteCount (passed ++ rest.take k)))⟩ ∧
          (start.runFinal calls).scanToken.lexer.latest =
            some ((Place.afterText {} passed).spanTo (byteCount (passed ++ rest.take k) + 1)) ∧
          (start.runFinal calls).scanToken.lexer.cursor =
            .between (passed ++ rest.take (k + 1)) (rest.drop (k + 1))) ∧
        (∀ part n after, rest = part ++ (List.replicate (n + 1) escape ++ quote :: after) →
          ∀ token, (start.runFinal calls).scanToken.outcome = .token token →
            (start.runFinal calls).scanToken.lexer.cursor ≠
              .between (passed ++ (part ++ (List.replicate (n + 1) escape ++ [quote]))) after) ∧
        ((∃ span, (start.runFinal calls).scanToken.outcome = .error ⟨.unclosedString, span⟩) ↔
          ∀ k, ¬ ClosesStringAt rest k) ∧
        ((∀ k, ¬ ClosesStringAt rest k) →
          (start.runFinal calls).scanToken.outcome =
            .error ⟨.unclosedString, (Place.afterText {} passed).spanTo (byteCount text)⟩ ∧
          (start.runFinal calls).scanToken.lexer.cursor = .between text [])) := by
  obtain ⟨before, mark, unread, split, stands, marked, unmarked⟩ := unmarked_runFinal made calls
  obtain ⟨gap, rest, rfl, layout⟩ :=
    exists_layoutBefore (start.runFinal calls).settings.commentIndicator unread
  have longest := layout.isLongestLayout (start.runFinal calls).valid.indicator_not_blank
  rw [runFinal_settings, settings_of_withSettings made] at longest
  have whole : text = before ++ mark ++ gap ++ rest := by simp only [split, List.append_assoc]
  refine ⟨before, mark, gap, _, rest, rfl, whole, stands, marked, longest, fun opens => ?_⟩
  rcases closes_or_unclosed opens with ⟨k, closes, first⟩ | none
  · rw [scanToken_of_closing unmarked layout opens closes first]
    have within := (List.getElem?_eq_some_iff.1 closes.2.1).1
    refine ⟨fun i closesToo firstToo => ?_, ?_, ⟨nofun, fun none => absurd closes (none k)⟩,
      fun none => absurd closes (none k)⟩
    · -- There is one first quote that closes the string.
      obtain rfl : i = k := by
        rcases Nat.lt_trichotomy i k with less | same | more
        · exact absurd closesToo (first i less)
        · exact same
        · exact absurd closes (firstToo k more)
      have last : byteCount (rest.take (i + 1)) = byteCount (rest.take i) + 1 := by
        rw [List.take_add_one, closes.2.1, byteCount_append]
        rfl
      rw [whole, slice_inside opens closes.1, byteCount_append _ (rest.take i), Nat.add_assoc,
        ← last]
      exact ⟨rfl, rfl, rfl⟩
    · rintro part n after rfl token - stopped
      apply closes.not_escaped
      have behind := List.reverse_injective (congrArg Cursor.behind stopped)
      have counted := congrArg List.length (List.append_cancel_left behind)
      rw [List.length_take_of_le within] at counted
      simp only [List.length_append, List.length_replicate, List.length_singleton] at counted
      omega
  · rw [scanToken_of_unclosed unmarked layout opens none]
    refine ⟨fun k closes => absurd closes (none k), fun _ _ _ _ _ found => (nomatch found),
      ⟨fun _ => none, fun _ => ⟨_, rfl⟩⟩, fun _ => ⟨?_, ?_⟩⟩
    · rw [whole, byteCount_append]
      rfl
    · rw [whole]
      rfl

/-- A comment with a quote in it, a string over two lines with a comment indicator in it and a quote
after two backslashes and one after a single one, and a string that stays open. -/
def escapedText : List Char :=
  "*\"\n \"é\\\\\"*\n\\\"\\a\" \"\\\"".toList

theorem escapedText_to_closing_quote :
    ((ofText escapedText).run [.token, .token]).map (·.outcome) =
        [.token ⟨.string, "é\\\\\"*\n\\\"\\a"⟩, .error ⟨.unclosedString, ⟨18, 21, 3, 7⟩⟩] ∧
      (∃ passed rest, escapedText = passed ++ rest ∧ rest.head? = some quote ∧
        ClosesStringAt rest 11 ∧ (∀ j < 11, ¬ ClosesStringAt rest j) ∧
        (ofText escapedText).scanToken.outcome = .token ⟨.string, String.ofList
          (slice escapedText (byteCount passed + 1) (byteCount (passed ++ rest.take 11)))⟩ ∧
        (ofText escapedText).scanToken.lexer.cursor =
          .between (passed ++ rest.take 12) (rest.drop 12)) ∧
      ∃ passed rest, escapedText = passed ++ rest ∧ rest.head? = some quote ∧
        (∀ k, ¬ ClosesStringAt rest k) ∧
        (ofText escapedText).scanToken.lexer.scanToken.lexer.cursor =
          .between escapedText [] := by
  have made := withSettings_ofText escapedText
  refine ⟨by decide, ?_, ?_⟩
  · obtain ⟨before, mark, gap, passed, rest, rfl, split, stands, rfl, longest, reads⟩ :=
      scanToken_to_closing_quote made []
    obtain rfl : before = [] := List.reverse_eq_nil_iff.1 (congrArg Cursor.behind stands).symm
    have unread : gap ++ rest = escapedText.take 4 ++ escapedText.drop 4 := split.symm
    have four := longest.length_eq (by decide)
    rw [unread] at four
    obtain ⟨rfl, rfl⟩ := List.append_inj unread four
    obtain ⟨closes, -⟩ := reads rfl
    obtain ⟨found, -, stops⟩ := closes 11 (by decide) (by decide)
    exact ⟨_, _, split, rfl, by decide, by decide, found, stops⟩
  · obtain ⟨before, mark, gap, passed, rest, rfl, split, stands, rfl, longest, reads⟩ :=
      scanToken_to_closing_quote made [.token]
    have unread : gap ++ rest = [' '] ++ ['"', '\\', '"'] := (congrArg Cursor.ahead stands).symm
    have one := longest.length_eq (by decide)
    rw [unread] at one
    obtain ⟨rfl, rfl⟩ := List.append_inj unread one
    obtain ⟨-, -, open_iff, unclosed⟩ := reads rfl
    have none := open_iff.1 ⟨⟨18, 21, 3, 7⟩, by decide⟩
    exact ⟨_, _, split, rfl, none, (unclosed none).2⟩

end Lexer

end CobolSource
