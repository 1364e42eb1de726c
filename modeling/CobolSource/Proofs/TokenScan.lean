/-
# Proofs.TokenScan — what one token scan does

A token scan passes a mark, passes layout, and reads. `TokenScan` lists what it can come to, each
with the exact cursor, span and events, in terms of the text alone: what lay before, and what is
left after the layout. `scanToken_spec` says that it comes to one of these. `Passes` names the parts
of a scan without telling these apart, for proofs that have two scans side by side.

`scanToken_maximal_munch` says what that means for a source: after any calls, the next token is the
longest lexeme that stands after the longest layout.
-/
import CobolSource.Proofs.LexemeLanguage
import CobolSource.Proofs.Look
import CobolSource.Proofs.Slices

namespace CobolSource

set_option autoImplicit false

theorem Settings.Valid.indicator_not_blank {settings : Settings} (valid : settings.Valid) :
    isBlank settings.commentIndicator = false := by
  have free := valid.1
  simp only [isReserved, Bool.or_eq_false_iff] at free
  exact free.1.1.1.1

/-- The span of `part`, in a text that has `before` before it. -/
def Span.over (before part : List Char) : Span :=
  (Place.afterText {} before).spanTo (byteCount before + byteCount part)

@[simp] theorem Span.start_over (before part : List Char) :
    (Span.over before part).start = byteCount before :=
  offset_afterText_start before

@[simp] theorem Span.stop_over (before part : List Char) :
    (Span.over before part).stop = byteCount before + byteCount part := rfl

namespace Lexer

/-- What a token scan comes to when `before` is read or passed over and `rest` is left. -/
inductive TokenScan (lexer : Lexer) (before : List Char) : List Char → Scan → Prop
  | ended : TokenScan lexer before [] (lexer.finish (.between before []))
  | token {token : Token} {after : List Char} :
      IsLongestToken token (token.written.toList ++ after) →
      TokenScan lexer before (token.written.toList ++ after)
        (lexer.produce (.between (before ++ token.written.toList) after)
          (.over before token.written.toList) (.token token) (.token token))
  | unexpected {c : Char} {after : List Char} : c ≠ quote →
      (∀ kind lexeme, IsLexeme kind lexeme → ¬ lexeme <+: c :: after) →
      TokenScan lexer before (c :: after)
        (lexer.fail (.between (before ++ [c]) after) ⟨.unexpectedCharacter c, .over before [c]⟩)
  | unclosed {body : List Char} :
      (∀ kind lexeme, IsLexeme kind lexeme → ¬ lexeme <+: quote :: body) →
      TokenScan lexer before (quote :: body)
        (lexer.fail (.between (before ++ quote :: body) [])
          ⟨.unclosedString, .over before (quote :: body)⟩)

namespace TokenScan

variable {lexer : Lexer} {before rest : List Char} {scan : Scan} {token : Token}

theorem of_token (scanned : TokenScan lexer before rest scan)
    (found : scan.outcome = .token token) :
    IsLongestToken token rest ∧ ∃ after, rest = token.written.toList ++ after ∧
      scan.lexer.cursor = .between (before ++ token.written.toList) after := by
  cases scanned with
  | token longest =>
      cases found
      exact ⟨longest, _, rfl, rfl⟩
  | ended | unexpected | unclosed => cases found

theorem of_nil (scanned : TokenScan lexer before rest scan) (empty : rest = []) :
    scan.outcome = .endOfInput := by
  cases scanned with
  | ended => rfl
  | token longest =>
      exact absurd (List.append_eq_nil_iff.1 empty).1 longest.wellFormed.isLexeme.ne_nil
  | unexpected | unclosed => cases empty

theorem finds (scanned : TokenScan lexer before rest scan) (longest : IsLongestToken token rest) :
    scan.outcome = .token token := by
  have isLexeme := longest.wellFormed.isLexeme
  cases scanned with
  | ended => exact absurd (List.prefix_nil.1 longest.isPrefix) isLexeme.ne_nil
  | token other =>
      rw [longest.unique other]
      rfl
  | unexpected _ none => exact absurd longest.isPrefix (none _ _ isLexeme)
  | unclosed none => exact absurd longest.isPrefix (none _ _ isLexeme)

end TokenScan

theorem spanTo_advanceBy (before part rest : List Char) :
    (Cursor.between before (part ++ rest)).place.spanTo
        ((Cursor.between before (part ++ rest)).advanceBy part.length).place.offset =
      .over before part := by
  rw [Cursor.advanceBy_length_between, Cursor.place_between, Cursor.place_between,
    offset_afterText_start, byteCount_append]
  rfl

theorem scanToken_spec {lexer : Lexer} {before unread : List Char}
    (stands : lexer.unmarked = .between before unread) :
    ∃ gap rest, unread = gap ++ rest ∧ LayoutBefore lexer.settings.commentIndicator gap rest ∧
      TokenScan lexer (before ++ gap) rest lexer.scanToken := by
  have solid := lexer.valid.indicator_not_blank
  obtain ⟨gap, rest, rfl, layout⟩ := exists_layoutBefore lexer.settings.commentIndicator unread
  have start : lexer.tokenStart = .between (before ++ gap) rest := by
    rw [tokenStart, stands, Cursor.ahead_between, layoutLength_layoutBefore solid layout,
      Cursor.advanceBy_length_between]
  refine ⟨gap, rest, rfl, layout, ?_⟩
  have ahead : lexer.tokenStart.ahead = rest := by rw [start, Cursor.ahead_between]
  have reads := reads_reading rest
  cases read : reading rest with
  | nothing =>
      rw [reading_nothing_iff] at read
      subst read
      rw [scanToken_of_end ahead, start]
      exact .ended
  | token token width =>
      rw [read] at reads
      obtain ⟨longest, rfl⟩ := reads
      obtain ⟨after, rfl⟩ := longest.isPrefix
      rw [scanToken_of_token (ahead ▸ read), start, spanTo_advanceBy,
        Cursor.advanceBy_length_between]
      exact .token longest
  | fault fault width =>
      rw [read] at reads
      rw [scanToken_of_fault (ahead ▸ read), start]
      cases fault with
      | unclosedString =>
          obtain ⟨opens, rfl, none⟩ := reads
          obtain ⟨body, rfl⟩ := List.head?_eq_some_iff.1 opens
          have whole := spanTo_advanceBy (before ++ gap) (quote :: body) []
          have stop := Cursor.advanceBy_length_between (before ++ gap) (quote :: body) []
          rw [List.append_nil] at whole stop
          rw [whole, stop]
          exact .unclosed none
      | unexpectedCharacter c =>
          obtain ⟨opens, other, rfl, none⟩ := reads
          obtain ⟨after, rfl⟩ := List.head?_eq_some_iff.1 opens
          have single := spanTo_advanceBy (before ++ gap) [c] after
          have stop := Cursor.advanceBy_length_between (before ++ gap) [c] after
          rw [List.singleton_append, List.length_singleton] at single stop
          rw [single, stop]
          exact .unexpected other none

/-- A token scan that starts after `before` passes the layout `gap` and reads `part`. -/
structure Passes (lexer : Lexer) (before gap part after : List Char) : Prop where
  stands : lexer.unmarked = .between before (gap ++ (part ++ after))
  layout : LayoutBefore lexer.settings.commentIndicator gap (part ++ after)
  width : (reading (part ++ after)).width = part.length

theorem exists_passes {lexer : Lexer} {before unread : List Char}
    (stands : lexer.unmarked = .between before unread) :
    ∃ gap part after, unread = gap ++ (part ++ after) ∧ lexer.Passes before gap part after := by
  obtain ⟨gap, rest, rfl, layout⟩ := exists_layoutBefore lexer.settings.commentIndicator unread
  have cut := List.take_append_drop (reading rest).width rest
  refine ⟨gap, rest.take (reading rest).width, rest.drop (reading rest).width, by rw [cut], ?_⟩
  refine ⟨by rw [cut]; exact stands, by rw [cut]; exact layout, ?_⟩
  rw [cut, List.length_take_of_le (reading_width_le rest)]

namespace Passes

variable {lexer : Lexer} {before gap part after : List Char}

theorem scanToken (passes : lexer.Passes before gap part after) :
    lexer.scanToken =
      lexer.conclude (.between (before ++ gap ++ part) after) (.over (before ++ gap) part)
        (reading (part ++ after)).finding := by
  have start := Cursor.advanceBy_length_between before gap (part ++ after)
  have stop := Cursor.advanceBy_length_between (before ++ gap) part after
  have span := spanTo_advanceBy (before ++ gap) part after
  rw [scanToken_eq_deliver, passes.stands, Cursor.ahead_between,
    lookToken_layoutBefore lexer.valid.indicator_not_blank passes.layout, deliver_eq_conclude,
    Reading.skipped_look, Reading.passed_look, Reading.covered_look, Reading.finding_look,
    passes.width, start, span, stop]

theorem finding (passes : lexer.Passes before gap part after) :
    lexer.scanToken.outcome.finding = (reading (part ++ after)).finding := by
  rw [passes.scanToken, conclude_finding]

theorem cursor (passes : lexer.Passes before gap part after) :
    lexer.scanToken.lexer.cursor = .between (before ++ gap ++ part) after := by
  rw [passes.scanToken, conclude_cursor]

theorem span? (passes : lexer.Passes before gap part after)
    (finds : (reading (part ++ after)).finding ≠ .nothing) :
    lexer.scanToken.span? = some (.over (before ++ gap) part) := by
  rw [passes.scanToken, conclude_span? _ _ _ finds]

/-- Nothing is read only where nothing is left. -/
theorem part_eq_nil_iff (passes : lexer.Passes before gap part after) :
    part = [] ↔ (reading (part ++ after)).finding = .nothing := by
  rw [Reading.finding_eq_nothing_iff, reading_nothing_iff]
  constructor
  · rintro rfl
    by_contra more
    have some := reading_width_pos more
    rw [passes.width] at some
    exact Nat.lt_irrefl _ some
  · exact fun empty => (List.append_eq_nil_iff.1 empty).1

theorem yields_iff (passes : lexer.Passes before gap part after) :
    (lexer.perform .token).outcome ≠ .endOfInput ↔ part ≠ [] := by
  rw [perform, Ne, ← Outcome.finding_eq_nothing_iff, passes.finding, ← passes.part_eq_nil_iff]

theorem after_eq_nil (passes : lexer.Passes before gap [] after) : after = [] :=
  reading_nothing_iff.1 (Reading.finding_eq_nothing_iff.1 (passes.part_eq_nil_iff.1 rfl))

end Passes

theorem length_after_lt (gap : List Char) {part : List Char} (more : part ≠ [])
    (after : List Char) : after.length < (gap ++ (part ++ after)).length := by
  have some := List.length_pos_iff.2 more
  rw [List.length_append, List.length_append]
  omega

/-- The same for a lexer that calls have moved, from the source it was made for. -/
theorem scanToken_runFinal {text : List Char} {settings : Settings} {start : Lexer}
    (made : withSettings text settings = .ok start) (calls : List Call) :
    ∃ before mark gap rest, text = before ++ (mark ++ (gap ++ rest)) ∧
      (start.runFinal calls).cursor = .between before (mark ++ (gap ++ rest)) ∧
      mark = (if calls = [] then settings.skippedMark text else []) ∧
      LayoutBefore settings.commentIndicator gap rest ∧
      TokenScan (start.runFinal calls) (before ++ mark ++ gap) rest
        (start.runFinal calls).scanToken := by
  obtain ⟨before, mark, unread, split, stands, marked, unmarked⟩ := unmarked_runFinal made calls
  obtain ⟨gap, rest, rfl, layout, scanned⟩ := scanToken_spec unmarked
  rw [runFinal_settings, settings_of_withSettings made] at layout
  exact ⟨before, mark, gap, rest, split, stands, marked, layout, scanned⟩

/-- **A token scan is exact maximal munch.** Wherever calls have left the lexer, pass over the mark
if this is the first scan, then over all the layout there is. If nothing is left the scan finds the
end. If what is left starts with a lexeme, the scan produces the longest one, as a token of the only
kind it is a lexeme of, and the cursor stands right after it. If it starts with none, it is an open
string or one unexpected character, and the cursor stands right after that. -/
theorem scanToken_maximal_munch {text : List Char} {settings : Settings} {start : Lexer}
    (made : withSettings text settings = .ok start) (calls : List Call) :
    ∃ before mark gap rest, text = before ++ (mark ++ (gap ++ rest)) ∧
      (start.runFinal calls).cursor = .between before (mark ++ (gap ++ rest)) ∧
      mark = (if calls = [] then settings.skippedMark text else []) ∧
      IsLongestLayout settings.commentIndicator gap (gap ++ rest) ∧
      (rest = [] → (start.runFinal calls).scanToken.outcome = .endOfInput) ∧
      ((∃ kind lexeme, IsLexeme kind lexeme ∧ lexeme <+: rest) →
        ∃ kind value after, kind.Admits value ∧ rest = kind.lexeme value ++ after ∧
          (∀ other lexeme, IsLexeme other lexeme → lexeme <+: rest →
            lexeme.length ≤ (kind.lexeme value).length) ∧
          (∀ other, IsLexeme other (kind.lexeme value) → other = kind) ∧
          (start.runFinal calls).scanToken.outcome = .token ⟨kind, String.ofList value⟩ ∧
          (start.runFinal calls).scanToken.lexer.cursor =
            .between (before ++ mark ++ gap ++ kind.lexeme value) after) ∧
      ((∀ kind lexeme, IsLexeme kind lexeme → ¬ lexeme <+: rest) →
        ∀ c after, rest = c :: after →
          (c = quote →
            (∃ span, (start.runFinal calls).scanToken.outcome = .error ⟨.unclosedString, span⟩) ∧
            (start.runFinal calls).scanToken.lexer.cursor = .between text []) ∧
          (c ≠ quote →
            (∃ span, (start.runFinal calls).scanToken.outcome =
              .error ⟨.unexpectedCharacter c, span⟩) ∧
            (start.runFinal calls).scanToken.lexer.cursor =
              .between (before ++ mark ++ gap ++ [c]) after)) := by
  obtain ⟨before, mark, gap, rest, split, stands, marked, layout, scanned⟩ :=
    scanToken_runFinal made calls
  have solid : isBlank settings.commentIndicator = false := by
    rw [← settings_of_withSettings made]
    exact start.valid.indicator_not_blank
  refine ⟨before, mark, gap, rest, split, stands, marked, layout.isLongestLayout solid, ?_⟩
  generalize (start.runFinal calls).scanToken = scan at scanned
  cases scanned with
  | ended =>
      refine ⟨fun _ => rfl, ?_, ?_⟩
      · rintro ⟨kind, lexeme, isLexeme, starts⟩
        exact absurd (List.prefix_nil.1 starts) isLexeme.ne_nil
      · rintro - c after ⟨⟩
  | token longest =>
      rename_i token after
      have admitted := longest.wellFormed
      have isLexeme := admitted.isLexeme
      refine ⟨?_, fun _ => ?_, fun none => absurd longest.isPrefix (none _ _ isLexeme)⟩
      · intro empty
        exact absurd (List.append_eq_nil_iff.1 empty).1 isLexeme.ne_nil
      · refine ⟨token.kind, token.value.toList, after, admitted, ?_, ?_, ?_, ?_, ?_⟩
        · rw [toList_written]
        · rw [← toList_written]
          exact longest.longest
        · rw [← toList_written]
          intro other otherLexeme
          exact otherLexeme.kind_unique isLexeme
        · rw [String.ofList_toList]
          rfl
        · rw [← toList_written]
          rfl
  | unexpected other none =>
      refine ⟨by rintro ⟨⟩, ?_, ?_⟩
      · rintro ⟨kind, lexeme, isLexeme, starts⟩
        exact absurd starts (none _ _ isLexeme)
      · rintro - c after ⟨⟩
        exact ⟨fun same => absurd same other, fun _ => ⟨⟨_, rfl⟩, rfl⟩⟩
  | unclosed none =>
      refine ⟨by rintro ⟨⟩, ?_, ?_⟩
      · rintro ⟨kind, lexeme, isLexeme, starts⟩
        exact absurd starts (none _ _ isLexeme)
      · rintro - c after ⟨⟩
        refine ⟨fun _ => ⟨⟨_, rfl⟩, ?_⟩, fun other => absurd rfl other⟩
        rw [split, ← List.append_assoc, ← List.append_assoc]
        rfl

/-- A mark, a comment with a quote in it, and a string with quotes in it, and one after it. -/
def quotedText : List Char :=
  "\uFEFF*\" é\n \"a\\\"*\\b\"\"".toList

theorem quotedText_scanToken :
    ∃ gap rest, quotedText = byteOrderMark :: (gap ++ rest) ∧
      IsLongestLayout '*' gap (gap ++ rest) ∧
      (ofText quotedText).scanToken.outcome = .token ⟨.string, "a\\\"*\\b"⟩ := by
  obtain ⟨before, mark, gap, rest, split, stands, marked, layout, -⟩ :=
    scanToken_maximal_munch (withSettings_of_valid quotedText Settings.valid_default) []
  obtain rfl : before = [] := List.reverse_eq_nil_iff.1 (congrArg Cursor.behind stands).symm
  obtain rfl : mark = [byteOrderMark] := marked
  exact ⟨gap, rest, split, layout, by decide⟩

end Lexer

end CobolSource
