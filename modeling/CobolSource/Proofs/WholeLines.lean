/-
# Proofs.WholeLines — sources can be read a few whole lines at a time

Where a source ends with the end of a line it can be cut from what comes after it: all the tokens of
the two together are those of the first and then those of the second, read as a source of its own
that has no mark to skip; or else they fail as the second fails, at the place moved by what the
first takes (`allTokens_append`).

Two things could go wrong at the cut, and the line end there keeps both away. No token reaches over
it, because none ends with a line end (`continues_followedBy`). And a comment that the first text
leaves off with is ended, so that what is left of the first text when all its tokens are read is
layout to the second (`FinalLayout.layout_of_endsLine`), which may as well be passed over already
(`allTokens_standing`). It does not matter whether the cut parts a CR from its LF.
-/
import CobolSource.Proofs.Extension
import CobolSource.Proofs.RespelledRun
import CobolSource.Proofs.Suffix

namespace CobolSource

set_option autoImplicit false

/-! ## Ends of lines -/

/-- The text ends where a line of it does. -/
def EndsLine (text : List Char) : Prop :=
  ∃ c ∈ text.getLast?, endsLine c = true

instance (text : List Char) : Decidable (EndsLine text) :=
  decidable_of_iff (text.getLast?.any endsLine = true) (Option.any_eq_true _ _)

namespace EndsLine

variable {before after : List Char}

theorem ne_nil (lines : EndsLine before) : before ≠ [] := by
  rintro rfl
  obtain ⟨c, last, -⟩ := lines
  cases last

/-- A text that ends where a line does is not all taken up by a part that does not. -/
theorem of_append (lines : EndsLine (before ++ after))
    (inside : ∀ c ∈ before.getLast?, endsLine c = false) : EndsLine after := by
  obtain ⟨c, last, ends⟩ := lines
  cases after with
  | nil =>
      rw [List.append_nil] at last
      rw [inside c last] at ends
      cases ends
  | cons d after =>
      rw [List.getLast?_append_of_ne_nil before (List.cons_ne_nil d after)] at last
      exact ⟨c, last, ends⟩

end EndsLine

/-- A comment that is cut off does not end a line, so layout that does is complete. -/
theorem FinalLayout.layout_of_endsLine {indicator : Char} (solid : isBlank indicator = false)
    {gap : List Char} (final : FinalLayout indicator gap) (lines : EndsLine gap) :
    Layout indicator gap := by
  cases final with
  | complete layout => exact layout
  | @cutOff gap body _ inside =>
      obtain ⟨c, last, ends⟩ := lines
      rw [List.getLast?_append_of_ne_nil gap (List.cons_ne_nil indicator body)] at last
      have goesOn : endsLine c = false := by
        rcases List.mem_cons.1 (List.mem_of_getLast? last) with rfl | among
        · exact endsLine_eq_false_of_solid solid
        · exact inside c among
      rw [goesOn] at ends
      cases ends

/-! ## The tokens of a text that goes on -/

/-- The second result goes on from `tokens` with what is gathered in the first, or fails as the
first does, in a text that begins at `base`. -/
inductive Continues (base : Place) (tokens : List Token) :
    Except ScanError (List Token) → Except ScanError (List Token) → Prop
  | tokens (more : List Token) : Continues base tokens (.ok more) (.ok (tokens ++ more))
  | error {near far : ScanError} : far.fault = near.fault →
      Span.Moved base near.span far.span → Continues base tokens (.error near) (.error far)

namespace Continues

variable {base : Place} {tokens : List Token} {near far : Except ScanError (List Token)}

/-- With a token before all the others. -/
theorem cons (continues : Continues base tokens near far) (token : Token) :
    Continues base (token :: tokens) near (far.map (token :: ·)) := by
  cases continues with
  | tokens more => exact .tokens more
  | error fault span => exact .error fault span

/-- With a token more in both. -/
theorem map_cons (continues : Continues base [] near far) (token : Token) :
    Continues base [] (near.map (token :: ·)) (far.map (token :: ·)) := by
  cases continues with
  | tokens more => exact .tokens (token :: more)
  | error fault span => exact .error fault span

end Continues

namespace Lexer

theorem allTokens_congr {first second : Lexer} (going : first.stopped = false)
    (goingToo : second.stopped = false) (same : first.scanToken = second.scanToken) :
    first.allTokens = second.allTokens := by
  have pulls : first.perform .pull = second.perform .pull := by
    rw [perform, perform, pull_eq_withStopped going, pull_eq_withStopped goingToo, same]
  rw [allTokens, allTokens, untilEnd_eq, untilEnd_eq second, pulls]

/-- Layout that comes first may as well be passed over already. -/
theorem allTokens_standing {lexer : Lexer} {before gap rest : List Char}
    (going : lexer.stopped = false) (stands : lexer.unmarked = .between before (gap ++ rest))
    (layout : Layout lexer.settings.commentIndicator gap)
    (past : (lexer.standing (.between (before ++ gap) rest)).unmarked =
      .between (before ++ gap) rest) :
    lexer.allTokens = (lexer.standing (.between (before ++ gap) rest)).allTokens := by
  refine allTokens_congr going going ?_
  obtain ⟨space, part, after, rfl, passes⟩ := exists_passes past
  have wider : lexer.Passes before (gap ++ space) part after := by
    refine ⟨?_, passes.layout.append_left layout, passes.width⟩
    rw [stands, List.append_assoc]
  rw [wider.scanToken, passes.scanToken, conclude_standing, ← List.append_assoc before]

/-- Two lexers that read the same text gather the same from it. -/
theorem continues_of_reads {base rest : List Char} {near far : Lexer}
    (reads : Reads base rest near far) (short : (base ++ rest).length < UInt32.size - 1)
    (going : near.stopped = false) (goingToo : far.stopped = false) :
    Continues (.afterText {} base) [] near.allTokens far.allTokens := by
  obtain ⟨moved, readsOn⟩ := perform_reads reads short (by decide : Call.token ≠ .pull)
  rw [perform, perform] at moved readsOn
  have found := moved.finding_eq
  rcases near.scanToken_outcome with ended | ⟨token, read⟩ | ⟨error, failed⟩
  · rw [ended] at found
    rw [allTokens_of_end going ended,
      allTokens_of_end goingToo (Outcome.finding_eq_nothing_iff.1 found)]
    exact .tokens []
  · have progress := scanToken_progress (by simp [read] : near.scanToken.outcome ≠ .endOfInput)
    rw [read] at found
    rw [allTokens_of_token going read,
      allTokens_of_token goingToo (Outcome.finding_eq_token_iff.1 found)]
    exact (continues_of_reads readsOn short (near.scanToken_stopped.trans going)
      (far.scanToken_stopped.trans goingToo)).map_cons token
  · rw [failed] at found
    obtain ⟨span, failedToo⟩ := Outcome.finding_eq_fault_iff.1 found
    have spans := moved.span
    rw [Scan.span?, Scan.span?, failed, failedToo] at spans
    rw [allTokens_of_error going failed, allTokens_of_error goingToo failedToo]
    cases spans with
    | some span => exact .error rfl span
termination_by near.cursor.ahead.length

/-- What a lexer gathers behind some layout, a new lexer gathers from what comes there. -/
theorem continues_of_layout {lexer fresh : Lexer} {settings : Settings}
    {before gap more : List Char} (going : lexer.stopped = false)
    (stands : lexer.unmarked = .between before (gap ++ more))
    (layout : Layout lexer.settings.commentIndicator gap) (nonempty : gap ≠ [])
    (made : withSettings more { settings with skipMark := false } = .ok fresh)
    (indicator : lexer.settings.commentIndicator = settings.commentIndicator)
    (short : (before ++ gap ++ more).length < UInt32.size - 1) :
    Continues (.afterText {} (before ++ gap)) [] fresh.allTokens lexer.allTokens := by
  obtain ⟨valid, rfl⟩ := eq_of_withSettings made
  have past : (lexer.standing (.between (before ++ gap) more)).unmarked =
      .between (before ++ gap) more := unmarked_of_passed nonempty rfl
  rw [allTokens_standing going stands layout past]
  refine continues_of_reads (?_ : Reads (before ++ gap) more _ _) short rfl going
  refine ⟨indicator, ⟨[], more, rfl, rfl, ?_⟩, rfl, past⟩
  rw [List.append_nil]
  rfl

/-- With more text behind whole lines, their tokens come first, and then comes what a new lexer
gathers from the rest. -/
theorem continues_followedBy {lexer fresh : Lexer} {settings : Settings}
    {before unread more : List Char} {tokens : List Token} (going : lexer.stopped = false)
    (stands : lexer.unmarked = .between before unread) (lines : EndsLine unread)
    (read : lexer.allTokens = .ok tokens)
    (made : withSettings more { settings with skipMark := false } = .ok fresh)
    (indicator : lexer.settings.commentIndicator = settings.commentIndicator)
    (short : (before ++ unread ++ more).length < UInt32.size - 1) :
    Continues (.afterText {} (before ++ unread)) tokens fresh.allTokens
      (lexer.followedBy more).allTokens := by
  have goingToo : (lexer.followedBy more).stopped = false := going
  have some : lexer.cursor.ahead ≠ [] := by
    intro empty
    have left := length_unmarked lexer
    rw [stands, empty] at left
    exact lines.ne_nil (List.length_eq_zero_iff.1 (Nat.le_zero.1 left))
  obtain ⟨gap, rest, rfl, layout, scanned⟩ := scanToken_spec stands
  generalize scan : lexer.scanToken = scans at scanned
  cases scanned with
  | ended =>
      -- Nothing is left but layout, and all of it ends with a line.
      have ended : lexer.scanToken.outcome = .endOfInput := by rw [scan]; rfl
      obtain rfl : [] = tokens := Except.ok.inj ((allTokens_of_end going ended).symm.trans read)
      rw [List.append_nil] at stands lines short ⊢
      have complete := layout.final.layout_of_endsLine lexer.valid.indicator_not_blank lines
      have whole : (lexer.followedBy more).unmarked = .between before (gap ++ more) := by
        rw [unmarked_followedBy some, stands]
        rfl
      exact continues_of_layout goingToo whole complete lines.ne_nil made indicator short
  | @token token after longest =>
      have formed := longest.wellFormed
      have nonempty := formed.isLexeme.ne_nil
      have found : lexer.scanToken.outcome = .token token := by rw [scan]; rfl
      have moved : lexer.scanToken.lexer.cursor =
          .between (before ++ gap ++ token.written.toList) after := by rw [scan]; rfl
      have source : before ++ (gap ++ (token.written.toList ++ after)) =
          before ++ gap ++ token.written.toList ++ after := by simp only [List.append_assoc]
      -- The token does not end with a line, so it is not all that is left.
      have linesToo : EndsLine after := by
        rw [← List.append_assoc] at lines
        apply lines.of_append
        rw [List.getLast?_append_of_ne_nil gap nonempty]
        exact formed.last_written
      have within : lexer.scanToken.lexer.cursor.ahead ≠ [] := by
        rw [moved]
        exact linesToo.ne_nil
      have step : (lexer.followedBy more).scanToken = lexer.scanToken.followedBy more :=
        @perform_followedBy lexer .token within more
      have foundToo : (lexer.followedBy more).scanToken.outcome = .token token := by
        rw [step]
        exact found
      rw [allTokens_of_token going found] at read
      rw [allTokens_of_token goingToo foundToo, step]
      have shorter := length_after_lt gap nonempty after
      cases later : lexer.scanToken.lexer.allTokens with
      | error error =>
          rw [later] at read
          cases read
      | ok others =>
          rw [later] at read
          obtain rfl := Except.ok.inj read
          rw [source] at short ⊢
          refine Continues.cons (continues_followedBy (lexer.scanToken_stopped.trans going)
            (unmarked_of_passed nonempty moved) linesToo later made ?_ short) token
          rw [scanToken_settings, indicator]
  | unexpected | unclosed =>
      rw [allTokens_of_error going (by rw [scan]; rfl)] at read
      cases read
termination_by unread.length

/-- **Sources can be read a few whole lines at a time.** Where a source ends with the end of a line
and all its tokens can be read, any text may be put behind it: then its tokens come first, and after
them come those of the text behind it, read by itself with no mark to skip; or if these fail, so
does the whole, with the same fault, at a span moved by the bytes of the first source, by its lines,
and on the first line of the text behind it by the columns of its last line. -/
theorem allTokens_append {first second : List Char} {settings : Settings} {start : Lexer}
    {tokens : List Token} (made : withSettings first settings = .ok start)
    (read : start.allTokens = .ok tokens) (lines : EndsLine first)
    (short : (first ++ second).length < UInt32.size - 1) :
    ∃ whole fresh base, withSettings (first ++ second) settings = .ok whole ∧
      withSettings second { settings with skipMark := false } = .ok fresh ∧
      Place.Counts base first ∧ Continues base tokens fresh.allTokens whole.allTokens := by
  obtain ⟨fresh, madeFresh, -⟩ := exists_withoutMark made second
  obtain ⟨unread, split, unmarked⟩ := unmarked_of_start (cursor_of_withSettings made)
  have kept := settings_of_withSettings made
  have linesToo : EndsLine unread := by
    rw [split] at lines
    exact lines.of_append fun c last =>
      (start.settings.sole_of_skippedMark first c (List.mem_of_getLast? last)).1
  refine ⟨start.followedBy second, fresh, .afterText {} first, ?_, madeFresh, ?_, ?_⟩
  · obtain ⟨valid, rfl⟩ := eq_of_withSettings made
    exact withSettings_of_valid (first ++ second) valid
  · apply Place.counts_of_short
    rw [List.length_append] at short
    omega
  · rw [split] at short ⊢
    exact continues_followedBy (going_of_withSettings made) unmarked linesToo read madeFresh
      (by rw [kept]) short

/-- A mark, a name, and a comment that ends with CR. -/
def seamText : List Char :=
  "\uFEFFA *é\r".toList

/-- The second half of a line end may come behind the first, or a fault in the same line. -/
theorem seamText_append :
    (ofText seamText).allTokens = .ok [⟨.name, "A"⟩] ∧
      (ofText (seamText ++ "\n<".toList)).allTokens = .ok [⟨.name, "A"⟩, ⟨.operator, "<"⟩] ∧
      ∃ whole fresh base, withSettings (seamText ++ "B §".toList) {} = .ok whole ∧
        withSettings "B §".toList { skipMark := false } = .ok fresh ∧
        Place.Counts base seamText ∧
        Continues base [⟨.name, "A"⟩] fresh.allTokens whole.allTokens ∧
        fresh.allTokens = .error ⟨.unexpectedCharacter '§', ⟨2, 4, 1, 3⟩⟩ ∧
        whole.allTokens = .error ⟨.unexpectedCharacter '§', ⟨11, 13, 1, 9⟩⟩ := by
  have read : (ofText seamText).allTokens = .ok [⟨.name, "A"⟩] := by decide
  obtain ⟨whole, fresh, base, madeWhole, madeFresh, counts, continues⟩ :=
    allTokens_append (withSettings_ofText seamText) read (by decide)
      (by decide : (seamText ++ "B §".toList).length < UInt32.size - 1)
  refine ⟨read, by decide, whole, fresh, base, madeWhole, madeFresh, counts, continues, ?_⟩
  obtain rfl := Except.ok.inj ((withSettings_of_valid _ (by decide)).symm.trans madeWhole)
  obtain rfl := Except.ok.inj ((withSettings_of_valid _ (by decide)).symm.trans madeFresh)
  exact ⟨by decide, by decide⟩

end Lexer

end CobolSource
