/-
# Proofs.LayoutScan — skipping layout is a scan in two states

Layout is skipped in rounds: blanks, then a comment, then the end of its line, which is CR, LF or
the two together. `LayoutState.step?` says the same one character at a time, with no more to
remember than whether the character is inside a comment, and with no case for CR LF. A scan in these
two states goes on until neither has a step (`LayoutState.run`).

Each step keeps the place at which skipping would arrive (`LayoutState.skip_of_step?`), and where
there is no step it has arrived (`LayoutState.skip_of_stop`); so that place is where the scan stops
(`LayoutState.run_eq_skip`). The end of a line counts alike as the end of a comment and as blanks
(`Cursor.skipLayout_skipLineEnd`), and so a loop that leaves it to the blanks passes over as much
(`ByteCursor.gives_stepOverLines`).
-/
import CobolSource.Proofs.Progress
import CobolSource.Proofs.SoundCuts

namespace CobolSource

set_option autoImplicit false

/-! ## Skipping, from anywhere -/

namespace Cursor

/-- Past the layout right ahead. -/
def skipLayout (cursor : Cursor) (indicator : Char) : Cursor :=
  cursor.advanceBy (layoutLength indicator cursor.ahead)

/-- Past CR, LF or CR LF, if that is right ahead. -/
def skipLineEnd (cursor : Cursor) : Cursor :=
  cursor.advanceBy (lineEndLength cursor.ahead)

/-- Up to the end of the line. -/
def skipLine (cursor : Cursor) : Cursor :=
  cursor.advanceWhile fun c => !endsLine c

end Cursor

/-- The end of a line at the head of a text adds nothing to the layout there. -/
theorem lineEndLength_add_layoutLength (indicator : Char) (text : List Char) :
    lineEndLength text + layoutLength indicator (text.drop (lineEndLength text)) =
      layoutLength indicator text := by
  cases text with
  | nil => simp [lineEndLength]
  | cons c rest =>
      cases ends : endsLine c with
      | true =>
          rw [layoutLength_lineEnd indicator ends,
            layoutLength_blank indicator (isBlank_of_endsLine ends)]
      | false =>
          have none : lineEndLength (c :: rest) = 0 := lineEndLength_none (by simpa using ends)
          rw [none, List.drop_zero, Nat.zero_add]

/-- Behind an indicator the rest of the line is passed, and then it is as if layout began there. -/
theorem layoutLength_opened {indicator : Char} (solid : isBlank indicator = false)
    (rest : List Char) :
    layoutLength indicator (indicator :: rest) =
      1 + ((rest.takeWhile fun c => !endsLine c).length +
        layoutLength indicator (rest.drop (rest.takeWhile fun c => !endsLine c).length)) := by
  rw [layoutLength_indicator solid, commentLength, ← List.drop_drop,
    Nat.add_assoc _ (lineEndLength _), lineEndLength_add_layoutLength]

namespace Cursor

theorem skipLayout_skipLineEnd (cursor : Cursor) (indicator : Char) :
    cursor.skipLineEnd.skipLayout indicator = cursor.skipLayout indicator := by
  rw [skipLayout, skipLineEnd, advanceBy_advanceBy, ahead_advanceBy,
    lineEndLength_add_layoutLength, skipLayout]

theorem ahead_of_next?_none {cursor : Cursor} (ended : cursor.next? = none) :
    cursor.ahead = [] := by
  obtain ⟨behind, ahead, place⟩ := cursor
  cases ahead with
  | nil => rfl
  | cons d rest => cases ended

theorem skipLayout_of_end {cursor : Cursor} (ended : cursor.ahead = []) (indicator : Char) :
    cursor.skipLayout indicator = cursor := by
  rw [skipLayout, ended, layoutLength_nil, advanceBy]

theorem skipLine_of_end {cursor : Cursor} (ended : cursor.ahead = []) :
    cursor.skipLine = cursor := by
  rw [skipLine, advanceWhile, ended, List.takeWhile_nil, List.length_nil, advanceBy]

section Character

variable {cursor past : Cursor} {c : Char} (next : cursor.next? = some (c, past))

include next

theorem ahead_of_next? : cursor.ahead = c :: past.ahead ∧ cursor.advance = past := by
  obtain ⟨behind, ahead, place⟩ := cursor
  cases ahead with
  | nil => cases next
  | cons d rest =>
      obtain ⟨rfl, rfl⟩ := Prod.mk.inj (Option.some.inj next)
      exact ⟨rfl, rfl⟩

theorem length_of_next? : cursor.ahead.length = past.ahead.length + 1 := by
  rw [(ahead_of_next? next).1, List.length_cons]

theorem advanceBy_of_next? (n : Nat) : cursor.advanceBy (n + 1) = past.advanceBy n := by
  rw [advanceBy, (ahead_of_next? next).2]

theorem skipLayout_of_blank (blank : isBlank c = true) (indicator : Char) :
    cursor.skipLayout indicator = past.skipLayout indicator := by
  rw [skipLayout, (ahead_of_next? next).1, layoutLength_blank indicator blank,
    advanceBy_of_next? next, skipLayout]

theorem skipLayout_of_indicator (solid : isBlank c = false) :
    cursor.skipLayout c = past.skipLine.skipLayout c := by
  rw [skipLayout, (ahead_of_next? next).1, layoutLength_opened solid, Nat.add_comm,
    advanceBy_of_next? next, ← advanceBy_advanceBy, skipLayout, skipLine, advanceWhile,
    ahead_advanceBy]

theorem skipLayout_of_solid {indicator : Char} (solid : isBlank c = false)
    (other : c ≠ indicator) : cursor.skipLayout indicator = cursor := by
  rw [skipLayout, (ahead_of_next? next).1, layoutLength_stop solid other, advanceBy]

theorem skipLine_of_inside (inside : endsLine c = false) : cursor.skipLine = past.skipLine := by
  rw [skipLine, advanceWhile, (ahead_of_next? next).1,
    List.takeWhile_cons_of_pos (by simp [inside]), List.length_cons, advanceBy_of_next? next,
    skipLine, advanceWhile]

theorem skipLine_of_endsLine (ends : endsLine c = true) : cursor.skipLine = cursor := by
  rw [skipLine, advanceWhile, (ahead_of_next? next).1, List.takeWhile_cons_of_neg (by simp [ends]),
    List.length_nil, advanceBy]

end Character

end Cursor

/-! ## The scan -/

inductive LayoutState where
  | outside
  | inside
  deriving DecidableEq, Repr

namespace LayoutState

/-- What one character does to the state, and where the cursor then stands; nothing where the scan
stops. The end of a line ends a comment and is not passed with it. -/
def step? (indicator : Char) (state : LayoutState) (cursor : Cursor) :
    Option (LayoutState × Cursor) :=
  match state, cursor.next? with
  | _, none => none
  | outside, some (c, past) =>
      if isBlank c then some (outside, past)
      else if c = indicator then some (inside, past)
      else none
  | inside, some (c, past) =>
      if endsLine c then some (outside, cursor) else some (inside, past)

/-- The four steps there are. -/
inductive Step (indicator : Char) : LayoutState → Cursor → LayoutState → Cursor → Prop
  | blank {c : Char} {cursor past : Cursor} : cursor.next? = some (c, past) → isBlank c = true →
      Step indicator outside cursor outside past
  | opens {cursor past : Cursor} : cursor.next? = some (indicator, past) →
      Step indicator outside cursor inside past
  | body {c : Char} {cursor past : Cursor} : cursor.next? = some (c, past) → endsLine c = false →
      Step indicator inside cursor inside past
  | lineEnd {c : Char} {cursor past : Cursor} : cursor.next? = some (c, past) →
      endsLine c = true → Step indicator inside cursor outside cursor

/-- How many steps there can be at most: one for each character, and one to leave each comment. -/
def bound : LayoutState → Cursor → Nat
  | outside, cursor => 2 * cursor.ahead.length
  | inside, cursor => 2 * cursor.ahead.length + 1

/-- Where skipping arrives from here. -/
def skip (indicator : Char) : LayoutState → Cursor → Cursor
  | outside, cursor => cursor.skipLayout indicator
  | inside, cursor => cursor.skipLine.skipLayout indicator

section Step

variable {indicator : Char} {state next : LayoutState} {cursor later : Cursor}

theorem step_of_step? (taken : state.step? indicator cursor = some (next, later)) :
    Step indicator state cursor next later := by
  unfold step? at taken
  split at taken
  · cases taken
  · rename_i found
    split_ifs at taken with blank opens
    · obtain ⟨rfl, rfl⟩ := taken
      exact .blank found blank
    · obtain ⟨rfl, rfl⟩ := taken
      exact .opens (opens ▸ found)
  · rename_i found
    split_ifs at taken with ends
    · obtain ⟨rfl, rfl⟩ := taken
      exact .lineEnd found ends
    · obtain ⟨rfl, rfl⟩ := taken
      exact .body found (by simpa using ends)

theorem Step.bound_lt (step : Step indicator state cursor next later) :
    next.bound later < state.bound cursor := by
  cases step with
  | blank found | opens found | body found =>
      have fewer := Cursor.length_of_next? found
      simp only [bound]
      omega
  | lineEnd => exact Nat.lt_succ_self _

/-- Every step stays on the way to where skipping arrives. -/
theorem Step.skip_eq (solid : isBlank indicator = false)
    (step : Step indicator state cursor next later) :
    next.skip indicator later = state.skip indicator cursor := by
  cases step with
  | blank found blank => exact (Cursor.skipLayout_of_blank found blank indicator).symm
  | opens found => exact (Cursor.skipLayout_of_indicator found solid).symm
  | body found inside =>
      rw [skip, skip, Cursor.skipLine_of_inside found inside]
  | lineEnd found ends =>
      rw [skip, skip, Cursor.skipLine_of_endsLine found ends]

/-- Where no step is left, skipping has arrived. -/
theorem skip_of_stop (stops : state.step? indicator cursor = none) :
    state.skip indicator cursor = cursor := by
  cases found : cursor.next? with
  | none =>
      have ended := Cursor.ahead_of_next?_none found
      cases state with
      | outside => exact Cursor.skipLayout_of_end ended indicator
      | inside =>
          rw [skip, Cursor.skipLine_of_end ended]
          exact Cursor.skipLayout_of_end ended indicator
  | some ahead =>
      obtain ⟨c, past⟩ := ahead
      cases state with
      | outside =>
          simp only [step?, found] at stops
          split_ifs at stops with blank opens
          exact Cursor.skipLayout_of_solid found (by simpa using blank) opens
      | inside =>
          simp only [step?, found] at stops
          split_ifs at stops

end Step

/-- Where the scan stops. -/
def run (indicator : Char) (state : LayoutState) (cursor : Cursor) : Cursor :=
  match _taken : state.step? indicator cursor with
  | none => cursor
  | some (next, later) => run indicator next later
termination_by state.bound cursor
decreasing_by exact (step_of_step? _taken).bound_lt

/-- The scan stops where skipping arrives. -/
theorem run_eq_skip {indicator : Char} (solid : isBlank indicator = false) (state : LayoutState)
    (cursor : Cursor) : state.run indicator cursor = state.skip indicator cursor := by
  fun_induction run indicator state cursor with
  | case1 state cursor stops => exact (skip_of_stop stops).symm
  | case2 state cursor next later taken ih => rw [ih, (step_of_step? taken).skip_eq solid]

end LayoutState

/-! ## The loop -/

namespace ByteCursor

open Logged

variable {source : String} {before after : List Char}

/-- Past the characters of a comment whose indicator is at the cursor, up to the end of its line. -/
def stepToLineEnd (cursor : ByteCursor) : Logged ByteCursor := do
  let (_, body) ← cursor.step
  body.stepWhile fun c => !endsLine c

/-- Past layout, in rounds of blanks and a comment that leave the ends of lines to the blanks. -/
def stepOverLines (indicator : Char) (cursor : ByteCursor) : Logged ByteCursor := do
  let solid ← cursor.stepWhile isBlank
  match ← solid.look with
  | none => return solid
  | some c =>
      if c = indicator then (← solid.stepToLineEnd) |>.stepOverLines indicator
      else return solid
partial_fixpoint

theorem gives_stepToLineEnd {c : Char} {rest : List Char}
    (split : source.toList = before ++ c :: rest) :
    (past source before).stepToLineEnd.Gives source
      (past source (before ++ c :: rest.takeWhile fun c => !endsLine c)) [] := by
  have opened : source.toList = before ++ [c] ++ rest := by simp [split]
  rw [List.append_cons]
  exact (gives_step split).bind (gives_stepWhile opened _)

/-- The induction is on how much is ahead: what follows a comment's indicator is shorter. -/
theorem gives_stepOverLines {indicator : Char} (notBlank : isBlank indicator = false)
    {before after : List Char} (split : source.toList = before ++ after) :
    ((past source before).stepOverLines indicator).Gives source
      (past source (before ++ after.take (layoutLength indicator after))) [] := by
  rcases exists_blanks after with blank | ⟨gap, solid, rfl, blank, c, first, notBlankToo⟩
  · have atEnd : source.toList = before ++ after ++ [] := by rw [List.append_nil, split]
    rw [stepOverLines, layoutLength_final notBlank (.complete blank.layout), List.take_length]
    exact (gives_stepOverBlanks atEnd blank nofun).bind ((gives_look atEnd).bind (gives_pure _))
  · obtain ⟨rest, rfl⟩ := List.head?_eq_some_iff.1 first
    have stands : source.toList = before ++ gap ++ c :: rest := by rw [split, List.append_assoc]
    rw [stepOverLines, layoutLength_append notBlank blank.layout, List.take_length_add_append,
      ← List.append_assoc]
    refine (gives_stepOverBlanks stands blank (by simpa using notBlankToo)).bind
      ((gives_look stands).bind ?_)
    dsimp only [List.head?_cons]
    by_cases opens : c = indicator
    · subst opens
      have toLineEnd := gives_stepToLineEnd stands
      have counted := layoutLength_opened notBlank rest
      obtain ⟨body, taken⟩ : ∃ body, rest.takeWhile (fun c => !endsLine c) = body := ⟨_, rfl⟩
      obtain ⟨lineEnd, rfl⟩ : body <+: rest := taken ▸ List.takeWhile_prefix _
      rw [taken] at toLineEnd counted
      rw [List.drop_left] at counted
      have later : source.toList = before ++ gap ++ c :: body ++ lineEnd := by
        rw [stands, List.append_assoc _ (c :: body), List.cons_append]
      have shorter : lineEnd.length < (gap ++ c :: (body ++ lineEnd)).length := by
        simp only [List.length_append, List.length_cons]
        omega
      have goesOn := gives_stepOverLines notBlank later
      have whole : before ++ gap ++ (c :: (body ++ lineEnd)).take
            (layoutLength c (c :: (body ++ lineEnd))) =
          before ++ gap ++ c :: body ++ lineEnd.take (layoutLength c lineEnd) := by
        rw [counted, Nat.add_comm 1, List.take_succ_cons, List.take_length_add_append,
          List.append_assoc _ (c :: body), List.cons_append]
      rw [if_pos rfl, whole]
      exact toLineEnd.bind goesOn
    · rw [if_neg opens, layoutLength_stop notBlankToo opens, List.take_zero, List.append_nil]
      exact gives_pure _
termination_by after.length

end ByteCursor

namespace ByteLexer

open Logged ByteCursor

/-- What a token scan does first: past a mark, and past layout. -/
def skipLayout (lexer : ByteLexer) : Logged ByteLexer := do
  let unmarked ← lexer.checkMark
  let cursor ← unmarked.cursor.stepOverLayout unmarked.settings.commentIndicator
  return unmarked.standing cursor

/-- The same, with the ends of lines left to the blanks. -/
def skipLines (lexer : ByteLexer) : Logged ByteLexer := do
  let unmarked ← lexer.checkMark
  let cursor ← unmarked.cursor.stepOverLines unmarked.settings.commentIndicator
  return unmarked.standing cursor

theorem scanToken_eq_skipLayout (lexer : ByteLexer) :
    lexer.scanToken = lexer.skipLayout >>= scanSolid := by
  simp [scanToken, skipLayout]

variable {source : String} {bytes : ByteLexer} {lexer : Lexer}

/-- Both loops bring the byte lexer to where the lexer's token scan starts to read, and no mark is
looked for again. -/
theorem gives_skipLayout (mirrors : Mirrors source bytes lexer) :
    ∃ before after, source.toList = before ++ after ∧ lexer.tokenStart = .between before after ∧
      bytes.skipLayout.Gives source
        { bytes with cursor := past source before, markChecked := true } [] ∧
      bytes.skipLines.Gives source
        { bytes with cursor := past source before, markChecked := true } [] := by
  obtain ⟨before, unread, split, unmarked, checked⟩ := exists_unmarked mirrors
  have solid := lexer.valid.indicator_not_blank
  have layout := gives_stepOverLayout lexer.settings.commentIndicator split
  have lines := gives_stepOverLines solid split
  rw [← mirrors.settings_eq] at layout lines
  refine ⟨_, unread.drop (layoutLength lexer.settings.commentIndicator unread), ?_, ?_,
    checked.bind (layout.bind (gives_pure _)), checked.bind (lines.bind (gives_pure _))⟩
  · rw [mirrors.settings_eq, List.append_assoc, List.take_append_drop, split]
  · rw [Lexer.tokenStart, unmarked, Cursor.ahead_between, Cursor.advanceBy_between,
      mirrors.settings_eq]

end ByteLexer

/-! ## Where a token scan starts to read -/

namespace Lexer

/-- No mark is skipped where a token scan starts to read. -/
theorem unmarked_standing_tokenStart (lexer : Lexer) :
    (lexer.standing lexer.tokenStart).unmarked = lexer.tokenStart := by
  by_cases started : lexer.tokenStart.behind = []
  · have still : lexer.tokenStart = lexer.unmarked := Cursor.advanceBy_eq_self started
    rw [still]
    exact lexer.unmarked_pastMark
  · exact unmarked_of_started started

theorem tokenStart_standing_tokenStart (lexer : Lexer) :
    (lexer.standing lexer.tokenStart).tokenStart = lexer.tokenStart := by
  have nothing := lexer.layoutLength_tokenStart
  rw [tokenStart, unmarked_standing_tokenStart]
  change lexer.tokenStart.advanceBy (layoutLength lexer.settings.commentIndicator _) = _
  rw [nothing, Cursor.advanceBy]

/-- The text that a token scan passes over is the longest layout there. -/
theorem exists_longest_layout (lexer : Lexer) : ∃ gap rest, lexer.unmarked.ahead = gap ++ rest ∧
    IsLongestLayout lexer.settings.commentIndicator gap (gap ++ rest) ∧
    lexer.tokenStart = lexer.unmarked.advanceBy gap.length := by
  have solid := lexer.valid.indicator_not_blank
  obtain ⟨gap, rest, split, stops⟩ :=
    exists_layoutBefore lexer.settings.commentIndicator lexer.unmarked.ahead
  refine ⟨gap, rest, split, stops.isLongestLayout solid, ?_⟩
  rw [tokenStart, split, layoutLength_layoutBefore solid stops]

end Lexer

namespace ByteLexer

open ByteCursor

variable {source : String} {bytes : ByteLexer} {lexer : Lexer}

theorem Mirrors.skipped (mirrors : Mirrors source bytes lexer) {before after : List Char}
    (split : source.toList = before ++ after)
    (stands : lexer.tokenStart = .between before after) :
    Mirrors source { bytes with cursor := past source before, markChecked := true }
      (lexer.standing lexer.tokenStart) :=
  ⟨⟨mirrors.settings_eq, mirrors.latest_eq, mirrors.stopped_eq⟩,
    ⟨before, after, split, stands, rfl⟩, fun _ => lexer.unmarked_standing_tokenStart⟩

/-- A second time there is nothing to skip. -/
theorem gives_skipLayout_twice (mirrors : Mirrors source bytes lexer) :
    ∃ left, left.Mirrors source (lexer.standing lexer.tokenStart) ∧
      bytes.skipLayout.Gives source left [] ∧ bytes.skipLines.Gives source left [] ∧
      left.skipLayout.Gives source left [] := by
  obtain ⟨before, after, split, stands, layout, lines⟩ := gives_skipLayout mirrors
  have skipped := mirrors.skipped split stands
  refine ⟨_, skipped, layout, lines, ?_⟩
  obtain ⟨passed, more, -, standsToo, again, -⟩ := gives_skipLayout skipped
  rw [lexer.tokenStart_standing_tokenStart, stands] at standsToo
  obtain rfl : before = passed := List.reverse_inj.1 (congrArg Cursor.behind standsToo)
  exact again

end ByteLexer

namespace Lexer

/-- **Skipping layout is a scan in two states.** Every lexer comes, from behind a mark that it has
to skip, to where this scan stops: outside a comment a blank is passed, the indicator is passed and
opens a comment, and any other character stops the scan; inside one all characters are passed but
the end of a line, which ends the comment and is looked at again. Passing the end of a line with its
comment changes nothing: from any cursor, layout ends where it ends from behind CR, LF or CR LF
there. What is passed is the longest prefix of blanks and line comments, and skipping again passes
nothing. In a source kept as bytes the loop comes to an end, there too, with or without passing the
ends of lines by themselves, and a second call of it moves nothing. -/
theorem layout_is_two_state_scan (lexer : Lexer) :
    LayoutState.run lexer.settings.commentIndicator .outside lexer.unmarked = lexer.tokenStart ∧
    (∀ cursor : Cursor, cursor.skipLineEnd.skipLayout lexer.settings.commentIndicator =
      cursor.skipLayout lexer.settings.commentIndicator) ∧
    (∃ gap rest, lexer.unmarked.ahead = gap ++ rest ∧
      IsLongestLayout lexer.settings.commentIndicator gap (gap ++ rest) ∧
      lexer.tokenStart = lexer.unmarked.advanceBy gap.length) ∧
    (lexer.standing lexer.tokenStart).tokenStart = lexer.tokenStart ∧
    ∀ (source : String) (bytes : ByteLexer), bytes.Mirrors source lexer →
      ∃ left : ByteLexer, left.Mirrors source (lexer.standing lexer.tokenStart) ∧
        bytes.skipLayout.Gives source left [] ∧ bytes.skipLines.Gives source left [] ∧
        left.skipLayout.Gives source left [] :=
  ⟨LayoutState.run_eq_skip lexer.valid.indicator_not_blank .outside lexer.unmarked,
    fun cursor => cursor.skipLayout_skipLineEnd _, lexer.exists_longest_layout,
    lexer.tokenStart_standing_tokenStart, fun _ _ => ByteLexer.gives_skipLayout_twice⟩

/-- A mark, empty lines with ends of every kind, a comment that holds indicators, one without
characters, and one that the source cuts off. -/
def allLayout : String :=
  "\uFEFF \n\r\t* a**é\r*\r\n\n*z"

/-- All of it is layout, and the scan stops at its end only. -/
theorem allLayout_is_two_state_scan :
    LayoutState.run '*' .outside (ofText allLayout.toList).unmarked =
        .between allLayout.toList [] ∧
      ∃ bytes left, ByteLexer.withSettings allLayout {} = .ok bytes ∧
        left.Mirrors allLayout ((ofText allLayout.toList).standing (.between allLayout.toList [])) ∧
        bytes.skipLayout.Gives allLayout left [] ∧ left.skipLayout.Gives allLayout left [] := by
  obtain ⟨scan, -, -, -, loop⟩ := layout_is_two_state_scan (ofText allLayout.toList)
  have arrives : (ofText allLayout.toList).tokenStart = .between allLayout.toList [] := by decide
  rw [arrives] at scan loop
  obtain ⟨bytes, made, mirrors⟩ :=
    ByteSession.mirrors_of_withSettings (withSettings_ofText allLayout.toList)
  obtain ⟨left, leaves, skips, -, again⟩ := loop allLayout bytes mirrors
  exact ⟨scan, bytes, left, made, leaves, skips, again⟩

end Lexer

end CobolSource
