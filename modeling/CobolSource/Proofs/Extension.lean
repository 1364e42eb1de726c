/-
# Proofs.Extension — text that comes later changes nothing

A source may be longer than what has been read of it. If some calls leave the cursor short of the
end of a text, then the same calls on the text with more behind it do the very same
(`run_longerText`): whatever is looked at to tell where a find ends was there already.

A look that stops short of the end of a text is the look at every longer text (`look_append`). For
each kind of find there is one place where that could fail, and it is always the end of the text: a
run of letters or digits that goes on, an operator's second character, a quote that closes a string,
the end of a comment's line, the character after a period. `Token.GoesOn` has the first two.

`followedBy` puts more text at the end of what a lexer has ahead of it and leaves all else as it is.
-/
import CobolSource.Proofs.Look
import CobolSource.Proofs.Writing

namespace CobolSource

set_option autoImplicit false

/-! ## Looks at a longer text -/

/-- A reading is that of the longer text, unless it is an open string or a token that takes up the
text and that the longer text carries on. -/
theorem reading_append {text : List Char} (some : text ≠ [])
    (closed : ∀ width, reading text ≠ .fault .unclosedString width) {more : List Char}
    (stops : ∀ token, reading text = .token token text.length →
      ∀ c ∈ more.head?, ¬ token.GoesOn c) : reading (text ++ more) = reading text := by
  cases read : reading text with
  | nothing => exact absurd (reading_nothing_iff.1 read) some
  | token token width =>
      obtain ⟨longest, rfl⟩ := reading_eq_token_iff.1 read
      obtain ⟨after, rfl⟩ := longest.isPrefix
      rw [List.append_assoc, reading_eq_token_iff]
      refine ⟨(isLongestToken_append_iff longest.wellFormed _).2 ?_, rfl⟩
      cases after with
      | nil =>
          rw [List.append_nil] at read stops
          exact stops token read
      | cons c after =>
          -- What stops the token is a character of the text, the same one in the longer text.
          have ends := (isLongestToken_append_iff longest.wellFormed (c :: after)).1 longest
          exact ends
  | fault fault width =>
      cases fault with
      | unclosedString => exact absurd read (closed width)
      | unexpectedCharacter c =>
          obtain ⟨d, rest, rfl⟩ := List.exists_cons_of_ne_nil some
          rw [← read]
          rw [reading] at read
          rw [List.cons_append, reading, reading]
          split_ifs at read ⊢ with name digit string mark operator
          · cases read
          · cases read
          · rw [Reading.string] at read
            split at read <;> cases read
          · cases read
          · cases read
          · rfl

theorem reading_append_of_lt {text : List Char} (short : (reading text).width < text.length)
    (more : List Char) : reading (text ++ more) = reading text := by
  apply reading_append
  · rintro rfl
    exact Nat.not_lt_zero _ short
  · intro width unclosed
    have reads := reads_reading text
    rw [unclosed] at reads short
    exact absurd reads.2.1 (Nat.ne_of_lt short)
  · intro token read
    rw [read] at short
    exact absurd short (Nat.lt_irrefl _)

theorem LayoutBefore.append_right {indicator : Char} {gap rest : List Char}
    (stops : LayoutBefore indicator gap rest) (some : rest ≠ []) (more : List Char) :
    LayoutBefore indicator gap (rest ++ more) := by
  cases stops with
  | ended => exact absurd rfl some
  | solid layout notBlank other => exact .solid layout notBlank other

theorem lookToken_append {indicator : Char} (solid : isBlank indicator = false) {text : List Char}
    (short : (lookToken indicator text).skipped + (lookToken indicator text).passed < text.length)
    (more : List Char) : lookToken indicator (text ++ more) = lookToken indicator text := by
  obtain ⟨gap, rest, rfl, layout⟩ := exists_layoutBefore indicator text
  rw [lookToken_layoutBefore solid layout, Reading.skipped_look, Reading.passed_look,
    List.length_append, Nat.add_lt_add_iff_left] at short
  have some : rest ≠ [] := List.length_pos_iff.1 (Nat.zero_lt_of_lt short)
  rw [List.append_assoc, lookToken_layoutBefore solid layout,
    lookToken_layoutBefore solid (layout.append_right some more), reading_append_of_lt short]

theorem PhraseBefore.append_right {phrase trail after : List Char}
    (before : PhraseBefore phrase trail (period :: after)) (some : after ≠ []) (more : List Char) :
    PhraseBefore phrase trail (period :: (after ++ more)) := by
  refine ⟨before.isPhrase, before.blanks, .inr ⟨after ++ more, rfl, ?_⟩, ?_⟩
  · rcases before.stops with ended | ⟨after', same, blank⟩
    · cases ended
    · obtain rfl := (List.cons.inj same).2
      obtain ⟨c, rest, rfl⟩ := List.exists_cons_of_ne_nil some
      exact blank
  · exact before.settled.imp_right fun close => ⟨close.1, List.cons_ne_nil _ _⟩

theorem lookPhrase_append {text : List Char}
    (short : (lookPhrase text).skipped + (lookPhrase text).passed < text.length)
    (more : List Char) : lookPhrase (text ++ more) = lookPhrase text := by
  rcases exists_phraseBefore text with blank | ⟨gap, phrase, trail, rest, rfl, blank, before⟩
  · rw [lookPhrase_blanks blank] at short
    exact absurd short (Nat.lt_irrefl _)
  · rw [lookPhrase_phraseBefore blank before] at short ⊢
    simp only [List.length_append] at short
    rcases before.stops with rfl | ⟨after, rfl, -⟩
    · rw [List.length_nil] at short
      omega
    · rw [List.length_cons] at short
      have some : after ≠ [] := List.length_pos_iff.1 (by omega)
      simp only [List.append_assoc, List.cons_append]
      exact lookPhrase_phraseBefore blank (before.append_right some more)

/-- **A look that stops short of the end is the look at every longer text.** -/
theorem look_append {indicator : Char} (solid : isBlank indicator = false) (call : Call)
    {text : List Char}
    (short : (call.look indicator text).skipped + (call.look indicator text).passed < text.length)
    (more : List Char) : call.look indicator (text ++ more) = call.look indicator text := by
  cases call with
  | token => exact lookToken_append solid short more
  | phrase => exact lookPhrase_append short more
  | pull => exact lookToken_append solid short more

/-- No span reaches further than the cursor goes. -/
theorem covered_le_passed (indicator : Char) (call : Call) (text : List Char) :
    (call.look indicator text).covered ≤ (call.look indicator text).passed := by
  have token : (lookToken indicator text).covered ≤ (lookToken indicator text).passed := by
    rw [lookToken]
    cases reading (text.drop (layoutLength indicator text)) <;> exact Nat.le_refl _
  cases call with
  | token => exact token
  | pull => exact token
  | phrase =>
      rcases exists_phraseBefore text with blank | ⟨gap, phrase, trail, rest, rfl, blank, before⟩
      · rw [Call.look, lookPhrase_blanks blank]
      · rw [Call.look, lookPhrase_phraseBefore blank before]
        show phrase.length ≤ phrase.length + trail.length + 1
        omega

/-! ## Lexers with more ahead -/

def Cursor.followedBy (cursor : Cursor) (more : List Char) : Cursor :=
  { cursor with ahead := cursor.ahead ++ more }

/-- The lexer, with `more` after all that is ahead of it. -/
def Lexer.followedBy (lexer : Lexer) (more : List Char) : Lexer :=
  { lexer with cursor := lexer.cursor.followedBy more }

/-- The scan, leaving a lexer that has `more` ahead of it. -/
def Scan.followedBy (scan : Scan) (more : List Char) : Scan :=
  { scan with lexer := scan.lexer.followedBy more }

theorem Cursor.advanceBy_followedBy {cursor : Cursor} {n : Nat} (within : n ≤ cursor.ahead.length)
    (more : List Char) :
    (cursor.followedBy more).advanceBy n = (cursor.advanceBy n).followedBy more := by
  rw [advanceBy_eq, advanceBy_eq]
  simp only [followedBy, List.take_append_of_le_length within, List.drop_append_of_le_length within]

namespace Lexer

theorem deliver_followedBy {lexer : Lexer} {cursor : Cursor} {look : Look}
    (covered : look.covered ≤ look.passed)
    (within : look.skipped + look.passed ≤ cursor.ahead.length) (more : List Char) :
    (lexer.followedBy more).deliver (cursor.followedBy more) look =
      (lexer.deliver cursor look).followedBy more := by
  have left : (cursor.advanceBy look.skipped).ahead.length =
      cursor.ahead.length - look.skipped := by
    rw [Cursor.ahead_advanceBy, List.length_drop]
  have start : (cursor.followedBy more).advanceBy look.skipped =
      (cursor.advanceBy look.skipped).followedBy more :=
    Cursor.advanceBy_followedBy (by omega) more
  have stop : ((cursor.advanceBy look.skipped).followedBy more).advanceBy look.passed =
      ((cursor.advanceBy look.skipped).advanceBy look.passed).followedBy more :=
    Cursor.advanceBy_followedBy (by omega) more
  have cover : ((cursor.advanceBy look.skipped).followedBy more).advanceBy look.covered =
      ((cursor.advanceBy look.skipped).advanceBy look.covered).followedBy more :=
    Cursor.advanceBy_followedBy (by omega) more
  simp only [deliver, start, stop, cover]
  cases look.finding <;> rfl

theorem unmarked_followedBy {lexer : Lexer} (some : lexer.cursor.ahead ≠ []) (more : List Char) :
    (lexer.followedBy more).unmarked = lexer.unmarked.followedBy more := by
  obtain ⟨c, rest, ahead⟩ := List.exists_cons_of_ne_nil some
  have first : (lexer.cursor.followedBy more).current? = lexer.cursor.current? := by
    simp [Cursor.followedBy, Cursor.current?, ahead]
  have past : (lexer.cursor.followedBy more).advance = lexer.cursor.advance.followedBy more :=
    Cursor.advanceBy_followedBy (List.length_pos_iff.2 some) more
  have start : (lexer.cursor.followedBy more).atStart = lexer.cursor.atStart := rfl
  unfold unmarked Cursor.accept?
  simp only [followedBy, first, past, start]
  split
  · split <;> rfl
  · rfl

theorem perform_followedBy_of_scans {lexer : Lexer} {call : Call} (scans : call ≠ .pull)
    (within : (lexer.perform call).lexer.cursor.ahead ≠ []) (more : List Char) :
    (lexer.followedBy more).perform call = (lexer.perform call).followedBy more := by
  obtain ⟨n, moved⟩ := lexer.perform_cursor call
  have some : lexer.cursor.ahead ≠ [] := by
    intro empty
    rw [moved, Cursor.ahead_advanceBy, empty, List.drop_nil] at within
    exact within rfl
  rw [lexer.perform_eq_deliver scans] at within ⊢
  rw [deliver_cursor, Cursor.ahead_advanceBy] at within
  have short := List.length_pos_iff.2 within
  rw [List.length_drop] at short
  rw [perform_eq_deliver _ scans, unmarked_followedBy some]
  have look := look_append lexer.valid.indicator_not_blank call
    (Nat.lt_of_sub_pos short) more
  show (lexer.followedBy more).deliver _
      (call.look lexer.settings.commentIndicator (lexer.unmarked.ahead ++ more)) = _
  rw [look]
  exact deliver_followedBy (covered_le_passed _ _ _) (by omega) more

theorem perform_followedBy {lexer : Lexer} {call : Call}
    (within : (lexer.perform call).lexer.cursor.ahead ≠ []) (more : List Char) :
    (lexer.followedBy more).perform call = (lexer.perform call).followedBy more := by
  cases call with
  | token => exact perform_followedBy_of_scans (by decide) within more
  | phrase => exact perform_followedBy_of_scans (by decide) within more
  | pull =>
      cases stopped : lexer.stopped with
      | true =>
          have still : (lexer.followedBy more).stopped = true := stopped
          rw [perform, perform, pull_of_stopped stopped, pull_of_stopped still]
          rfl
      | false =>
          have going : (lexer.followedBy more).stopped = false := stopped
          have cursor := (pull_of_going stopped).2.2.1
          rw [perform, cursor] at within
          have scan : (lexer.followedBy more).scanToken = lexer.scanToken.followedBy more :=
            perform_followedBy_of_scans (by decide : Call.token ≠ .pull) within more
          rw [perform, perform, pull, pull, stopped, going, scan]
          simp only [Bool.false_eq_true, if_false, Scan.followedBy]
          split <;> rfl

/-- Calls that leave text ahead are answered alike if still more text comes after it. -/
theorem run_followedBy {lexer : Lexer} {calls : List Call}
    (within : (lexer.runFinal calls).cursor.ahead ≠ []) (more : List Char) :
    (lexer.followedBy more).run calls = (lexer.run calls).map (Scan.followedBy · more) := by
  induction calls generalizing lexer with
  | nil => rfl
  | cons call calls ih =>
      have first : (lexer.perform call).lexer.cursor.ahead ≠ [] := by
        obtain ⟨n, moved⟩ := (lexer.perform call).lexer.runFinal_cursor calls
        intro empty
        rw [runFinal, moved, Cursor.ahead_advanceBy, empty, List.drop_nil] at within
        exact within rfl
      rw [run, run, List.map_cons, perform_followedBy first]
      exact congrArg _ (ih within)

/-- **Text that comes later changes nothing.** If calls on a lexer for a text leave its cursor
before the end, then with any more text behind it there is a lexer as well, and it answers these
calls with the very same outcomes, events, last spans and places; only what is still ahead is
longer. -/
theorem run_longerText {text : List Char} {settings : Settings} {start : Lexer}
    (made : withSettings text settings = .ok start) {calls : List Call}
    (within : (start.runFinal calls).cursor.atEnd = false) (more : List Char) :
    ∃ longer, withSettings (text ++ more) settings = .ok longer ∧
      longer.run calls = (start.run calls).map (Scan.followedBy · more) := by
  refine ⟨start.followedBy more, ?_, run_followedBy ?_ more⟩
  · obtain ⟨valid, rfl⟩ := eq_of_withSettings made
    exact withSettings_of_valid (text ++ more) valid
  · simpa [Cursor.atEnd] using within

/-- A mark, a comment, an operator that could go on, and a phrase that ends at a blank. -/
def growingText : List Char :=
  "\uFEFF* é\n<= A. B".toList

/-- What is read of a text is read alike in a longer one. At the end of it that need not be: a name
that ends there may go on. -/
theorem growingText_followedBy :
    ((ofText (growingText ++ "-1 \"".toList)).run [.pull, .phrase]).map (·.outcome) =
        [.token ⟨.operator, "<="⟩, .phrase "A"] ∧
      (ofText (growingText ++ "-1 \"".toList)).run [.pull, .phrase] =
        ((ofText growingText).run [.pull, .phrase]).map (Scan.followedBy · "-1 \"".toList) ∧
      ((ofText growingText).runFinal [.pull, .phrase, .token]).cursor.atEnd = true ∧
      ((ofText (growingText ++ "-1 \"".toList)).runFinal [.pull, .phrase]).scanToken.outcome ≠
        ((ofText growingText).runFinal [.pull, .phrase]).scanToken.outcome := by
  have within : ((ofText growingText).runFinal [.pull, .phrase]).cursor.atEnd = false := by decide
  obtain ⟨longer, madeLonger, same⟩ :=
    run_longerText (withSettings_ofText growingText) within "-1 \"".toList
  obtain rfl := Except.ok.inj ((withSettings_ofText _).symm.trans madeLonger)
  exact ⟨by decide, same, by decide, by decide⟩

end Lexer

end CobolSource
