/-
# Proofs.PhraseTokens — phrases and tokens end alike

A phrase scan and a token scan read by different grammars, and still they agree on where a phrase
ends. Take a phrase without a quote or a comment indicator in it. Where a phrase scan would produce
it, token scans find what they find in a source that is nothing but the phrase, and after that the
period that ends the phrase; then the cursor stands where the phrase scan would leave it
(`tokens_of_phrase`).

No token reaches over the end of such a phrase, since neither a blank nor a period carries one on
(`lookToken_inside`). `Beside` is what a lexer for the phrase alone and the lexer for the whole
source keep in common from one token to the next.
-/
import CobolSource.Proofs.Extension
import CobolSource.Proofs.PhraseScan

namespace CobolSource

set_option autoImplicit false

/-! ## Tokens inside a phrase -/

theorem TokenKind.not_goesOn_period {kind : TokenKind} {value : List Char} :
    ¬ kind.GoesOn value period := by
  cases kind <;> simp [GoesOn, show continuesName period = false by decide,
    show period.isDigit = false by decide, show period ≠ '=' by decide]

/-- What is left of a phrase in which no string and no comment starts. -/
structure Plain (indicator : Char) (part : List Char) : Prop where
  last_solid : ∀ c ∈ part.getLast?, isBlank c = false
  noQuote : quote ∉ part
  noComment : indicator ∉ part

theorem Plain.of_isSuffix {indicator : Char} {part left : List Char} (plain : Plain indicator part)
    (suffix : left <:+ part) : Plain indicator left := by
  refine ⟨?_, fun found => plain.noQuote (suffix.subset found),
    fun found => plain.noComment (suffix.subset found)⟩
  obtain ⟨before, rfl⟩ := suffix
  intro c last
  exact plain.last_solid c (List.mem_getLast?_append_of_mem_getLast? last)

/-- The next token of a part is looked at in the same way when the part has blanks before it, and a
blank or a period after it. -/
theorem lookToken_inside {indicator : Char} (solid : isBlank indicator = false)
    {gap part tail : List Char} (blank : Blanks gap) (plain : Plain indicator part)
    (nonempty : part ≠ []) (apart : ∀ c ∈ tail.head?, isBlank c = true ∨ c = period) :
    ∃ lead body, part = lead ++ body ∧ body ≠ [] ∧
      lookToken indicator part = (reading body).look lead.length ∧
      lookToken indicator (gap ++ (part ++ tail)) = (reading body).look (gap ++ lead).length := by
  obtain ⟨lead, body, rfl, stops⟩ := exists_layoutBefore indicator part
  -- Without an indicator the layout can only be blanks, and blanks do not reach the last character.
  have leadBlank : Blanks lead :=
    stops.final.blanks_of_bare fun found => plain.noComment (List.mem_append_left _ found)
  have more : body ≠ [] := by
    rintro rfl
    rw [List.append_nil] at plain nonempty
    have last := plain.last_solid _ (List.getLast?_eq_some_getLast nonempty)
    rw [leadBlank _ (List.getLast_mem nonempty)] at last
    cases last
  have alike : reading (body ++ tail) = reading body := by
    apply reading_append more
    · intro width unclosed
      have reads := reads_reading body
      rw [unclosed] at reads
      exact plain.noQuote (List.mem_append_right _ (List.mem_of_mem_head? reads.1))
    · intro token _ c first
      rcases apart c first with blank | rfl
      · exact TokenKind.not_goesOn_of_isBlank blank
      · exact TokenKind.not_goesOn_period
  have further : LayoutBefore indicator (gap ++ lead) (body ++ tail) :=
    (stops.append_right more tail).append_left blank.layout
  refine ⟨lead, body, rfl, more, lookToken_layoutBefore solid stops, ?_⟩
  rw [List.append_assoc, ← List.append_assoc gap, lookToken_layoutBefore solid further, alike]

namespace Lexer

theorem unmarked_of_reading {lexer : Lexer} {before gap body tail : List Char} (more : body ≠ [])
    (stands : lexer.unmarked = .between before (gap ++ (body ++ tail)))
    (look : lookToken lexer.settings.commentIndicator (gap ++ (body ++ tail)) =
      (reading body).look gap.length) :
    lexer.scanToken.lexer.unmarked =
      .between (before ++ gap ++ body.take (reading body).width)
        (body.drop (reading body).width ++ tail) := by
  have fits := reading_width_le body
  have read : body.take (reading body).width ≠ [] := by
    have pos := reading_width_pos more
    simp only [ne_eq, List.take_eq_nil_iff, not_or]
    exact ⟨Nat.ne_of_gt pos, more⟩
  apply unmarked_of_passed read
  rw [scanToken_eq_deliver, stands, Cursor.ahead_between, look, deliver_cursor,
    Reading.skipped_look, Reading.passed_look, ← Cursor.advanceBy_advanceBy,
    Cursor.advanceBy_length_between, Cursor.advanceBy_between, List.take_append_of_le_length fits,
    List.drop_append_of_le_length fits]

/-! ## A lexer for a phrase alone, and one for the whole source -/

/-- `alone` has `part` left of its source. `lexer` has the same part next, after blanks perhaps, and
`tail` after it; up to the end of the part, its source is `whole`. -/
structure Beside (whole part tail : List Char) (alone lexer : Lexer) : Prop where
  indicator_eq : lexer.settings.commentIndicator = alone.settings.commentIndicator
  alone_stands : ∃ before, alone.unmarked = .between before part
  stands : ∃ before gap, whole = before ++ (gap ++ part) ∧ Blanks gap ∧
    lexer.unmarked = .between before (gap ++ (part ++ tail))

theorem scanToken_beside {whole part tail : List Char} {alone lexer : Lexer}
    (beside : Beside whole part tail alone lexer)
    (plain : Plain alone.settings.commentIndicator part) (nonempty : part ≠ [])
    (apart : ∀ c ∈ tail.head?, isBlank c = true ∨ c = period) :
    alone.scanToken.outcome ≠ .endOfInput ∧
      lexer.scanToken.outcome.finding = alone.scanToken.outcome.finding ∧
      ∃ left, left <:+ part ∧ left.length < part.length ∧
        Beside whole left tail alone.scanToken.lexer lexer.scanToken.lexer := by
  obtain ⟨near, aloneStands⟩ := beside.alone_stands
  obtain ⟨before, gap, rfl, blank, stands⟩ := beside.stands
  obtain ⟨lead, body, rfl, more, aloneLook, look⟩ :=
    lookToken_inside alone.valid.indicator_not_blank blank plain nonempty apart
  rw [← beside.indicator_eq] at look
  have aloneFinds : alone.scanToken.outcome.finding = (reading body).finding := by
    rw [scanToken_eq_deliver, deliver_finding, aloneStands, Cursor.ahead_between, aloneLook,
      Reading.finding_look]
  have finds : lexer.scanToken.outcome.finding = (reading body).finding := by
    rw [scanToken_eq_deliver, deliver_finding, stands, Cursor.ahead_between, look,
      Reading.finding_look]
  refine ⟨?_, finds.trans aloneFinds.symm, body.drop (reading body).width,
    (List.drop_suffix _ _).trans (List.suffix_append _ _), ?_, ?_, ?_, ?_⟩
  · intro ended
    rw [ended] at aloneFinds
    exact more (reading_nothing_iff.1 (Reading.finding_eq_nothing_iff.1 aloneFinds.symm))
  · have pos := reading_width_pos more
    have fits := reading_width_le body
    rw [List.length_drop, List.length_append]
    omega
  · rw [scanToken_settings, scanToken_settings]
    exact beside.indicator_eq
  · refine ⟨near ++ lead ++ body.take (reading body).width, ?_⟩
    have atEnd : alone.unmarked = .between near (lead ++ (body ++ [])) := by
      rwa [List.append_nil]
    have passed := unmarked_of_reading more atEnd (by rwa [List.append_nil])
    rwa [List.append_nil] at passed
  · refine ⟨before ++ (gap ++ lead) ++ body.take (reading body).width, [], ?_, nofun, ?_⟩
    · simp [List.append_assoc]
    · rw [List.append_assoc, ← List.append_assoc gap] at stands look
      exact unmarked_of_reading more stands look

theorem run_beside {whole part tail : List Char} {alone lexer : Lexer}
    (beside : Beside whole part tail alone lexer)
    (plain : Plain alone.settings.commentIndicator part)
    (apart : ∀ c ∈ tail.head?, isBlank c = true ∨ c = period) :
    ∃ scans last, alone.untilEnd .token = scans ++ [last] ∧ last.outcome = .endOfInput ∧
      (lexer.run (List.replicate scans.length .token)).map (·.outcome.finding) =
        scans.map (·.outcome.finding) ∧
      ∃ before gap, whole = before ++ gap ∧ Blanks gap ∧
        (lexer.runFinal (List.replicate scans.length .token)).unmarked =
          .between before (gap ++ tail) := by
  -- The recursion is on what is left of the part: a token scan leaves less, and leaves it `Beside`.
  by_cases empty : part = []
  · subst empty
    obtain ⟨near, aloneStands⟩ := beside.alone_stands
    obtain ⟨before, gap, split, blank, stands⟩ := beside.stands
    obtain ⟨none, rest, parts, -, scanned⟩ := scanToken_spec aloneStands
    have ended : (alone.perform .token).outcome = .endOfInput :=
      scanned.of_nil (List.append_eq_nil_iff.1 parts.symm).2
    rw [List.append_nil] at split
    exact ⟨[], _, untilEnd_of_ended ended, ended, rfl, before, gap, split, blank, stands⟩
  · obtain ⟨yields, alike, left, suffix, shorter, next⟩ :=
      scanToken_beside beside plain empty apart
    have plainLeft : Plain alone.scanToken.lexer.settings.commentIndicator left := by
      rw [scanToken_settings]
      exact plain.of_isSuffix suffix
    obtain ⟨scans, last, all, ended, found, stops⟩ := run_beside next plainLeft apart
    refine ⟨alone.scanToken :: scans, last, ?_, ended, ?_, ?_⟩
    · rw [untilEnd_of_yields (show (alone.perform .token).outcome ≠ .endOfInput from yields)]
      exact congrArg _ all
    · rw [List.length_cons, List.replicate_succ, run, List.map_cons, List.map_cons]
      exact congrArg₂ _ alike found
    · rwa [List.length_cons, List.replicate_succ, runFinal]
termination_by part.length

/-- A token scan at the end of a phrase finds the period there, or the end of the source. -/
theorem scanToken_of_stop {lexer : Lexer} {before gap rest : List Char}
    (stands : lexer.unmarked = .between before (gap ++ rest)) (blank : Blanks gap)
    (stops : rest = [] ∨ ∃ after, rest = period :: after ∧ AtBlank after) :
    lexer.scanToken.outcome.finding =
        (if startsWithTerminator rest then .token ⟨.punctuation, "."⟩ else .nothing) ∧
      lexer.scanToken.lexer.cursor = .between (before ++ gap ++ rest.take 1) (rest.drop 1) := by
  have solid := lexer.valid.indicator_not_blank
  have scan := lexer.scanToken_eq_deliver
  rw [stands, Cursor.ahead_between] at scan
  rcases stops with rfl | ⟨after, rfl, ends⟩
  · have layout : LayoutBefore lexer.settings.commentIndicator gap [] :=
      .ended (.complete blank.layout)
    rw [lookToken_layoutBefore solid layout] at scan
    rw [scan, deliver_finding, deliver_cursor]
    refine ⟨rfl, ?_⟩
    simp only [reading, Reading.look, Nat.add_zero, Cursor.advanceBy_length_between]
    simp
  · have other : period ≠ lexer.settings.commentIndicator := by
      intro same
      have free := lexer.valid.1
      rw [← same] at free
      exact absurd free (by decide)
    have layout : LayoutBefore lexer.settings.commentIndicator gap (period :: after) :=
      .solid blank.layout isBlank_period other
    have read : reading (period :: after) = .token ⟨.punctuation, "."⟩ 1 := rfl
    rw [lookToken_layoutBefore solid layout, read] at scan
    rw [scan, deliver_finding, deliver_cursor,
      if_pos (startsWithTerminator_cons_iff.2 ⟨rfl, ends⟩)]
    refine ⟨rfl, ?_⟩
    rw [Reading.skipped_look, Reading.passed_look, ← Cursor.advanceBy_advanceBy,
      Cursor.advanceBy_length_between, Cursor.advanceBy_between]
    rfl

/-- Token scans along a phrase: what they find in a source that is the phrase alone, and then what
ends the phrase. -/
theorem run_along {alone lexer : Lexer} {before gap phrase trail rest : List Char}
    (stands : lexer.unmarked = .between before (gap ++ (phrase ++ (trail ++ rest))))
    (blank : Blanks gap) (next : PhraseBefore phrase trail rest)
    (plain : Plain alone.settings.commentIndicator phrase)
    (aloneStands : alone.unmarked = .between [] phrase)
    (indicator_eq : lexer.settings.commentIndicator = alone.settings.commentIndicator) :
    ∃ scans last, alone.untilEnd .token = scans ++ [last] ∧ last.outcome = .endOfInput ∧
      (lexer.run (List.replicate (scans.length + 1) .token)).map (·.outcome.finding) =
        scans.map (·.outcome.finding) ++
          [if startsWithTerminator rest then .token ⟨.punctuation, "."⟩ else .nothing] ∧
      (lexer.runFinal (List.replicate (scans.length + 1) .token)).cursor =
        .between (before ++ gap ++ phrase ++ trail ++ rest.take 1) (rest.drop 1) := by
  have apart : ∀ c ∈ (trail ++ rest).head?, isBlank c = true ∨ c = period := by
    intro c first
    cases trail with
    | cons d trail =>
        cases first
        exact .inl (next.blanks c List.mem_cons_self)
    | nil =>
        rcases next.stops with rfl | ⟨after, rfl, -⟩
        · cases first
        · cases first
          exact .inr rfl
  have beside : Beside (before ++ gap ++ phrase) phrase (trail ++ rest) alone lexer :=
    ⟨indicator_eq, ⟨[], aloneStands⟩, before, gap, List.append_assoc .., blank, stands⟩
  obtain ⟨scans, last, all, ended, found, near, left, split, leftBlank, stop⟩ :=
    run_beside beside plain apart
  rw [← List.append_assoc] at stop
  obtain ⟨closes, cursor⟩ := scanToken_of_stop stop (leftBlank.append next.blanks) next.stops
  refine ⟨scans, last, all, ended, ?_, ?_⟩
  · rw [List.replicate_succ', run_append, List.map_append, found]
    exact congrArg (_ ++ [·]) closes
  · rw [List.replicate_succ', runFinal_append, split, List.append_assoc near]
    exact cursor

/-- Whether what ends the next phrase is a period, and not the end of the source. -/
def meetsTerminator (lexer : Lexer) : Bool :=
  startsWithTerminator (lexer.phraseStart.ahead.drop (bodyLength lexer.phraseStart.ahead))

theorem meetsTerminator_eq {lexer : Lexer} {gap phrase trail rest : List Char}
    (ahead : lexer.unmarked.ahead = gap ++ (phrase ++ (trail ++ rest))) (blank : Blanks gap)
    (next : PhraseBefore phrase trail rest) :
    lexer.meetsTerminator = startsWithTerminator rest := by
  have start : lexer.phraseStart.ahead =
      lexer.unmarked.ahead.drop (blankLength lexer.unmarked.ahead) :=
    Cursor.ahead_advanceBy ..
  rw [ahead, next.blankLength_phraseBefore blank, List.drop_left] at start
  rw [meetsTerminator, start, next.bodyLength_phraseBefore, ← List.length_append,
    ← List.append_assoc, List.drop_left]

/-- **Phrases and tokens end alike.** Wherever calls have left a lexer, if a phrase scan there would
produce a phrase without a quote or a comment indicator in it, then token scans there find what they
find in a source that is the phrase and nothing else, up to the end of that. One more finds the
period that ends the phrase, or the end of the source if that ends it; and the cursor is then where
the phrase scan would leave it. -/
theorem tokens_of_phrase {text : List Char} {settings : Settings} {start : Lexer}
    (made : withSettings text settings = .ok start) {calls : List Call} {phrase : String}
    (found : (start.runFinal calls).scanPhrase.outcome = .phrase phrase)
    (noQuote : quote ∉ phrase.toList) (noComment : settings.commentIndicator ∉ phrase.toList) :
    ∃ alone, withSettings phrase.toList { settings with skipMark := false } = .ok alone ∧
      ∃ scans last, alone.untilEnd .token = scans ++ [last] ∧ last.outcome = .endOfInput ∧
        ((start.runFinal calls).run (List.replicate (scans.length + 1) .token)).map
            (·.outcome.finding) =
          scans.map (·.outcome.finding) ++
            [if (start.runFinal calls).meetsTerminator then .token ⟨.punctuation, "."⟩
              else .nothing] ∧
        ((start.runFinal calls).runFinal (List.replicate (scans.length + 1) .token)).cursor =
          (start.runFinal calls).scanPhrase.lexer.cursor := by
  obtain ⟨gap, trail, rest, ahead, blank, next⟩ := exists_parts_of_scanPhrase found
  obtain ⟨before, mark, unread, -, -, -, stands⟩ := unmarked_runFinal made calls
  rw [stands, Cursor.ahead_between] at ahead
  subst ahead
  obtain ⟨alone, new, indicator, aloneStands⟩ := exists_withoutMark made phrase.toList
  rw [meetsTerminator_eq (by rw [stands, Cursor.ahead_between]) blank next,
    scanPhrase_of_phraseBefore stands blank next]
  refine ⟨alone, new, run_along stands blank next ?_ aloneStands ?_⟩
  · rw [indicator]
    exact ⟨next.isPhrase.last_solid, noQuote, noComment⟩
  · rw [runFinal_settings, settings_of_withSettings made, indicator]

/-- A mark, then a phrase with a period in it and one at its end, and a phrase that the source
ends. -/
def entryText : List Char :=
  "\uFEFF\tA.\uFEFF<§..\n=\r".toList

/-- The tokens of the first phrase are those of its text, a mark in it being unexpected, and a
period. Those of the other have none behind them. -/
theorem entryText_tokens :
    ((ofText entryText).run (List.replicate 7 .token)).map (·.outcome.finding) =
        [.token ⟨.name, "A"⟩, .token ⟨.punctuation, "."⟩, .fault (.unexpectedCharacter '\uFEFF'),
          .token ⟨.operator, "<"⟩, .fault (.unexpectedCharacter '§'), .token ⟨.punctuation, "."⟩,
          .token ⟨.punctuation, "."⟩] ∧
      (((ofText entryText).runFinal [.phrase]).run (List.replicate 2 .token)).map
          (·.outcome.finding) = [.token ⟨.operator, "="⟩, .nothing] ∧
      ∃ alone, withSettings "A.\uFEFF<§.".toList { skipMark := false } = .ok alone ∧
        ∃ scans last, alone.untilEnd .token = scans ++ [last] ∧ last.outcome = .endOfInput ∧
          ((ofText entryText).run (List.replicate (scans.length + 1) .token)).map
              (·.outcome.finding) =
            scans.map (·.outcome.finding) ++ [.token ⟨.punctuation, "."⟩] ∧
          ((ofText entryText).runFinal (List.replicate (scans.length + 1) .token)).cursor =
            (ofText entryText).scanPhrase.lexer.cursor := by
  have found : ((ofText entryText).runFinal []).scanPhrase.outcome = .phrase "A.\uFEFF<§." := by
    decide
  exact ⟨by decide, by decide, tokens_of_phrase (withSettings_ofText _) found (by decide)
    (by decide)⟩

end Lexer

end CobolSource
