/-
# Proofs.Blanking — comments and unexpected characters are as good as blanks

Put a space in place of each character of each comment that token scans skip, and in place of each
character that they find unexpected. `Lexer.blanked` does that with the spans of the scans alone:
what lies between spans is layout, and `blankOut` finds the comments in it. The line end that ends a
comment is none of its characters and stays.

Token scans find the same in the new source, except that nothing is unexpected any more, and they
find it in the same lines and columns (`untilEnd_blanked`). No lexeme is joined to another, because
a space carries none on, and none is split, because lexemes stay as they are
(`reading_overwritten`). One scan of the new source may do for many of the old one: what these
report as unexpected is now blank, and is skipped with the blanks around it.
-/
import CobolSource.Proofs.Coordinates
import CobolSource.Proofs.Writing

namespace CobolSource

set_option autoImplicit false

/-! ## Writing spaces -/

/-- The second character is the first, or a space for what does not end a line. -/
def Overwritten (c d : Char) : Prop :=
  d = c ∨ endsLine c = false ∧ d = ' '

/-- Layout, with spaces for the comments in it. The text starts inside of a comment or outside. -/
def blankOut (indicator : Char) : Bool → List Char → List Char
  | _, [] => []
  | true, c :: rest =>
      if endsLine c then c :: blankOut indicator false rest
      else ' ' :: blankOut indicator true rest
  | false, c :: rest =>
      if c = indicator then ' ' :: blankOut indicator true rest
      else c :: blankOut indicator false rest

theorem overwritten_refl (text : List Char) : List.Forall₂ Overwritten text text :=
  List.forall₂_same.2 fun _ _ => .inl rfl

theorem overwritten_blankOut {indicator : Char} (solid : endsLine indicator = false)
    (inside : Bool) (text : List Char) :
    List.Forall₂ Overwritten text (blankOut indicator inside text) := by
  induction text generalizing inside with
  | nil => cases inside <;> exact .nil
  | cons c rest ih =>
      cases inside with
      | true =>
          rw [blankOut]
          split
          · exact .cons (.inl rfl) (ih false)
          · rename_i goesOn
            exact .cons (.inr ⟨by simpa using goesOn, rfl⟩) (ih true)
      | false =>
          rw [blankOut]
          split
          · rename_i opens
            exact .cons (.inr ⟨opens ▸ solid, rfl⟩) (ih true)
          · exact .cons (.inl rfl) (ih false)

theorem blankOut_inside {indicator : Char} {body : List Char}
    (inside : ∀ d ∈ body, endsLine d = false) (rest : List Char) :
    blankOut indicator true (body ++ rest) =
      List.replicate body.length ' ' ++ blankOut indicator true rest := by
  induction body with
  | nil => rfl
  | cons d body ih =>
      obtain ⟨first, others⟩ := List.forall_mem_cons.1 inside
      rw [List.cons_append, blankOut, if_neg (by simp [first]), ih others]
      rfl

theorem blankOut_comment {indicator : Char} {body : List Char}
    (inside : ∀ d ∈ body, endsLine d = false) {c : Char} (ends : endsLine c = true)
    (rest : List Char) :
    blankOut indicator false (indicator :: (body ++ c :: rest)) =
      ' ' :: (List.replicate body.length ' ' ++ c :: blankOut indicator false rest) := by
  rw [blankOut, if_pos rfl, blankOut_inside inside, blankOut, if_pos ends]

theorem blankOut_cutOff {indicator : Char} {body : List Char}
    (inside : ∀ d ∈ body, endsLine d = false) :
    blankOut indicator false (indicator :: body) = ' ' :: List.replicate body.length ' ' := by
  have all : blankOut indicator true (body ++ []) = _ := blankOut_inside inside []
  rw [List.append_nil, blankOut, List.append_nil] at all
  rw [blankOut, if_pos rfl, all]

theorem blanks_replicate (n : Nat) : Blanks (List.replicate n ' ') := by
  intro c among
  rw [List.eq_of_mem_replicate among]
  decide

theorem blanks_blankOut_append {indicator : Char} (solid : isBlank indicator = false)
    {gap : List Char} (layout : Layout indicator gap) {rest : List Char}
    (blank : Blanks (blankOut indicator false rest)) :
    Blanks (blankOut indicator false (gap ++ rest)) := by
  induction layout with
  | nil => exact blank
  | @blank c _ first _ ih =>
      have other : c ≠ indicator := by
        rintro rfl
        rw [solid] at first
        cases first
      rw [List.cons_append, blankOut, if_neg other]
      exact List.forall_mem_cons.2 ⟨first, ih⟩
  | @comment body c more inside ends _ ih =>
      rw [List.cons_append, List.append_assoc, List.cons_append, blankOut_comment inside ends]
      have line : Blanks (c :: blankOut indicator false (more ++ rest)) :=
        List.forall_mem_cons.2 ⟨isBlank_of_endsLine ends, ih⟩
      exact List.forall_mem_cons.2 ⟨by decide, (blanks_replicate _).append line⟩

/-- Nothing but blanks is left of layout whose comments are blanked out. -/
theorem blanks_blankOut {indicator : Char} (solid : isBlank indicator = false) {gap : List Char}
    (final : FinalLayout indicator gap) : Blanks (blankOut indicator false gap) := by
  cases final with
  | complete layout =>
      have blank := blanks_blankOut_append solid layout
        (nofun : Blanks (blankOut indicator false []))
      rwa [List.append_nil] at blank
  | cutOff layout inside =>
      apply blanks_blankOut_append solid layout
      rw [blankOut_cutOff inside]
      exact List.forall_mem_cons.2 ⟨by decide, blanks_replicate _⟩

theorem feeds_of_overwritten {c d : Char} (spaced : Overwritten c d) : d = '\n' ↔ c = '\n' := by
  rcases spaced with rfl | ⟨inside, rfl⟩
  · exact Iff.rfl
  · constructor
    · nofun
    · rintro rfl
      exact absurd inside (by decide)

/-- No line and no column moves. -/
theorem lineColumn_overwritten {near far : Place} {text text' : List Char}
    (same : far.lineColumn = near.lineColumn) (spaced : List.Forall₂ Overwritten text text') :
    (far.afterText text').lineColumn = (near.afterText text).lineColumn := by
  induction spaced generalizing near far with
  | nil => exact same
  | @cons c d rest rest' first _ ih =>
      obtain ⟨line, column⟩ := Prod.ext_iff.1 same
      change far.line = near.line at line
      change far.column = near.column at column
      apply ih
      by_cases feed : c = '\n'
      · have feedToo := (feeds_of_overwritten first).2 feed
        simp [Place.lineColumn, Place.after, feed, feedToo, line]
      · have otherToo := mt (feeds_of_overwritten first).1 feed
        simp [Place.lineColumn, Place.after, feed, otherToo, line, column]

/-! ## Reading what is overwritten -/

def Finding.isUnexpected : Finding → Bool
  | .fault (.unexpectedCharacter _) => true
  | _ => false

/-- What is found unexpected is one character, and no blank. -/
theorem part_of_unexpected {part after : List Char}
    (width : (reading (part ++ after)).width = part.length)
    (unexpected : (reading (part ++ after)).finding.isUnexpected = true) : ∃ c, part = [c] := by
  cases text : part ++ after with
  | nil =>
      rw [text] at unexpected
      cases unexpected
  | cons c rest =>
      rw [text] at width unexpected
      cases read : reading (c :: rest) with
      | nothing | token =>
          rw [read] at unexpected
          cases unexpected
      | fault fault n =>
          cases fault with
          | unclosedString =>
              rw [read] at unexpected
              cases unexpected
          | unexpectedCharacter d =>
              obtain ⟨-, rfl, rfl⟩ := reading_eq_unexpected_iff.1 read
              rw [read] at width
              exact List.length_eq_one_iff.1 width.symm

/-- A token is not carried on by what is overwritten, if it was not carried on before. -/
theorem isLongestToken_overwritten {token : Token} {after after' : List Char}
    (longest : IsLongestToken token (token.written.toList ++ after))
    (spaced : List.Forall₂ Overwritten after after') :
    IsLongestToken token (token.written.toList ++ after') := by
  have formed := longest.wellFormed
  rw [isLongestToken_append_iff formed] at longest ⊢
  intro d head
  cases spaced with
  | nil => cases head
  | cons first =>
      cases head
      rcases first with rfl | ⟨-, rfl⟩
      · exact longest _ rfl
      · exact TokenKind.not_goesOn_of_isBlank (by decide)

/-- What is read stays as it is, whatever spaces are written behind it. -/
theorem reading_overwritten {part after after' : List Char}
    (width : (reading (part ++ after)).width = part.length)
    (expected : (reading (part ++ after)).finding.isUnexpected = false)
    (spaced : List.Forall₂ Overwritten after after') :
    (reading (part ++ after')).finding = (reading (part ++ after)).finding ∧
      (reading (part ++ after')).width = part.length := by
  cases read : reading (part ++ after) with
  | nothing =>
      obtain ⟨rfl, rfl⟩ := List.append_eq_nil_iff.1 (reading_nothing_iff.1 read)
      cases spaced with
      | nil => exact ⟨rfl, rfl⟩
  | token token n =>
      rw [read] at width
      obtain ⟨longest, written⟩ := reading_eq_token_iff.1 read
      have same : token.written.toList = part := by
        have starts := List.prefix_of_prefix_length_le longest.isPrefix
          (List.prefix_append part after)
          (Nat.le_of_eq (written.trans width))
        exact starts.eq_of_length (written.trans width)
      subst same
      rw [reading_eq_token_iff.2 ⟨isLongestToken_overwritten longest spaced, rfl⟩]
      exact ⟨rfl, rfl⟩
  | fault fault n =>
      rw [read] at expected width
      cases fault with
      | unclosedString =>
          -- An open string takes the whole text, so there is nothing behind it.
          obtain ⟨-, -, -, whole⟩ := reading_eq_unclosed_iff.1 read
          have none : after.length = 0 := by
            have same : n = part.length := width
            rw [List.length_append] at whole
            omega
          obtain rfl := List.length_eq_zero_iff.1 none
          cases spaced with
          | nil =>
              rw [read]
              exact ⟨rfl, width⟩
      | unexpectedCharacter c => cases expected

/-- Where a mark is skipped in a text, it is skipped in the overwritten one, if it is kept. -/
theorem Settings.skippedMark_overwritten (settings : Settings) {text text' : List Char}
    (spaced : List.Forall₂ Overwritten text text') (kept : settings.skippedMark text <+: text') :
    settings.skippedMark text' = settings.skippedMark text := by
  by_cases marked : settings.skipMark = true ∧ text.head? = some byteOrderMark
  · rw [skippedMark, if_pos marked] at kept
    obtain ⟨rest, rfl⟩ := kept
    rw [skippedMark, skippedMark, if_pos marked]
    exact if_pos ⟨marked.1, rfl⟩
  · rw [skippedMark, skippedMark, if_neg marked]
    apply if_neg
    rintro ⟨skips, opens⟩
    cases spaced with
    | nil => cases opens
    | cons first =>
        cases opens
        rcases first with rfl | ⟨-, space⟩
        · exact marked ⟨skips, rfl⟩
        · exact absurd space (by decide)

/-! ## The source with spaces -/

/-- A text from byte `offset` on, with a space for each character that one of the scans found
unexpected and for each character of a comment. What lies between the scans' spans is layout. -/
def blankedFrom (indicator : Char) (text : List Char) : Nat → List Scan → List Char
  | offset, [] => blankOut indicator false (slice text offset (byteCount text))
  | offset, scan :: scans =>
      match scan.span? with
      | none => blankedFrom indicator text offset scans
      | some span =>
          blankOut indicator false (slice text offset span.start) ++
            ((if scan.outcome.finding.isUnexpected then [' ']
              else slice text span.start span.stop) ++
              blankedFrom indicator text span.stop scans)

/-- The second scan finds what the first one does, in the same line and column. -/
structure Scan.FindsAlike (near far : Scan) : Prop where
  finding_eq : far.outcome.finding = near.outcome.finding
  span_eq : far.span?.map Span.lineColumn = near.span?.map Span.lineColumn

def Scan.isExpected (scan : Scan) : Bool :=
  !scan.outcome.finding.isUnexpected

namespace Lexer

/-- What is left of a lexer's source, blanked as token scans find it until the end. -/
def blanked (lexer : Lexer) : List Char :=
  blankedFrom lexer.settings.commentIndicator lexer.unmarked.text lexer.unmarked.place.offset
    (lexer.untilEnd .token)

/-- A lexer's source, blanked as token scans find it until the end. A mark that is skipped stays. -/
def blankedText (lexer : Lexer) : List Char :=
  lexer.unmarked.behind.reverse ++ lexer.blanked

variable {lexer : Lexer} {before gap part after : List Char}

theorem Passes.unmarked (passes : lexer.Passes before gap part after) (nonempty : part ≠ []) :
    lexer.scanToken.lexer.unmarked = .between (before ++ gap ++ part) after :=
  unmarked_of_passed nonempty passes.cursor

theorem blanked_eq {unread : List Char} (stands : lexer.unmarked = .between before unread) :
    lexer.blanked = blankedFrom lexer.settings.commentIndicator (before ++ unread)
      (byteCount before) (lexer.untilEnd .token) := by
  have whole : (Cursor.between before unread).text = before ++ unread := by
    simp [Cursor.text]
  rw [blanked, stands, whole, Cursor.place_between, offset_afterText_start]

/-- At the end only layout is left to blank out. -/
theorem Passes.blanked_of_end (passes : lexer.Passes before gap [] after) :
    lexer.blanked = blankOut lexer.settings.commentIndicator false gap := by
  have nothing := passes.part_eq_nil_iff.1 rfl
  obtain rfl := passes.after_eq_nil
  have ended : (lexer.perform .token).outcome = .endOfInput := by
    rwa [← passes.finding, Outcome.finding_eq_nothing_iff] at nothing
  have handed : (lexer.perform .token).span? = none := by
    rw [Scan.span?, ended]
  rw [blanked_eq passes.stands, untilEnd_of_ended ended, blankedFrom, handed, blankedFrom,
    slice_append_end, List.append_nil, List.append_nil]

/-- What a scan passes is blanked out, what it reads stays unless it was unexpected, and the scans
after it see to the rest. -/
theorem Passes.blanked (passes : lexer.Passes before gap part after) (nonempty : part ≠ []) :
    lexer.blanked =
      blankOut lexer.settings.commentIndicator false gap ++
        ((if (reading (part ++ after)).finding.isUnexpected then [' '] else part) ++
          lexer.scanToken.lexer.blanked) := by
  have finds := mt passes.part_eq_nil_iff.2 nonempty
  have handed : (lexer.perform .token).span? = some (.over (before ++ gap) part) :=
    passes.span? finds
  have found : (lexer.perform .token).outcome.finding = _ := passes.finding
  have source : before ++ (gap ++ (part ++ after)) = before ++ gap ++ part ++ after := by
    simp only [List.append_assoc]
  have passed : slice (before ++ gap ++ part ++ after) (byteCount before)
      (byteCount before + byteCount gap) = gap := by
    rw [List.append_assoc (before ++ gap), slice_append]
  have read : slice (before ++ gap ++ part ++ after) (byteCount before + byteCount gap)
      (byteCount before + byteCount gap + byteCount part) = part := by
    rw [← byteCount_append, slice_append]
  rw [blanked_eq passes.stands, blanked_eq (passes.unmarked nonempty), scanToken_settings,
    untilEnd_of_yields (Scan.yields_of_span? handed), blankedFrom, handed, source]
  simp only [Span.start_over, Span.stop_over, found, read, byteCount_append, passed]
  rfl

/-- Blanking writes nothing but spaces, and none over the end of a line. -/
theorem overwritten_blanked {lexer : Lexer} {before unread : List Char}
    (stands : lexer.unmarked = .between before unread) :
    List.Forall₂ Overwritten unread lexer.blanked := by
  obtain ⟨gap, part, after, rfl, passes⟩ := exists_passes stands
  have indicator := endsLine_eq_false_of_solid lexer.valid.indicator_not_blank
  have layout := overwritten_blankOut indicator false gap
  by_cases ended : part = []
  · subst ended
    obtain rfl := passes.after_eq_nil
    rwa [passes.blanked_of_end, List.append_nil, List.append_nil]
  · have shorter := length_after_lt gap ended after
    have later := overwritten_blanked (passes.unmarked ended)
    rw [passes.blanked ended]
    refine List.rel_append layout (List.rel_append ?_ later)
    split
    · rename_i unexpected
      obtain ⟨c, rfl⟩ := part_of_unexpected passes.width unexpected
      have solid := passes.layout.head_solid c rfl
      exact .cons (.inr ⟨endsLine_eq_false_of_solid solid, rfl⟩) .nil
    · exact overwritten_refl part
termination_by unread.length

/-! ## Scans of the source with spaces -/

variable {near far : Lexer} {past space after' : List Char}

/-- Where blanks come before a part, and spaces behind it, the part is read as before. -/
theorem Passes.overwritten (passes : near.Passes before gap part after)
    (same : far.settings = near.settings)
    (expected : (reading (part ++ after)).finding.isUnexpected = false)
    (spaced : List.Forall₂ Overwritten after after') (blank : Blanks space)
    (there : far.unmarked = .between past (space ++ (part ++ after'))) :
    far.Passes past space part after' ∧
      (reading (part ++ after')).finding = (reading (part ++ after)).finding := by
  obtain ⟨finding, width⟩ := reading_overwritten passes.width expected spaced
  refine ⟨⟨there, ?_, width⟩, finding⟩
  rw [same]
  refine passes.layout.of_head_eq blank.layout ?_
  cases part with
  | nil =>
      obtain rfl := passes.after_eq_nil
      cases spaced with
      | nil => rfl
  | cons c part => rfl

theorem Passes.findsAlike (passes : near.Passes before gap part after)
    (passesToo : far.Passes past space part after')
    (found : (reading (part ++ after')).finding = (reading (part ++ after)).finding)
    (place : (Place.afterText {} (past ++ space)).lineColumn =
      (Place.afterText {} (before ++ gap)).lineColumn) :
    Scan.FindsAlike near.scanToken far.scanToken := by
  refine ⟨?_, ?_⟩
  · rw [passes.finding, passesToo.finding, found]
  · rw [passes.scanToken, passesToo.scanToken, found]
    cases (reading (part ++ after)).finding with
    | nothing => rfl
    | token | phrase | fault => exact congrArg some place

/-- `far` has some blanks ahead of it and then what is left for `near`, blanked. Behind its blanks
it stands in the line and column of `near`. -/
structure Follows (near far : Lexer) (before unread past space : List Char) : Prop where
  same : far.settings = near.settings
  here : near.unmarked = .between before unread
  there : far.unmarked = .between past (space ++ near.blanked)
  blank : Blanks space
  place : (Place.afterText {} (past ++ space)).lineColumn = (Place.afterText {} before).lineColumn

namespace Follows

/-- The blanks ahead take in the layout that the first lexer passes, blanked out. -/
theorem over_gap (follows : Follows near far before (gap ++ (part ++ after)) past space)
    (passes : near.Passes before gap part after) :
    Blanks (space ++ blankOut near.settings.commentIndicator false gap) ∧
      (Place.afterText {} (past ++ (space ++
          blankOut near.settings.commentIndicator false gap))).lineColumn =
        (Place.afterText {} (before ++ gap)).lineColumn := by
  have solid := near.valid.indicator_not_blank
  have spaced := overwritten_blankOut (endsLine_eq_false_of_solid solid) false gap
  refine ⟨follows.blank.append (blanks_blankOut solid passes.layout.final), ?_⟩
  rw [← List.append_assoc, Place.afterText_append _ (past ++ space),
    Place.afterText_append _ before]
  exact lineColumn_overwritten follows.place spaced

/-- What the first lexer reports as unexpected is one more blank for the second. -/
theorem of_unexpected (follows : Follows near far before (gap ++ (part ++ after)) past space)
    (passes : near.Passes before gap part after)
    (unexpected : (reading (part ++ after)).finding.isUnexpected = true) :
    Follows near.scanToken.lexer far (before ++ gap ++ part) after past
      (space ++ blankOut near.settings.commentIndicator false gap ++ [' ']) := by
  obtain ⟨wider, place⟩ := follows.over_gap passes
  obtain ⟨c, rfl⟩ := part_of_unexpected passes.width unexpected
  have there := follows.there
  rw [passes.blanked (List.cons_ne_nil c []), if_pos unexpected, ← List.append_assoc,
    ← List.append_assoc] at there
  have solid := passes.layout.head_solid c rfl
  have spaced : List.Forall₂ Overwritten [c] [' '] :=
    .cons (.inr ⟨endsLine_eq_false_of_solid solid, rfl⟩) .nil
  refine ⟨?_, passes.unmarked (List.cons_ne_nil c []), there, wider.append (by decide), ?_⟩
  · rw [follows.same, scanToken_settings]
  · rw [← List.append_assoc, Place.afterText_append, Place.afterText_append _ (before ++ gap)]
    exact lineColumn_overwritten place spaced

/-- Anything else both lexers find, and then the one still follows the other. -/
theorem of_expected (follows : Follows near far before (gap ++ (part ++ after)) past space)
    (passes : near.Passes before gap part after) (more : part ≠ [])
    (expected : (reading (part ++ after)).finding.isUnexpected = false) :
    Scan.FindsAlike near.scanToken far.scanToken ∧
      (far.perform .token).outcome ≠ .endOfInput ∧
      Follows near.scanToken.lexer far.scanToken.lexer (before ++ gap ++ part) after
        (past ++ (space ++ blankOut near.settings.commentIndicator false gap) ++ part) [] := by
  obtain ⟨wider, place⟩ := follows.over_gap passes
  have next := passes.unmarked more
  have there := follows.there
  rw [passes.blanked more, if_neg (by simp [expected]), ← List.append_assoc] at there
  obtain ⟨passesToo, found⟩ :=
    passes.overwritten follows.same expected (overwritten_blanked next) wider there
  refine ⟨passes.findsAlike passesToo found place, passesToo.yields_iff.2 more, ?_, next,
    passesToo.unmarked more, nofun, ?_⟩
  · rw [scanToken_settings, scanToken_settings, follows.same]
  · rw [List.append_nil, Place.afterText_append, Place.afterText_append _ (before ++ gap)]
    exact lineColumn_overwritten place (overwritten_refl part)

/-- Where the first lexer finds the end, the second has only blanks ahead of it. -/
theorem of_end (follows : Follows near far before (gap ++ ([] ++ after)) past space)
    (passes : near.Passes before gap [] after) :
    Scan.FindsAlike near.scanToken far.scanToken ∧
      (far.perform .token).outcome = .endOfInput := by
  obtain ⟨wider, place⟩ := follows.over_gap passes
  obtain rfl := passes.after_eq_nil
  have there := follows.there
  rw [passes.blanked_of_end, ← List.append_nil (blankOut _ _ _), ← List.append_assoc] at there
  obtain ⟨passesToo, found⟩ := passes.overwritten follows.same rfl .nil wider there
  exact ⟨passes.findsAlike passesToo found place,
    Outcome.finding_eq_nothing_iff.1 passesToo.finding⟩

/-- All token scans of the two find the same, the unexpected left out. -/
theorem untilEnd {near far : Lexer} {before unread past space : List Char}
    (follows : Follows near far before unread past space) :
    List.Forall₂ Scan.FindsAlike ((near.untilEnd .token).filter Scan.isExpected)
      (far.untilEnd .token) := by
  obtain ⟨gap, part, after, rfl, passes⟩ := exists_passes follows.here
  have isExpected : (near.perform .token).isExpected =
      !(reading (part ++ after)).finding.isUnexpected := by
    rw [Scan.isExpected, perform, passes.finding]
  by_cases ended : part = []
  · subst ended
    obtain ⟨alike, farEnd⟩ := follows.of_end passes
    obtain rfl := passes.after_eq_nil
    have nearEnd : (near.perform .token).outcome = .endOfInput :=
      Outcome.finding_eq_nothing_iff.1 passes.finding
    rw [untilEnd_of_ended nearEnd, untilEnd_of_ended farEnd,
      List.filter_cons_of_pos (isExpected.trans rfl), List.filter_nil]
    exact .cons alike .nil
  · have shorter := length_after_lt gap ended after
    rw [untilEnd_of_yields (passes.yields_iff.2 ended)]
    cases unexpected : (reading (part ++ after)).finding.isUnexpected with
    | true =>
        rw [List.filter_cons_of_neg (by rw [isExpected, unexpected]; decide)]
        exact (follows.of_unexpected passes unexpected).untilEnd
    | false =>
        obtain ⟨alike, yields, next⟩ := follows.of_expected passes ended unexpected
        rw [List.filter_cons_of_pos (by rw [isExpected, unexpected]; rfl),
          untilEnd_of_yields yields]
        exact .cons alike next.untilEnd
termination_by unread.length

end Follows

/-- **Comments and unexpected characters are as good as blanks.** Make all token scans of a source,
errors passed over, and put a space in place of each character of each comment between their spans
and of each character they find unexpected; nothing else changes. There is a lexer for the new
source as well, and all token scans of it find what those of the source find, in the same lines and
columns, without the scans that find something unexpected. -/
theorem untilEnd_blanked {text : List Char} {settings : Settings} {start : Lexer}
    (made : withSettings text settings = .ok start) :
    List.Forall₂ Overwritten text start.blankedText ∧
      ∃ blank, withSettings start.blankedText settings = .ok blank ∧
        List.Forall₂ Scan.FindsAlike ((start.untilEnd .token).filter Scan.isExpected)
          (blank.untilEnd .token) := by
  obtain ⟨unread, split, unmarked⟩ := unmarked_of_start (cursor_of_withSettings made)
  have kept := settings_of_withSettings made
  rw [kept] at split unmarked
  have source : start.blankedText = settings.skippedMark text ++ start.blanked := by
    rw [blankedText, unmarked, Cursor.behind_between, List.reverse_reverse]
  have spaced : List.Forall₂ Overwritten text start.blankedText := by
    have whole : List.Forall₂ Overwritten (settings.skippedMark text ++ unread)
        (settings.skippedMark text ++ start.blanked) :=
      List.rel_append (overwritten_refl _) (overwritten_blanked unmarked)
    rwa [← split, ← source] at whole
  obtain ⟨valid, -⟩ := eq_of_withSettings made
  have madeToo := withSettings_of_valid start.blankedText valid
  refine ⟨spaced, _, madeToo, ?_⟩
  obtain ⟨more, splitToo, unmarkedToo⟩ := unmarked_of_start (cursor_of_withSettings madeToo)
  have same : settings.skippedMark start.blankedText = settings.skippedMark text :=
    settings.skippedMark_overwritten spaced ⟨start.blanked, source.symm⟩
  rw [same] at splitToo unmarkedToo
  obtain rfl : more = start.blanked := List.append_cancel_left (splitToo.symm.trans source)
  have follows :
      Follows start _ (settings.skippedMark text) unread (settings.skippedMark text) [] :=
    ⟨kept.symm, unmarked, unmarkedToo, nofun, by rw [List.append_nil]⟩
  exact follows.untilEnd

/-- Characters that start nothing, between tokens and in the middle of an operator, comments of each
kind, and a string that stays open. -/
def spottedText : List Char :=
  "§*é \"\r\n<§=* *§\rA*\nB \"*§".toList

theorem spottedText_blanked :
    (ofText spottedText).blankedText = "     \r\n< =    \rA \nB \"*§".toList ∧
      ((ofText spottedText).untilEnd .token).map (·.outcome.finding) =
        [.fault (.unexpectedCharacter '§'), .token ⟨.operator, "<"⟩,
          .fault (.unexpectedCharacter '§'), .token ⟨.operator, "="⟩, .token ⟨.name, "A"⟩,
          .token ⟨.name, "B"⟩, .fault .unclosedString, .nothing] ∧
      List.Forall₂ Scan.FindsAlike
        (((ofText spottedText).untilEnd .token).filter Scan.isExpected)
        ((ofText "     \r\n< =    \rA \nB \"*§".toList).untilEnd .token) := by
  have text : (ofText spottedText).blankedText = "     \r\n< =    \rA \nB \"*§".toList := by
    decide
  obtain ⟨-, blank, made, alike⟩ := untilEnd_blanked (withSettings_ofText spottedText)
  rw [text] at made
  obtain rfl := Except.ok.inj ((withSettings_ofText _).symm.trans made)
  exact ⟨text, by decide, alike⟩

end Lexer

end CobolSource
