/-
# Proofs.SoundCuts — no cut of a source is unsound

`ByteLexer` cuts its source at bytes that it remembers, and a cut that is out of order, past the end
or inside a character would break the scan off. None ever is (`cuts_sound`): whatever the source,
the settings and the steps, every step has its answer, every cut on the way has its two bytes in
order, within the source and between two characters, and what is answered and told to the observer
is what `Session` says.

What carries this through is that the byte lexer mirrors the lexer (`ByteLexer.Mirrors`): it stands
in the source where the lexer stands in the text. That is so at the start, and each scan keeps it so
(`gives_scanToken`, `gives_scanPhrase`). A scan remembers bytes and cuts later; what it remembers is
always the byte count of a part of the source that it has read (`ReadsOff`).
-/
import CobolSource.Proofs.ByteMovement
import CobolSource.Proofs.Mark
import CobolSource.Proofs.PhraseScan

namespace CobolSource

set_option autoImplicit false

/-! ## What stands at the cursor -/

namespace Reading

/-- The same reading, of a text that has `more` characters in front. -/
def widened (more : Nat) : Reading → Reading
  | .nothing => .nothing
  | .token found width => .token found (width + more)
  | .fault failed width => .fault failed (width + more)

/-- What a string reads as from inside it on: its content so far is `content`, and `left` is ahead.
-/
def stringFrom (content left : List Char) : Reading :=
  match contentLength? left with
  | some n => .token ⟨.string, String.ofList (content ++ left.take n)⟩ (n + 1)
  | none => .fault .unclosedString left.length

theorem string_eq_stringFrom (rest : List Char) :
    string rest = (stringFrom [] rest).widened 1 := by
  rw [string, stringFrom]
  cases contentLength? rest <;> rfl

theorem stringFrom_quote (content rest : List Char) :
    stringFrom content (quote :: rest) = .token ⟨.string, String.ofList content⟩ 1 := by
  rw [stringFrom, contentLength?_quote]
  simp

theorem stringFrom_pair (content rest : List Char) :
    stringFrom content (escape :: quote :: rest) =
      (stringFrom (content ++ [escape, quote]) rest).widened 2 := by
  rw [stringFrom, stringFrom, contentLength?, if_neg (by decide), if_pos ⟨rfl, rfl⟩]
  cases contentLength? rest <;> simp [widened]

theorem stringFrom_single {c : Char} {rest : List Char} (plain : c ≠ quote)
    (single : ¬ (c = escape ∧ rest.head? = some quote)) (content : List Char) :
    stringFrom content (c :: rest) = (stringFrom (content ++ [c]) rest).widened 1 := by
  have count : contentLength? (c :: rest) = (contentLength? rest).map (· + 1) := by
    cases rest with
    | nil => exact if_neg plain
    | cons d more =>
        rw [List.head?_cons, Option.some.injEq] at single
        rw [contentLength?, if_neg plain, if_neg single]
  rw [stringFrom, stringFrom, count]
  cases contentLength? rest <;> simp [widened]

end Reading

namespace ByteLexer

open Logged ByteCursor

variable {source : String} {lexer : ByteLexer} {before text : List Char}

/-- A lexer that has read `before` reads off `text`, which comes next, what the reading says: it
gives the token, or it gives the error and reports it, and it has passed the reading's width. -/
def ReadsOff (source : String) (lexer : ByteLexer) (before text : List Char)
    (logged : Logged (Except ScanError Token × ByteLexer)) : Reading → Prop
  | .nothing => False
  | .token token width =>
      logged.Gives source (.ok token, lexer.standing (past source (before ++ text.take width))) []
  | .fault fault width =>
      let span := lexer.start.spanTo (byteCount (before ++ text.take width))
      logged.Gives source
        (.error ⟨fault, span⟩, lexer.standing (past source (before ++ text.take width)))
        [.atSpan (.error fault.message) span]

theorem gives_report (error : ScanError) :
    (report error).Gives source error [.atSpan (.error error.fault.message) error.span] :=
  (gives_emit _).bind_silent (gives_pure _)

theorem readsOff_tokenFrom (split : source.toList = before ++ text) (kind : TokenKind)
    (width : Nat) :
    ReadsOff source lexer before text
      ((lexer.standing (past source (before ++ text.take width))).tokenFrom kind (byteCount before))
      (.head kind width text) := by
  have parts : source.toList = before ++ text.take width ++ text.drop width := by
    rw [List.append_assoc, List.take_append_drop, split]
  exact (gives_cutFrom parts).bind (gives_pure _)

section Read

variable (stands : lexer.cursor = past source before)

include stands

theorem readsOff_readRun (split : source.toList = before ++ text) (kind : TokenKind)
    (test : Char → Bool) :
    ReadsOff source lexer before text (lexer.readRun kind test) (.run kind test text) := by
  have toEnd := gives_stepWhile split test
  rw [← take_length_takeWhile] at toEnd
  rw [readRun, stands, offset_past]
  exact toEnd.bind (readsOff_tokenFrom split kind _)

theorem readsOff_readPunctuation {c : Char} {rest : List Char}
    (split : source.toList = before ++ c :: rest) :
    ReadsOff source lexer before (c :: rest) lexer.readPunctuation
      (.head .punctuation 1 (c :: rest)) := by
  rw [readPunctuation, stands, offset_past]
  exact (gives_step split).bind (readsOff_tokenFrom split .punctuation 1)

theorem readsOff_readOperator {c : Char} {rest : List Char}
    (split : source.toList = before ++ c :: rest) :
    ReadsOff source lexer before (c :: rest) lexer.readOperator
      (.head .operator (operatorWidth (c :: rest)) (c :: rest)) := by
  rw [readOperator, stands, offset_past]
  exact (gives_stepOverOperator split).bind (readsOff_tokenFrom split .operator _)

theorem readsOff_readUnexpected {c : Char} {rest : List Char}
    (split : source.toList = before ++ c :: rest) :
    ReadsOff source lexer before (c :: rest) (lexer.readUnexpected c)
      (.fault (.unexpectedCharacter c) 1) := by
  have covered : (lexer.standing (past source (before ++ [c]))).span =
      lexer.start.spanTo (byteCount (before ++ (c :: rest).take 1)) := by
    rw [span, standing, offset_past]
    rfl
  rw [readUnexpected, stands]
  refine (gives_step split).bind ?_
  dsimp only
  rw [covered]
  exact (gives_report _).bind_silent (gives_pure _)

end Read

/-- What is passed first is passed without a word, and then it is as if the text began after it. -/
theorem ReadsOff.widened {part rest : List Char}
    {logged later : Logged (Except ScanError Token × ByteLexer)} {read : Reading}
    (reads : ReadsOff source lexer (before ++ part) rest later read)
    (goesOn : ∀ value events, later.Gives source value events →
      logged.Gives source value events) :
    ReadsOff source lexer before (part ++ rest) logged (read.widened part.length) := by
  have cut (width : Nat) : before ++ (part ++ rest).take (width + part.length) =
      before ++ part ++ rest.take width := by
    rw [Nat.add_comm, List.take_length_add_append, List.append_assoc]
  cases read with
  | nothing => exact reads.elim
  | token found width =>
      rw [Reading.widened, ReadsOff, cut]
      exact goesOn _ _ reads
  | fault failed width =>
      rw [Reading.widened, ReadsOff, cut]
      exact goesOn _ _ reads

/-- A character that does not close a string is passed with the quote it may keep from closing it,
and what the rest reads as is then known. -/
theorem exists_inside {c : Char} {rest : List Char} (plain : c ≠ quote)
    (split : source.toList = before ++ c :: rest) :
    ∃ part left, c :: rest = part ++ left ∧ part ≠ [] ∧
      (∀ content, Reading.stringFrom content (c :: rest) =
        (Reading.stringFrom (content ++ part) left).widened part.length) ∧
      ((past source before).stepInside c).Gives source (past source (before ++ part)) [] := by
  have next : source.toList = before ++ [c] ++ rest := by rw [split, List.append_cons]
  rw [stepInside]
  by_cases pair : c = escape ∧ rest.head? = some quote
  · obtain ⟨rfl, quoted⟩ := pair
    obtain ⟨left, rfl⟩ := List.head?_eq_some_iff.1 quoted
    refine ⟨[escape, quote], left, rfl, List.cons_ne_nil _ _,
      fun content => Reading.stringFrom_pair content left, (gives_step split).bind ?_⟩
    have passed : before ++ [escape, quote] = before ++ [escape] ++ [quote] := by simp
    dsimp only
    rw [if_pos rfl, passed]
    exact (gives_stepOver next).bind (gives_pure _)
  · refine ⟨[c], rest, rfl, List.cons_ne_nil _ _,
      fun content => Reading.stringFrom_single plain pair content, (gives_step split).bind ?_⟩
    dsimp only
    by_cases escapes : c = escape
    · rw [if_pos escapes]
      exact (gives_stepOver_other next fun quoted => pair ⟨escapes, quoted⟩).bind (gives_pure _)
    · rw [if_neg escapes]
      exact gives_pure _

/-- The induction is on what is ahead. A quote right after a backslash is passed together with it,
so the loop never meets it. -/
theorem readsOff_readContent {far : List Char} : ∀ {content left : List Char} (lexer : ByteLexer),
    lexer.cursor = past source (far ++ content) → source.toList = far ++ content ++ left →
      ReadsOff source lexer (far ++ content) left (lexer.readContent (byteCount far))
        (.stringFrom content left)
  | content, [], lexer, stands, split => by
      have still : lexer.standing (past source (far ++ content)) = lexer := by
        rw [← stands]
        rfl
      have covered : lexer.span = lexer.start.spanTo (byteCount (far ++ content)) := by
        rw [span, stands, offset_past]
      rw [Reading.stringFrom, contentLength?, ReadsOff, List.take_nil, List.append_nil, still,
        ← covered, readContent, stands]
      exact (gives_look split).bind ((gives_report _).bind_silent (gives_pure _))
  | content, c :: rest, lexer, stands, split => by
      rw [readContent, stands]
      by_cases closes : c = quote
      · subst closes
        rw [Reading.stringFrom_quote]
        exact (gives_look split).bind ((gives_cutFrom split).bind
          ((gives_step split).bind (gives_pure _)))
      · obtain ⟨part, left, same, nonempty, reads, inside⟩ := exists_inside closes split
        have later : source.toList = far ++ (content ++ part) ++ left := by
          rw [split, same, List.append_assoc, List.append_assoc, List.append_assoc]
        have shorter : left.length ≤ rest.length := by
          have counts := congrArg List.length same
          have some := List.length_pos_iff.2 nonempty
          rw [List.length_cons, List.length_append] at counts
          omega
        have goesOn := readsOff_readContent
          (lexer.standing (past source (far ++ (content ++ part)))) rfl later
        rw [← List.append_assoc] at goesOn
        rw [reads, same]
        refine goesOn.widened fun value events gives => (gives_look split).bind ?_
        dsimp only [List.head?_cons]
        rw [if_neg closes]
        exact inside.bind gives
termination_by _ left => left.length

theorem readsOff_readString {rest : List Char} (stands : lexer.cursor = past source before)
    (split : source.toList = before ++ quote :: rest) :
    ReadsOff source lexer before (quote :: rest) lexer.readString (.string rest) := by
  have opened : source.toList = before ++ [quote] ++ [] ++ rest := by simp [split]
  have content := readsOff_readContent (lexer.standing (past source (before ++ [quote] ++ [])))
    rfl opened
  rw [List.append_nil] at content
  rw [readString, stands, Reading.string_eq_stringFrom, ← List.singleton_append]
  refine content.widened fun value events gives => (gives_step split).bind ?_
  dsimp only
  rw [offset_past]
  exact gives

theorem readsOff_read {c : Char} {rest : List Char}
    (stands : lexer.cursor = past source before) (split : source.toList = before ++ c :: rest) :
    ReadsOff source lexer before (c :: rest) (lexer.read c) (reading (c :: rest)) := by
  rw [read, reading]
  split_ifs
  · exact readsOff_readRun stands split .name continuesName
  · exact readsOff_readRun stands split .integer Char.isDigit
  · rename_i opens
    subst opens
    exact readsOff_readString stands split
  · exact readsOff_readPunctuation stands split
  · exact readsOff_readOperator stands split
  · exact readsOff_readUnexpected stands split

/-! ## Scans -/

/-- The two lexers have been made and asked alike, wherever they stand. -/
structure Agrees (bytes : ByteLexer) (lexer : Lexer) : Prop where
  settings_eq : bytes.settings = lexer.settings
  latest_eq : bytes.latest = lexer.latest
  stopped_eq : bytes.stopped = lexer.stopped

/-- The byte lexer stands in `source` where the lexer stands in its text, and the two agree. -/
structure Mirrors (source : String) (bytes : ByteLexer) (lexer : Lexer) : Prop
    extends Agrees bytes lexer where
  stands : ∃ before after, source.toList = before ++ after ∧
    lexer.cursor = .between before after ∧ bytes.cursor = past source before
  /-- Once a mark has been looked for, there is none left to skip. -/
  unmarked : bytes.markChecked = true → lexer.unmarked = lexer.cursor

variable {bytes : ByteLexer} {lexer : Lexer}

/-- A scan starts to read where the lexer's does. The byte lexer remembers that it has looked for a
mark, and the lexer, which looks each time, then finds none. -/
theorem exists_unmarked (mirrors : Mirrors source bytes lexer) :
    ∃ before unread, source.toList = before ++ unread ∧ lexer.unmarked = .between before unread ∧
      bytes.checkMark.Gives source
        { bytes with cursor := past source before, markChecked := true } [] := by
  obtain ⟨before, after, split, lexerStands, stands⟩ := mirrors.stands
  rw [checkMark]
  cases checked : bytes.markChecked with
  | true =>
      refine ⟨before, after, split, (mirrors.unmarked checked).trans lexerStands, ?_⟩
      rw [← stands, ← checked, if_pos rfl]
      exact gives_pure _
  | false =>
      have atStart : (bytes.cursor.place.offset == 0) = lexer.cursor.atStart := by
        rw [stands, offset_past, lexerStands, Cursor.atStart_between]
        cases before with
        | nil => rfl
        | cons c before =>
            have size := byteCount_pos (List.cons_ne_nil c before)
            rw [List.isEmpty_cons, beq_eq_false_iff_ne]
            omega
      rw [if_neg Bool.false_ne_true, mirrors.settings_eq, atStart, stands, Lexer.unmarked,
        Cursor.accept?, Cursor.current?, lexerStands, Cursor.ahead_between]
      by_cases looks :
          (lexer.settings.skipMark && (Cursor.between before after).atStart) = true
      · rw [if_pos looks, if_pos looks]
        by_cases marked : after.head? = some byteOrderMark
        · obtain ⟨unread, rfl⟩ := List.head?_eq_some_iff.1 marked
          rw [if_pos marked]
          exact ⟨before ++ [byteOrderMark], unread, by rw [split, List.append_cons],
            Cursor.advanceBy_between 1 before _, (gives_stepOver split).bind (gives_pure _)⟩
        · rw [if_neg marked]
          exact ⟨before, after, split, rfl,
            (gives_stepOver_other split marked).bind (gives_pure _)⟩
      · rw [if_neg looks, if_neg looks]
        refine ⟨before, after, split, rfl, ?_⟩
        rw [← stands]
        exact gives_pure _

/-- Where the byte lexer has nothing left to pass over, it scans the token that the reading says. -/
theorem gives_scanSolid (agrees : Agrees bytes lexer) {part after : List Char}
    (stands : bytes.cursor = past source before) (split : source.toList = before ++ (part ++ after))
    (width : (reading (part ++ after)).width = part.length) {scan : Scan}
    (scanned : scan = lexer.conclude (.between (before ++ part) after) (.over before part)
      (reading (part ++ after)).finding) :
    ∃ result left, bytes.scanSolid.Gives source (result, left) scan.events ∧
      Outcome.ofTokenScan result = scan.outcome ∧ Agrees left scan.lexer ∧
      left.cursor = past source (before ++ part) := by
  subst scanned
  have look := gives_look split
  rw [← stands] at look
  cases text : part ++ after with
  | nil =>
      obtain ⟨rfl, rfl⟩ := List.append_eq_nil_iff.1 text
      refine ⟨.ok none, { bytes.starting with latest := none },
        look.bind (gives_pure _), rfl, ⟨agrees.settings_eq, rfl, agrees.stopped_eq⟩, ?_⟩
      rw [List.append_nil]
      exact stands
  | cons c rest =>
      rw [text] at split width look
      have reads : ReadsOff source bytes.starting before (c :: rest) (bytes.starting.read c) _ :=
        readsOff_read stands split
      have covered :
          bytes.starting.start.spanTo (byteCount (before ++ part)) = .over before part := by
        rw [starting, stands, byteCount_append]
        rfl
      cases read : reading (c :: rest) with
      | nothing => exact absurd (reading_nothing_iff.1 read) (List.cons_ne_nil c rest)
      | token found w =>
          rw [read] at reads width
          obtain rfl : w = part.length := width
          have spanned : (bytes.starting.standing (past source (before ++ part))).span =
              .over before part := by
            rw [span, standing, offset_past, covered]
          rw [ReadsOff, ← text, List.take_left] at reads
          refine ⟨.ok (some found), { bytes.starting.standing (past source (before ++ part)) with
              latest := some (.over before part) }, look.bind (reads.bind ?_), rfl,
            ⟨agrees.settings_eq, rfl, agrees.stopped_eq⟩, rfl⟩
          dsimp only
          rw [spanned]
          exact (gives_emit _).bind_silent (gives_pure _)
      | fault failed w =>
          rw [read] at reads width
          obtain rfl : w = part.length := width
          rw [ReadsOff, ← text, List.take_left, covered] at reads
          exact ⟨.error ⟨failed, .over before part⟩,
            bytes.starting.standing (past source (before ++ part)),
            look.bind (reads.bind_silent (gives_pure _)), rfl,
            ⟨agrees.settings_eq, agrees.latest_eq, agrees.stopped_eq⟩, rfl⟩

theorem gives_scanToken (mirrors : Mirrors source bytes lexer) :
    ∃ result left, bytes.scanToken.Gives source (result, left) lexer.scanToken.events ∧
      Outcome.ofTokenScan result = lexer.scanToken.outcome ∧
      Mirrors source left lexer.scanToken.lexer := by
  obtain ⟨before, unread, split, unmarked, checked⟩ := exists_unmarked mirrors
  obtain ⟨gap, part, after, rfl, passes⟩ := Lexer.exists_passes unmarked
  have noMark : lexer.scanToken.lexer.unmarked = lexer.scanToken.lexer.cursor :=
    lexer.unmarked_of_scans (by decide : Call.token ≠ .pull)
  have layout := gives_stepOverLayout lexer.settings.commentIndicator split
  rw [layoutLength_layoutBefore lexer.valid.indicator_not_blank passes.layout, List.take_left,
    ← mirrors.settings_eq] at layout
  rw [← List.append_assoc] at split
  have solid :
      Agrees { bytes with cursor := past source (before ++ gap), markChecked := true } lexer :=
    ⟨mirrors.settings_eq, mirrors.latest_eq, mirrors.stopped_eq⟩
  obtain ⟨result, left, gives, same, agrees, stands⟩ :=
    gives_scanSolid solid rfl split passes.width passes.scanToken
  rw [← List.append_assoc] at split
  exact ⟨result, left, checked.bind (layout.bind gives), same, agrees,
    ⟨before ++ gap ++ part, after, split, passes.cursor, stands⟩, fun _ => noMark⟩

theorem gives_scanPhrase (mirrors : Mirrors source bytes lexer) :
    ∃ result left, bytes.scanPhrase.Gives source (result, left) lexer.scanPhrase.events ∧
      Outcome.ofPhraseScan result = lexer.scanPhrase.outcome ∧
      Mirrors source left lexer.scanPhrase.lexer := by
  obtain ⟨before, unread, split, unmarked, checked⟩ := exists_unmarked mirrors
  have noMark : lexer.scanPhrase.lexer.unmarked = lexer.scanPhrase.lexer.cursor :=
    lexer.unmarked_of_scans (by decide : Call.phrase ≠ .pull)
  rw [scanPhrase]
  rcases exists_phraseBefore unread with blank | ⟨gap, phrase, trail, rest, rfl, blank, next⟩
  · have atEnd : source.toList = before ++ unread ++ [] := by rw [List.append_nil, split]
    rw [Lexer.scanPhrase_of_blanks unmarked blank] at noMark ⊢
    refine ⟨none, { bytes with
        cursor := past source (before ++ unread), markChecked := true, latest := none },
      checked.bind ((gives_stepOverBlanks atEnd blank nofun).bind ?_), rfl, ?_⟩
    · rw [atEnd_past atEnd, List.isEmpty_nil, if_pos rfl]
      exact gives_pure _
    · exact ⟨⟨mirrors.settings_eq, rfl, mirrors.stopped_eq⟩,
        ⟨before ++ unread, [], atEnd, rfl, rfl⟩, fun _ => noMark⟩
  · have start : source.toList = before ++ gap ++ (phrase ++ (trail ++ rest)) := by
      rw [split, List.append_assoc before]
    have body : source.toList = before ++ gap ++ (phrase ++ trail) ++ rest := by
      rw [start, List.append_assoc (before ++ gap), List.append_assoc phrase]
    have left : source.toList =
        before ++ gap ++ phrase ++ trail ++ rest.take 1 ++ rest.drop 1 := by
      rw [List.append_assoc _ (rest.take 1), List.take_append_drop, body,
        List.append_assoc _ phrase]
    have more : ¬ (past source (before ++ gap)).atEnd = true := by
      rw [atEnd_past start, List.isEmpty_iff]
      exact next.ne_nil
    rw [Lexer.scanPhrase_of_phraseBefore unmarked blank next] at noMark ⊢
    refine ⟨some (String.ofList phrase), { bytes with
        cursor := past source (before ++ gap ++ phrase ++ trail ++ rest.take 1)
        markChecked := true
        start := (past source (before ++ gap)).place
        latest := some (.over (before ++ gap) phrase) },
      checked.bind ((gives_stepOverBlanks start blank next.solid).bind ?_), rfl, ?_⟩
    · rw [if_neg more, offset_past]
      refine (gives_stepOverBody_phraseBefore start next).bind ((gives_cut_part body).bind ?_)
      rw [trimEnd_append next.isPhrase.last_solid next.blanks]
      exact (gives_emit _).bind_silent (gives_pure _)
    · exact ⟨⟨mirrors.settings_eq, rfl, mirrors.stopped_eq⟩, ⟨_, _, left, rfl, rfl⟩,
        fun _ => noMark⟩

theorem Mirrors.withStopped (mirrors : Mirrors source bytes lexer) (stopped : Bool) :
    Mirrors source { bytes with stopped } (lexer.withStopped stopped) :=
  ⟨⟨mirrors.settings_eq, mirrors.latest_eq, rfl⟩, mirrors.stands, mirrors.unmarked⟩

theorem gives_pull (mirrors : Mirrors source bytes lexer) :
    ∃ result left, bytes.pull.Gives source (result, left) lexer.pull.events ∧
      Outcome.ofTokenScan result = lexer.pull.outcome ∧ Mirrors source left lexer.pull.lexer := by
  rw [pull, mirrors.stopped_eq]
  cases stopped : lexer.stopped with
  | true =>
      rw [if_pos rfl, Lexer.pull_of_stopped stopped]
      exact ⟨.ok none, bytes, gives_pure _, rfl, mirrors⟩
  | false =>
      obtain ⟨result, left, gives, same, after⟩ := gives_scanToken mirrors
      rw [if_neg Bool.false_ne_true, Lexer.pull_eq_withStopped stopped]
      cases result with
      | error failed =>
          rw [← same]
          exact ⟨.error failed, { left with stopped := true },
            gives.bind_silent (gives_pure _), same, after.withStopped true⟩
      | ok found =>
          have sound : lexer.scanToken.outcome.finding.isFault = false := by
            rw [← same]
            cases found <;> rfl
          have still : lexer.scanToken.lexer.withStopped false = lexer.scanToken.lexer :=
            Lexer.withStopped_self (lexer.scanToken_stopped.trans stopped)
          rw [sound, Scan.withStopped, still]
          exact ⟨.ok found, left, gives.bind_silent (gives_pure _), same, after⟩

theorem gives_perform (mirrors : Mirrors source bytes lexer) (call : Call) :
    ∃ left, (bytes.perform call).Gives source ((lexer.perform call).outcome, left)
        (lexer.perform call).events ∧
      Mirrors source left (lexer.perform call).lexer := by
  cases call with
  | token =>
      obtain ⟨result, left, gives, same, after⟩ := gives_scanToken mirrors
      rw [Lexer.perform, ← same]
      exact ⟨left, gives.bind_silent (gives_pure _), after⟩
  | phrase =>
      obtain ⟨result, left, gives, same, after⟩ := gives_scanPhrase mirrors
      rw [Lexer.perform, ← same]
      exact ⟨left, gives.bind_silent (gives_pure _), after⟩
  | pull =>
      obtain ⟨result, left, gives, same, after⟩ := gives_pull mirrors
      rw [Lexer.perform, ← same]
      exact ⟨left, gives.bind_silent (gives_pure _), after⟩

/-- The induction is on what is ahead: a pull that yields a token reads something. -/
theorem gives_allTokens {bytes : ByteLexer} {lexer : Lexer} (mirrors : Mirrors source bytes lexer) :
    bytes.allTokens.Gives source lexer.allTokens lexer.allTokensEvents := by
  obtain ⟨result, left, gives, same, after⟩ := gives_pull mirrors
  rw [allTokens]
  cases result with
  | error failed =>
      have failed := same.symm
      rw [Lexer.allTokens_of_pull_error failed, Lexer.allTokensEvents_of_pull_error failed]
      exact gives.bind_silent (gives_pure _)
  | ok found =>
      cases found with
      | none =>
          have ended := same.symm
          rw [Lexer.allTokens_of_pull_end ended, Lexer.allTokensEvents_of_pull_end ended]
          exact gives.bind_silent (gives_pure _)
      | some token =>
          have found := same.symm
          have yields : lexer.pull.outcome ≠ .endOfInput := by
            rw [found]
            nofun
          have shorter := Lexer.pull_progress yields
          rw [Lexer.allTokens_of_pull_token found, Lexer.allTokensEvents_of_pull_yields yields]
          exact gives.append ((gives_allTokens after).bind_silent (gives_pure _))
termination_by lexer.cursor.ahead.length

end ByteLexer

/-! ## Sessions -/

namespace ByteSession

open Logged

variable {source : String}

/-- The two sessions stand alike, and so do the lexers that are set aside in them. -/
structure Mirrors (source : String) (bytes : ByteSession) (session : Session) : Prop where
  current : bytes.current.Mirrors source session.current
  saved : List.Forall₂ (ByteLexer.Mirrors source) bytes.saved session.saved

/-- A step's answer from the bytes is the one from the characters, and its cuts are sound. -/
structure Mirrored (source : String) (answer : Reply × Log × ByteSession)
    (told : Reply × List Event × Session) : Prop where
  reply_eq : answer.1 = told.1
  events_eq : answer.2.1.events = told.2.1
  sound : ∀ cut ∈ answer.2.1.cuts, cut.Sound source
  mirrors : answer.2.2.Mirrors source told.2.2

theorem gives_step {bytes : ByteSession} {session : Session}
    (mirrors : bytes.Mirrors source session) (step : Step) :
    ∃ left, (bytes.step step).Gives source ((session.step step).1, left) (session.step step).2.1 ∧
      Mirrors source left (session.step step).2.2 := by
  cases step with
  | call call =>
      obtain ⟨left, gives, after⟩ := ByteLexer.gives_perform mirrors.current call
      exact ⟨bytes.update left, gives.bind_silent (gives_pure _), after, mirrors.saved⟩
  | allTokens =>
      have gives := ByteLexer.gives_allTokens mirrors.current
      exact ⟨bytes, gives.bind_silent (gives_pure _), mirrors⟩
  | settings =>
      refine ⟨bytes, ?_, mirrors⟩
      rw [ByteSession.step, mirrors.current.settings_eq]
      exact gives_pure _
  | save => exact ⟨bytes.save, gives_pure _, mirrors.current, .cons mirrors.current mirrors.saved⟩
  | restore =>
      obtain ⟨bytesCurrent, bytesSaved⟩ := bytes
      obtain ⟨current, saved⟩ := session
      cases mirrors.saved with
      | nil => exact ⟨⟨bytesCurrent, []⟩, gives_pure _, mirrors⟩
      | cons last earlier => exact ⟨⟨_, _⟩, gives_pure _, last, earlier⟩

theorem transcript_mirrors {bytes : ByteSession} {session : Session}
    (mirrors : bytes.Mirrors source session) (steps : List Step) :
    ∃ answers, bytes.transcript steps = some answers ∧
      List.Forall₂ (Mirrored source) answers (session.transcript steps) := by
  induction steps generalizing bytes session with
  | nil => exact ⟨[], rfl, .nil⟩
  | cons step steps ih =>
      obtain ⟨left, gives, after⟩ := gives_step mirrors step
      obtain ⟨cuts, sound, ran⟩ := gives {}
      obtain ⟨answers, others, alike⟩ := ih after
      refine ⟨((session.step step).1, ⟨cuts, (session.step step).2.1⟩, left) :: answers, ?_,
        .cons ⟨rfl, rfl, sound, after⟩ alike⟩
      simp [transcript, ran, others]

theorem mirrors_of_withSettings {settings : Settings} {start : Lexer}
    (made : Lexer.withSettings source.toList settings = .ok start) :
    ∃ bytes, ByteLexer.withSettings source settings = .ok bytes ∧
      bytes.Mirrors source start := by
  obtain ⟨valid, rfl⟩ := Lexer.eq_of_withSettings made
  refine ⟨{ cursor := { source }, settings }, ?_,
    ⟨rfl, rfl, rfl⟩, ⟨[], source.toList, rfl, rfl, rfl⟩, nofun⟩
  rw [ByteLexer.withSettings, Settings.validate_eq_ok_iff.2 valid]
  rfl

/-- Made of the same source, the two sessions answer alike from the start. -/
theorem exists_transcript {settings : Settings} {start : Lexer}
    (made : Lexer.withSettings source.toList settings = .ok start) (steps : List Step) :
    ∃ bytes answers, ByteLexer.withSettings source settings = .ok bytes ∧
      transcript ⟨bytes, []⟩ steps = some answers ∧
      List.Forall₂ (Mirrored source) answers (Session.transcript ⟨start, []⟩ steps) := by
  obtain ⟨bytes, bytesMade, mirrors⟩ := mirrors_of_withSettings made
  have both : Mirrors source ⟨bytes, []⟩ ⟨start, []⟩ := ⟨mirrors, .nil⟩
  obtain ⟨answers, ran, alike⟩ := transcript_mirrors both steps
  exact ⟨bytes, answers, bytesMade, ran, alike⟩

/-- **No cut is unsound.** Whatever the source, the settings and the steps that are taken, tokens
and phrases scanned and pulled, all the tokens asked for, and lexers set aside and come back to in
any order, every step has an answer: no loop goes on for ever and no cut is without one. Each cut
that is made on the way starts no later than it stops, stops within the source, and does both
between two characters or at an end. And the answers, the events and the lexers left are those of
the session that reads characters. -/
theorem cuts_sound {source : String} {settings : Settings} {start : Lexer}
    (made : Lexer.withSettings source.toList settings = .ok start) (steps : List Step) :
    ∃ bytes answers, ByteLexer.withSettings source settings = .ok bytes ∧
      transcript ⟨bytes, []⟩ steps = some answers ∧
      (∀ answer ∈ answers, ∀ cut ∈ answer.2.1.cuts, cut.Sound source) ∧
      List.Forall₂ (Mirrored source) answers (Session.transcript ⟨start, []⟩ steps) := by
  obtain ⟨bytes, answers, bytesMade, ran, alike⟩ := exists_transcript made steps
  exact ⟨bytes, answers, bytesMade, ran, (List.forall₂_and_left answers _).1
    (alike.imp fun _ _ mirrored => ⟨mirrored.sound, mirrored⟩)⟩

/-- A mark, a string, and characters of two, three and four bytes. -/
def unevenText : String :=
  "\uFEFF\"é\\\"ñ\" 😀 漢字. A≥B"

/-- A token, then an error and a phrase, then all of it again from the token on, and a phrase. -/
theorem unevenText_cuts_sound : ∃ bytes answers,
    ByteLexer.withSettings unevenText {} = .ok bytes ∧
      transcript ⟨bytes, []⟩ [.call .token, .save, .call .pull, .call .phrase, .restore, .allTokens,
        .call .phrase] = some answers ∧
      (∀ answer ∈ answers, ∀ cut ∈ answer.2.1.cuts, cut.Sound unevenText) ∧
      answers.flatMap (·.2.1.events) =
        [⟨.token ⟨.string, "é\\\"ñ"⟩, 1, 2⟩,
          ⟨.error "unexpected '😀'", 1, 9⟩, ⟨.phrase "漢字", 1, 11⟩,
          ⟨.error "unexpected '😀'", 1, 9⟩, ⟨.phrase "😀 漢字", 1, 9⟩] := by
  obtain ⟨bytes, answers, made, ran, sound, alike⟩ :=
    cuts_sound (Lexer.withSettings_ofText unevenText.toList) [.call .token, .save, .call .pull,
      .call .phrase, .restore, .allTokens, .call .phrase]
  refine ⟨bytes, answers, made, ran, sound, ?_⟩
  have events := List.forall₂_map_left_iff.2 (List.forall₂_map_right_iff.2
    (alike.imp fun _ _ mirrored => mirrored.events_eq))
  rw [List.forall₂_eq_eq_eq] at events
  rw [List.flatMap_def, events]
  decide

end ByteSession

end CobolSource
