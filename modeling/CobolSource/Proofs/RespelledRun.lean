/-
# Proofs.RespelledRun — a respelled source is read as the source is

A `Respelling` is a way to spell every text otherwise so that it reads alike. It need not go
character by character, since it may make one line end of two; but a text that is cut anywhere else
than between two line ends is respelled part by part (`Parted`), and no scan stops there. So what a
scan passes of a source and what it reads are respelled each for itself
(`Respelling.exists_readsAlike`).

Take two lexers, one for a source and one for its respelling, that have read the same part of it
(`Lexer.Respelt`). Whatever call is made on both, they find the same, its text respelled, over the
same part of the source, and stand alike again (`Lexer.Respelt.perform`, `Lexer.Respelt.run`). Where
the respelling puts things is not said here: spans and cursors are given by the parts of the source,
and each respelling has its own way to count them.
-/
import CobolSource.Proofs.Pulling
import CobolSource.Proofs.Respelling
import Mathlib.Data.List.Forall2

namespace CobolSource

set_option autoImplicit false

/-! ## Respelling part by part -/

/-- A text that is cut here is not cut between two line ends. -/
def Parted (before after : List Char) : Prop :=
  ∀ c ∈ before.getLast?, ∀ d ∈ after.head?, endsLine c = true → endsLine d = false

namespace Parted

variable {before part after : List Char}

theorem of_head (solid : ∀ d ∈ after.head?, endsLine d = false) : Parted before after :=
  fun _ _ d among _ => solid d among

theorem of_last (solid : ∀ c ∈ before.getLast?, endsLine c = false) : Parted before after := by
  intro c last d _ ends
  rw [solid c last] at ends
  cases ends

theorem nil_left : Parted [] after := nofun

theorem left (parted : Parted before (part ++ after)) : Parted before part :=
  fun c last d head => parted c last d (List.mem_head?_append_of_mem_head? head)

theorem append (parted : Parted before (part ++ after)) (next : Parted part after) :
    Parted (before ++ part) after := by
  intro c last d head
  cases part with
  | nil =>
      rw [List.append_nil] at last
      exact parted c last d head
  | cons e part =>
      rw [List.getLast?_append_of_ne_nil before (List.cons_ne_nil e part)] at last
      exact next c last d head

end Parted

/-- A way to spell every text otherwise so that it reads alike. -/
structure Respelling where
  apply : List Char → List Char
  respelled : ∀ text, Respelled text (apply text)
  apply_append : ∀ {before after}, Parted before after →
    apply (before ++ after) = apply before ++ apply after

/-- Each character spelled otherwise by itself. -/
def Respelling.ofMap (spell : Char → Char) (alike : ∀ c, Alike c (spell c)) : Respelling where
  apply := List.map spell
  respelled text := by
    induction text with
    | nil => exact .nil
    | cons c rest ih => exact .cons (alike c) ih
  apply_append _ := List.map_append

def Token.respell (spelling : Respelling) (token : Token) : Token :=
  ⟨token.kind, String.ofList (spelling.apply token.value.toList)⟩

/-- What is found is respelled if it is text. -/
def Finding.respell (spelling : Respelling) : Finding → Finding
  | .token found => .token (found.respell spelling)
  | .phrase text => .phrase (String.ofList (spelling.apply text.toList))
  | .fault failed => .fault failed
  | .nothing => .nothing

theorem Finding.isFault_respell (spelling : Respelling) (finding : Finding) :
    (finding.respell spelling).isFault = finding.isFault := by
  cases finding <;> rfl

/-- No value but that of a string has a blank in it. -/
theorem TokenKind.Admits.solid {kind : TokenKind} {value : List Char} (admitted : kind.Admits value)
    (plain : kind ≠ .string) : ∀ c ∈ value, isBlank c = false := by
  cases kind with
  | name =>
      cases value with
      | nil => nofun
      | cons c rest =>
          refine List.forall_mem_cons.2 ⟨?_, fun d among => ?_⟩
          · exact isBlank_eq_false_of_continuesName (continuesName_of_startsName admitted.1)
          · apply isBlank_eq_false_of_continuesName
            simpa [continuesName] using admitted.2 d among
  | integer =>
      exact fun c among =>
        isBlank_eq_false_of_continuesName (continuesName_of_isDigit (admitted.2 c among))
  | string => exact absurd rfl plain
  | punctuation =>
      simp only [Admits, List.mem_cons, List.not_mem_nil, or_false] at admitted
      rcases admitted with rfl | rfl | rfl | rfl <;> simp [isBlank]
  | operator =>
      simp only [Admits, List.mem_cons, List.not_mem_nil, or_false] at admitted
      rcases admitted with rfl | rfl | rfl | rfl | rfl <;> simp [isBlank]

/-- No token ends with the end of a line. -/
theorem Token.WellFormed.last_written {token : Token} (formed : token.WellFormed) :
    ∀ c ∈ token.written.toList.getLast?, endsLine c = false := by
  intro c last
  rw [toList_written] at last
  by_cases string : token.kind = .string
  · rw [string, TokenKind.lexeme, ← List.cons_append, List.getLast?_concat] at last
    cases last
    decide
  · have same : token.kind.lexeme token.value.toList = token.value.toList := by
      cases kind : token.kind with
      | string => exact absurd kind string
      | name | integer | punctuation | operator => rfl
    rw [same] at last
    exact endsLine_eq_false_of_solid (formed.solid string c (List.mem_of_getLast? last))

theorem Settings.sole_of_skippedMark (settings : Settings) (text : List Char) :
    ∀ c ∈ settings.skippedMark text, Sole c := by
  unfold skippedMark
  split
  · exact List.forall_mem_singleton.2 (by decide)
  · nofun

namespace Respelling

variable (spelling : Respelling)

theorem apply_eq_nil_iff {text : List Char} : spelling.apply text = [] ↔ text = [] :=
  (spelling.respelled text).eq_nil_iff.symm

@[simp] theorem apply_nil : spelling.apply [] = [] :=
  spelling.apply_eq_nil_iff.2 rfl

theorem apply_of_sole {text : List Char} (sole : ∀ c ∈ text, Sole c) : spelling.apply text = text :=
  (spelling.respelled text).eq_of_sole sole

theorem apply_single {c : Char} (sole : Sole c) : spelling.apply [c] = [c] :=
  spelling.apply_of_sole (List.forall_mem_singleton.2 sole)

theorem apply_cons {c : Char} (sole : Sole c) (rest : List Char) :
    spelling.apply (c :: rest) = c :: spelling.apply rest := by
  have parted : Parted [c] rest := .of_last (by simpa using sole.1)
  have split := spelling.apply_append parted
  rwa [spelling.apply_single sole] at split

/-- Where a mark is skipped in a source, it is skipped in the respelled one. -/
theorem skippedMark (settings : Settings) (text : List Char) :
    settings.skippedMark (spelling.apply text) = settings.skippedMark text := by
  have heads := (spelling.respelled text).head
  have same : (spelling.apply text).head? = some byteOrderMark ↔
      text.head? = some byteOrderMark := by
    generalize text.head? = first at heads
    generalize (spelling.apply text).head? = second at heads
    cases heads with
    | none => exact Iff.rfl
    | some alike => simp [alike.eq_iff (by decide : Sole byteOrderMark)]
  simp only [Settings.skippedMark, same]

/-- What ends a phrase is at most a period, and so stands apart from what is around it. -/
theorem close_of_stops (trail : List Char) {rest : List Char}
    (stops : rest = [] ∨ ∃ after, rest = period :: after ∧ AtBlank after) :
    Parted trail rest ∧ Parted (rest.take 1) (rest.drop 1) ∧
      (spelling.apply rest).take 1 = spelling.apply (rest.take 1) ∧
      (spelling.apply rest).drop 1 = spelling.apply (rest.drop 1) := by
  rcases stops with rfl | ⟨after, rfl, -⟩
  · simp only [List.take_nil, List.drop_nil, spelling.apply_nil, and_true]
    exact ⟨.of_head nofun, .nil_left⟩
  · have sole : Sole period := by decide
    refine ⟨.of_head ?_, .of_last ?_, ?_, ?_⟩
    · simpa using sole.1
    · simpa using sole.1
    · rw [spelling.apply_cons sole]
      exact (spelling.apply_single sole).symm
    · rw [spelling.apply_cons sole]
      rfl

theorem written_respell (token : Token) :
    (token.respell spelling).written.toList = spelling.apply token.written.toList := by
  obtain ⟨kind, value⟩ := token
  rw [toList_written, toList_written, Token.respell, String.toList_ofList]
  cases kind with
  | string =>
      have sole : Sole quote := by decide
      have parted : Parted value.toList [quote] := .of_head (by simpa using sole.1)
      show quote :: (spelling.apply value.toList ++ [quote]) =
        spelling.apply (quote :: (value.toList ++ [quote]))
      rw [spelling.apply_cons sole, spelling.apply_append parted, spelling.apply_single sole]
  | name | integer | punctuation | operator => rfl

theorem isLongestToken {token : Token} {after : List Char}
    (longest : IsLongestToken token (token.written.toList ++ after)) :
    IsLongestToken (token.respell spelling)
      ((token.respell spelling).written.toList ++ spelling.apply after) := by
  have formed := longest.wellFormed
  have values := spelling.respelled token.value.toList
  have respelt : (token.respell spelling).value.toList = spelling.apply token.value.toList :=
    String.toList_ofList
  have formedToo : (token.respell spelling).WellFormed := by
    rw [Token.WellFormed, respelt]
    exact values.admits formed
  rw [isLongestToken_append_iff formed] at longest
  rw [isLongestToken_append_iff formedToo]
  intro d head goesOn
  obtain ⟨c, among, alike⟩ := (spelling.respelled after).exists_head head
  rw [Token.GoesOn, respelt] at goesOn
  exact longest c among (values.goesOn formed alike goesOn)

/-- What a text starts with is `part`, and its respelling starts with that respelled. -/
structure ReadsAlike (part after : List Char) : Prop where
  parted : Parted part after
  width : (reading (part ++ after)).width = part.length
  respelt_width : (reading (spelling.apply part ++ spelling.apply after)).width =
    (spelling.apply part).length
  finding_eq : (reading (spelling.apply part ++ spelling.apply after)).finding =
    (reading (part ++ after)).finding.respell spelling

theorem readsAlike_token {token : Token} {after : List Char}
    (longest : IsLongestToken token (token.written.toList ++ after)) :
    spelling.ReadsAlike token.written.toList after := by
  have read := reading_eq_token_iff.2 ⟨longest, rfl⟩
  have respelt := reading_eq_token_iff.2 ⟨spelling.isLongestToken longest, rfl⟩
  rw [spelling.written_respell] at respelt
  refine ⟨.of_last longest.wellFormed.last_written, ?_, ?_, ?_⟩
  · rw [read]
    rfl
  · rw [respelt]
    rfl
  · rw [read, respelt]
    rfl

theorem readsAlike_unclosed {body : List Char} (unclosed : contentLength? body = none) :
    spelling.ReadsAlike (quote :: body) [] := by
  have unclosedToo := (spelling.respelled body).unclosed unclosed
  have read : reading (quote :: body) = _ := reading_eq_unclosed_iff.2 ⟨body, rfl, unclosed, rfl⟩
  have respelt : reading (quote :: spelling.apply body) = _ :=
    reading_eq_unclosed_iff.2 ⟨spelling.apply body, rfl, unclosedToo, rfl⟩
  rw [← spelling.apply_cons (by decide : Sole quote)] at respelt
  refine ⟨.of_head nofun, ?_, ?_, ?_⟩
  · rw [List.append_nil, read]
    rfl
  · rw [spelling.apply_nil, List.append_nil, respelt]
    rfl
  · rw [spelling.apply_nil, List.append_nil, List.append_nil, respelt, read]
    rfl

theorem readsAlike_unexpected {c : Char} (solid : isBlank c = false)
    (unknown : TokenKind.opening? c = none) (after : List Char) :
    spelling.ReadsAlike [c] after := by
  have sole := sole_of_opening?_eq_none solid unknown
  have read (rest : List Char) : reading ([c] ++ rest) = .fault (.unexpectedCharacter c) 1 :=
    reading_eq_unexpected_iff.2 ⟨unknown, rfl, rfl⟩
  refine ⟨.of_last (by simpa using sole.1), ?_, ?_, ?_⟩
  · rw [read]
    rfl
  · rw [spelling.apply_single sole, read]
    rfl
  · rw [spelling.apply_single sole, read, read]
    rfl

/-- Every text that starts with no blank starts with something that its respelling has too. -/
theorem exists_readsAlike {text : List Char} (solid : ∀ c ∈ text.head?, isBlank c = false) :
    ∃ part after, text = part ++ after ∧ spelling.ReadsAlike part after := by
  cases read : reading text with
  | nothing =>
      obtain rfl := reading_nothing_iff.1 read
      refine ⟨[], [], rfl, .nil_left, rfl, ?_, ?_⟩ <;> rw [apply_nil] <;> rfl
  | token token width =>
      have longest := (reading_eq_token_iff.1 read).1
      obtain ⟨after, rfl⟩ := longest.isPrefix
      exact ⟨_, after, rfl, spelling.readsAlike_token longest⟩
  | fault fault width =>
      cases fault with
      | unclosedString =>
          obtain ⟨body, rfl, unclosed, -⟩ := reading_eq_unclosed_iff.1 read
          exact ⟨_, [], (List.append_nil _).symm, spelling.readsAlike_unclosed unclosed⟩
      | unexpectedCharacter d =>
          cases text with
          | nil => cases read
          | cons c after =>
              obtain ⟨unknown, -⟩ := reading_eq_unexpected_iff.1 read
              exact ⟨[c], after, rfl, spelling.readsAlike_unexpected (solid c rfl) unknown after⟩

end Respelling

/-! ## Two scans of one source -/

/-- The second span is about the part of the respelled source that the first is about in the
source. -/
def Span.Respelt (spelling : Respelling) (near far : Span) : Prop :=
  ∃ before part, near = .over before part ∧
    far = .over (spelling.apply before) (spelling.apply part)

/-- What respelling does not change about spans is the same in the spans that two scans hand out. -/
theorem Span.Respelt.map_eq {α : Type} {spelling : Respelling} {view : Span → α}
    (same : ∀ before part, view (.over (spelling.apply before) (spelling.apply part)) =
      view (.over before part)) {near far : Option Span}
    (respelt : Option.Rel (Span.Respelt spelling) near far) : far.map view = near.map view := by
  cases respelt with
  | none => rfl
  | some both =>
      obtain ⟨before, part, rfl, rfl⟩ := both
      exact congrArg some (same before part)

/-- The second lexer has read of a respelled source what the first one has of the source, and been
asked alike. -/
structure Lexer.Respelt (spelling : Respelling) (near far : Lexer) : Prop where
  settings_eq : far.settings = near.settings
  stopped_eq : far.stopped = near.stopped
  stands : ∃ before ahead, Parted before ahead ∧ near.cursor = .between before ahead ∧
    far.cursor = .between (spelling.apply before) (spelling.apply ahead)
  latest : Option.Rel (Span.Respelt spelling) near.latest far.latest

/-- The second scan finds what the first does, respelled, and leaves a lexer that stands alike. -/
structure Scan.Respelt (spelling : Respelling) (near far : Scan) : Prop where
  finding_eq : far.outcome.finding = near.outcome.finding.respell spelling
  span : Option.Rel (Span.Respelt spelling) near.span? far.span?
  lexer : Lexer.Respelt spelling near.lexer far.lexer

namespace Lexer.Respelt

variable {spelling : Respelling} {near far : Lexer}

/-- Two lexers that nobody has asked yet. -/
theorem start (spelling : Respelling) {settings : Settings} (valid : settings.Valid)
    (text : List Char) :
    Lexer.Respelt spelling { cursor := .ofText text, settings, valid }
      { cursor := .ofText (spelling.apply text), settings, valid } := by
  refine ⟨rfl, rfl, ⟨[], text, .nil_left, rfl, ?_⟩, .none⟩
  rw [spelling.apply_nil]
  rfl

/-- What a scan comes to in the source and in the respelled one. -/
theorem conclude (respelt : Lexer.Respelt spelling near far) {stop after : List Char}
    (parted : Parted stop after) (before part : List Char) (finding : Finding) :
    Scan.Respelt spelling
      (near.conclude (.between stop after) (.over before part) finding)
      (far.conclude (.between (spelling.apply stop) (spelling.apply after))
        (.over (spelling.apply before) (spelling.apply part)) (finding.respell spelling)) := by
  have span : Span.Respelt spelling (.over before part)
      (.over (spelling.apply before) (spelling.apply part)) := ⟨before, part, rfl, rfl⟩
  have stands : ∃ before ahead, Parted before ahead ∧
      Cursor.between stop after = .between before ahead ∧
      Cursor.between (spelling.apply stop) (spelling.apply after) =
        .between (spelling.apply before) (spelling.apply ahead) := ⟨stop, after, parted, rfl, rfl⟩
  cases finding with
  | token token =>
      exact ⟨rfl, .some span, respelt.settings_eq, respelt.stopped_eq, stands, .some span⟩
  | phrase text =>
      exact ⟨rfl, .some span, respelt.settings_eq, respelt.stopped_eq, stands, .some span⟩
  | fault fault =>
      exact ⟨rfl, .some span, respelt.settings_eq, respelt.stopped_eq, stands, respelt.latest⟩
  | nothing => exact ⟨rfl, .none, respelt.settings_eq, respelt.stopped_eq, stands, .none⟩

theorem unmarked (respelt : Lexer.Respelt spelling near far) :
    ∃ before ahead, Parted before ahead ∧ near.unmarked = .between before ahead ∧
      far.unmarked = .between (spelling.apply before) (spelling.apply ahead) := by
  obtain ⟨before, ahead, parted, here, there⟩ := respelt.stands
  by_cases atStart : before = []
  · subst atStart
    rw [spelling.apply_nil] at there
    obtain ⟨unread, split, unmarked⟩ := unmarked_of_start here
    obtain ⟨unreadToo, splitToo, unmarkedToo⟩ := unmarked_of_start there
    have sole := near.settings.sole_of_skippedMark ahead
    have next : Parted (near.settings.skippedMark ahead) unread :=
      .of_last fun c last => (sole c (List.mem_of_getLast? last)).1
    have whole := spelling.apply_append next
    rw [← split, spelling.apply_of_sole sole] at whole
    rw [respelt.settings_eq, spelling.skippedMark] at splitToo unmarkedToo
    have rest : unreadToo = spelling.apply unread :=
      List.append_cancel_left (splitToo.symm.trans whole)
    exact ⟨_, unread, next, unmarked, by rw [unmarkedToo, rest, spelling.apply_of_sole sole]⟩
  · have started : near.cursor.behind ≠ [] := by simpa [here] using atStart
    have startedToo : far.cursor.behind ≠ [] := by
      simpa [there, spelling.apply_eq_nil_iff] using atStart
    exact ⟨before, ahead, parted, (unmarked_of_started started).trans here,
      (unmarked_of_started startedToo).trans there⟩

theorem scanToken (respelt : Lexer.Respelt spelling near far) :
    Scan.Respelt spelling near.scanToken far.scanToken := by
  obtain ⟨before, unread, parted, here, there⟩ := respelt.unmarked
  obtain ⟨gap, rest, rfl, layout⟩ := exists_layoutBefore near.settings.commentIndicator unread
  have solid := layout.head_solid
  obtain ⟨part, after, rfl, reads⟩ := spelling.exists_readsAlike solid
  have opens : Parted gap (part ++ after) :=
    .of_head fun c head => endsLine_eq_false_of_solid (solid c head)
  have layoutToo := (spelling.respelled gap).layoutBefore near.valid.sole
    near.valid.indicator_not_blank (spelling.respelled (part ++ after)) layout
  rw [spelling.apply_append opens, spelling.apply_append reads.parted] at there
  rw [spelling.apply_append reads.parted, ← respelt.settings_eq] at layoutToo
  have passes : near.Passes before gap part after := ⟨here, layout, reads.width⟩
  have passesToo : far.Passes (spelling.apply before) (spelling.apply gap) (spelling.apply part)
    (spelling.apply after) := ⟨there, layoutToo, reads.respelt_width⟩
  have upTo := parted.append opens
  rw [passes.scanToken, passesToo.scanToken, reads.finding_eq, ← spelling.apply_append parted.left,
    ← spelling.apply_append upTo.left]
  exact respelt.conclude (upTo.append reads.parted) _ _ _

theorem scanPhrase (respelt : Lexer.Respelt spelling near far) :
    Scan.Respelt spelling near.scanPhrase far.scanPhrase := by
  obtain ⟨before, unread, parted, here, there⟩ := respelt.unmarked
  rcases exists_phraseBefore unread with blank | ⟨gap, phrase, trail, rest, rfl, blank, next⟩
  · have blankToo := (spelling.respelled unread).blanks blank
    have left : Parted before (unread ++ []) := by rwa [List.append_nil]
    rw [scanPhrase_of_blanks here blank, scanPhrase_of_blanks there blankToo,
      ← spelling.apply_append left.left]
    have ended := respelt.conclude (.of_head nofun : Parted (before ++ unread) []) [] [] .nothing
    rwa [spelling.apply_nil] at ended
  · -- No part of what is read ends between two line ends.
    have opens : Parted gap (phrase ++ (trail ++ rest)) :=
      .of_head fun d among => endsLine_eq_false_of_solid (next.solid d among)
    have body : Parted phrase (trail ++ rest) :=
      .of_last fun d last => endsLine_eq_false_of_solid (next.isPhrase.last_solid d last)
    obtain ⟨trails, close, takes, drops⟩ := spelling.close_of_stops trail next.stops
    have upTo := ((parted.append opens).append body).append trails
    have stop : Parted (before ++ gap ++ phrase ++ trail) (rest.take 1 ++ rest.drop 1) := by
      rwa [List.take_append_drop]
    have nextToo := (spelling.respelled phrase).phraseBefore (spelling.respelled trail)
      (spelling.respelled rest) next
    rw [spelling.apply_append opens, spelling.apply_append body, spelling.apply_append trails]
      at there
    have blankToo := (spelling.respelled gap).blanks blank
    rw [scanPhrase_of_phraseBefore here blank next,
      scanPhrase_of_phraseBefore there blankToo nextToo, takes, drops,
      ← spelling.apply_append parted.left, ← spelling.apply_append (parted.append opens).left,
      ← spelling.apply_append ((parted.append opens).append body).left,
      ← spelling.apply_append stop.left]
    have found := respelt.conclude (stop.append close) (before ++ gap) phrase
      (.phrase (String.ofList phrase))
    simp only [Finding.respell, String.toList_ofList] at found
    exact found

theorem pull (respelt : Lexer.Respelt spelling near far) :
    Scan.Respelt spelling near.pull far.pull := by
  cases stopped : near.stopped with
  | true =>
      rw [pull_of_stopped stopped, pull_of_stopped (respelt.stopped_eq.trans stopped)]
      exact ⟨rfl, .none, respelt⟩
  | false =>
      have going := respelt.stopped_eq.trans stopped
      have scans := respelt.scanToken
      rw [pull_eq_withStopped stopped, pull_eq_withStopped going, scans.finding_eq,
        Finding.isFault_respell]
      exact ⟨scans.finding_eq, scans.span, scans.lexer.settings_eq, rfl, scans.lexer.stands,
        scans.lexer.latest⟩

theorem perform (respelt : Lexer.Respelt spelling near far) (call : Call) :
    Scan.Respelt spelling (near.perform call) (far.perform call) := by
  cases call with
  | token => exact respelt.scanToken
  | phrase => exact respelt.scanPhrase
  | pull => exact respelt.pull

/-- **Calls on a respelled source find what they find in the source, respelled.** -/
theorem run (respelt : Lexer.Respelt spelling near far) (calls : List Call) :
    List.Forall₂ (Scan.Respelt spelling) (near.run calls) (far.run calls) := by
  induction calls generalizing near far with
  | nil => exact .nil
  | cons call calls ih => exact .cons (respelt.perform call) (ih (respelt.perform call).lexer)

end Lexer.Respelt

end CobolSource
