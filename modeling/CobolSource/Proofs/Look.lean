/-
# Proofs.Look — a scan is a look at the text ahead

A scan looks at the text ahead of it, and then it moves and reports. A `Look` is what it makes of
that text: what it finds, how much it passes over before that, and how much of the text the find
takes up. `lookToken` and `lookPhrase` say what is made of a text, and `Lexer.deliver` makes a scan
of a look. There is nothing else to a scan (`perform_eq_deliver`): what lies behind a lexer only
says where its finds are.

Where a text is known by its parts, so is the look (`lookToken_layoutBefore`,
`lookPhrase_phraseBefore`), and then a scan is no more than what it finds, the span of that, and the
place where it stops (`Lexer.conclude`).
-/
import CobolSource.Proofs.LayoutLanguage
import CobolSource.Proofs.PhraseLanguage
import CobolSource.Proofs.Reach

namespace CobolSource

set_option autoImplicit false

/-- What a scan finds, without where it is. -/
inductive Finding where
  | token (token : Token)
  | phrase (text : String)
  | fault (fault : Fault)
  /-- Only the end is left to find. -/
  | nothing
  deriving DecidableEq, Repr

def Outcome.finding : Outcome → Finding
  | .token found => .token found
  | .phrase text => .phrase text
  | .error failed => .fault failed.fault
  | .endOfInput => .nothing

theorem Outcome.finding_eq_nothing_iff {outcome : Outcome} :
    outcome.finding = .nothing ↔ outcome = .endOfInput := by
  cases outcome <;> simp [finding]

theorem Outcome.finding_eq_token_iff {outcome : Outcome} {token : Token} :
    outcome.finding = .token token ↔ outcome = .token token := by
  cases outcome <;> simp [finding]

theorem Outcome.finding_eq_phrase_iff {outcome : Outcome} {text : String} :
    outcome.finding = .phrase text ↔ outcome = .phrase text := by
  cases outcome <;> simp [finding]

theorem Outcome.finding_eq_fault_iff {outcome : Outcome} {fault : Fault} :
    outcome.finding = .fault fault ↔ ∃ span, outcome = .error ⟨fault, span⟩ := by
  constructor
  · intro found
    cases outcome with
    | error failed =>
        cases found
        exact ⟨failed.span, rfl⟩
    | token | phrase | endOfInput => cases found
  · rintro ⟨span, rfl⟩
    rfl

/-- What a scan makes of the text ahead. All lengths are in characters. -/
structure Look where
  /-- What is passed over before the find. -/
  skipped : Nat
  finding : Finding
  /-- What the find's span covers. -/
  covered : Nat
  /-- How far from its beginning on the find is done with. -/
  passed : Nat
  deriving DecidableEq, Repr

def Reading.look (skipped : Nat) : Reading → Look
  | .nothing => ⟨skipped, .nothing, 0, 0⟩
  | .token found width => ⟨skipped, .token found, width, width⟩
  | .fault failed width => ⟨skipped, .fault failed, width, width⟩

/-- What a reading finds, without its width. -/
def Reading.finding : Reading → Finding
  | .nothing => .nothing
  | .token found _ => .token found
  | .fault failed _ => .fault failed

theorem Reading.finding_eq_nothing_iff {read : Reading} :
    read.finding = .nothing ↔ read = .nothing := by
  cases read <;> simp [finding]

@[simp] theorem Reading.skipped_look (skipped : Nat) (read : Reading) :
    (read.look skipped).skipped = skipped := by
  cases read <;> rfl

@[simp] theorem Reading.finding_look (skipped : Nat) (read : Reading) :
    (read.look skipped).finding = read.finding := by
  cases read <;> rfl

@[simp] theorem Reading.covered_look (skipped : Nat) (read : Reading) :
    (read.look skipped).covered = read.width := by
  cases read <;> rfl

@[simp] theorem Reading.passed_look (skipped : Nat) (read : Reading) :
    (read.look skipped).passed = read.width := by
  cases read <;> rfl

def lookToken (indicator : Char) (text : List Char) : Look :=
  (reading (text.drop (layoutLength indicator text))).look (layoutLength indicator text)

def lookPhrase (text : List Char) : Look :=
  let rest := text.drop (blankLength text)
  if rest.isEmpty then ⟨blankLength text, .nothing, 0, 0⟩
  else
    ⟨blankLength text, .phrase (String.ofList (phraseText rest)), (phraseText rest).length,
      bodyLength rest + 1⟩

/-- What a call that scans makes of a text. -/
def Call.look (indicator : Char) : Call → List Char → Look
  | .token => lookToken indicator
  | .phrase => lookPhrase
  | .pull => lookToken indicator

/-! ## What is made of a text whose parts are known -/

theorem Blanks.layout {indicator : Char} {gap : List Char} (blank : Blanks gap) :
    Layout indicator gap := by
  induction gap with
  | nil => exact .nil
  | cons c gap ih =>
      obtain ⟨first, others⟩ := List.forall_mem_cons.1 blank
      exact .blank first (ih others)

theorem Layout.blanks_of_bare {indicator : Char} {gap : List Char} (layout : Layout indicator gap)
    (bare : indicator ∉ gap) : Blanks gap := by
  induction layout with
  | nil => nofun
  | blank first _ ih =>
      exact List.forall_mem_cons.2 ⟨first, ih (List.not_mem_of_not_mem_cons bare)⟩
  | comment => exact absurd List.mem_cons_self bare

/-- Layout that has no comment in it is blanks. -/
theorem FinalLayout.blanks_of_bare {indicator : Char} {gap : List Char}
    (final : FinalLayout indicator gap) (bare : indicator ∉ gap) : Blanks gap := by
  cases final with
  | complete layout => exact layout.blanks_of_bare bare
  | cutOff => exact absurd (List.mem_append_right _ List.mem_cons_self) bare

theorem blankLength_blanks {gap rest : List Char} (blank : Blanks gap)
    (solid : ∀ c ∈ rest.head?, isBlank c = false) : blankLength (gap ++ rest) = gap.length := by
  induction gap with
  | nil =>
      cases rest with
      | nil => rfl
      | cons c rest => exact blankLength_stop (solid c rfl) rest
  | cons c gap ih =>
      rw [List.cons_append, blankLength_cons (blank c List.mem_cons_self),
        ih (List.forall_mem_cons.1 blank).2, List.length_cons]

theorem PhraseBefore.blankLength_phraseBefore {gap phrase trail rest : List Char}
    (before : PhraseBefore phrase trail rest) (blank : Blanks gap) :
    blankLength (gap ++ (phrase ++ (trail ++ rest))) = gap.length :=
  blankLength_blanks blank before.solid

theorem phraseText_isPrefix (text : List Char) : phraseText text <+: text :=
  (List.rdropWhile_prefix isBlank _).trans (List.take_prefix _ text)

theorem lookToken_layoutBefore {indicator : Char} (solid : isBlank indicator = false)
    {gap rest : List Char} (stops : LayoutBefore indicator gap rest) :
    lookToken indicator (gap ++ rest) = (reading rest).look gap.length := by
  rw [lookToken, layoutLength_layoutBefore solid stops, List.drop_left]

theorem lookPhrase_blanks {text : List Char} (blank : Blanks text) :
    lookPhrase text = ⟨text.length, .nothing, 0, 0⟩ := by
  have counted : blankLength (text ++ []) = text.length := blankLength_blanks blank nofun
  rw [List.append_nil] at counted
  rw [lookPhrase, counted, List.drop_length, List.isEmpty_nil, if_pos rfl]

theorem lookPhrase_phraseBefore {gap phrase trail rest : List Char} (blank : Blanks gap)
    (before : PhraseBefore phrase trail rest) :
    lookPhrase (gap ++ (phrase ++ (trail ++ rest))) =
      ⟨gap.length, .phrase (String.ofList phrase), phrase.length,
        phrase.length + trail.length + 1⟩ := by
  have more : ¬ (phrase ++ (trail ++ rest)).isEmpty = true :=
    fun empty => before.ne_nil (List.isEmpty_iff.1 empty)
  rw [lookPhrase, before.blankLength_phraseBefore blank, List.drop_left, if_neg more,
    before.phraseText_phraseBefore, before.bodyLength_phraseBefore]

/-! ## What is made of a look -/

namespace Lexer

/-- The scan that a look comes to, for a lexer that looks from `cursor` on. -/
def deliver (lexer : Lexer) (cursor : Cursor) (look : Look) : Scan :=
  let start := cursor.advanceBy look.skipped
  let stop := start.advanceBy look.passed
  let span := start.place.spanTo (start.advanceBy look.covered).place.offset
  match look.finding with
  | .token token => lexer.produce stop span (.token token) (.token token)
  | .phrase text => lexer.produce stop span (.phrase text) (.phrase text)
  | .fault fault => lexer.fail stop ⟨fault, span⟩
  | .nothing => lexer.finish stop

theorem scanToken_eq_deliver (lexer : Lexer) :
    lexer.scanToken = lexer.deliver lexer.unmarked
      (lookToken lexer.settings.commentIndicator lexer.unmarked.ahead) := by
  have ahead : lexer.tokenStart.ahead =
      lexer.unmarked.ahead.drop
        (layoutLength lexer.settings.commentIndicator lexer.unmarked.ahead) :=
    Cursor.ahead_advanceBy ..
  rw [lookToken, ← ahead]
  cases read : reading lexer.tokenStart.ahead with
  | nothing => exact scanToken_of_end (reading_nothing_iff.1 read)
  | token token width => exact scanToken_of_token read
  | fault fault width => exact scanToken_of_fault read

theorem scanPhrase_eq_deliver (lexer : Lexer) :
    lexer.scanPhrase = lexer.deliver lexer.unmarked (lookPhrase lexer.unmarked.ahead) := by
  have ahead : lexer.phraseStart.ahead =
      lexer.unmarked.ahead.drop (blankLength lexer.unmarked.ahead) :=
    Cursor.ahead_advanceBy ..
  rw [lookPhrase, ← ahead]
  by_cases ended : lexer.phraseStart.ahead = []
  · rw [ended]
    exact scanPhrase_of_end ended
  · have covered : (lexer.phraseStart.advanceBy
        (phraseText lexer.phraseStart.ahead).length).place =
        lexer.phraseStart.place.afterText (phraseText lexer.phraseStart.ahead) := by
      rw [Cursor.place_advanceBy, ← List.prefix_iff_eq_take.1 (phraseText_isPrefix _)]
    rw [scanPhrase_of_more ended, ← covered, if_neg (by rwa [List.isEmpty_iff])]
    rfl

/-- **A scan is a look and its delivery.** -/
theorem perform_eq_deliver (lexer : Lexer) {call : Call} (scans : call ≠ .pull) :
    lexer.perform call = lexer.deliver lexer.unmarked
      (call.look lexer.settings.commentIndicator lexer.unmarked.ahead) := by
  cases call with
  | token => exact lexer.scanToken_eq_deliver
  | phrase => exact lexer.scanPhrase_eq_deliver
  | pull => exact absurd rfl scans

theorem deliver_finding (lexer : Lexer) (cursor : Cursor) (look : Look) :
    (lexer.deliver cursor look).outcome.finding = look.finding := by
  unfold deliver
  cases look.finding <;> rfl

theorem deliver_cursor (lexer : Lexer) (cursor : Cursor) (look : Look) :
    (lexer.deliver cursor look).lexer.cursor = cursor.advanceBy (look.skipped + look.passed) := by
  rw [← Cursor.advanceBy_advanceBy]
  unfold deliver
  cases look.finding <;> rfl

/-- The scan that has found something, over some span, and leaves the cursor at `stop`. -/
def conclude (lexer : Lexer) (stop : Cursor) (span : Span) : Finding → Scan
  | .token token => lexer.produce stop span (.token token) (.token token)
  | .phrase text => lexer.produce stop span (.phrase text) (.phrase text)
  | .fault fault => lexer.fail stop ⟨fault, span⟩
  | .nothing => lexer.finish stop

theorem deliver_eq_conclude (lexer : Lexer) (cursor : Cursor) (look : Look) :
    lexer.deliver cursor look =
      lexer.conclude ((cursor.advanceBy look.skipped).advanceBy look.passed)
        ((cursor.advanceBy look.skipped).place.spanTo
          ((cursor.advanceBy look.skipped).advanceBy look.covered).place.offset) look.finding := by
  unfold deliver conclude
  cases look.finding <;> rfl

theorem conclude_finding (lexer : Lexer) (stop : Cursor) (span : Span) (finding : Finding) :
    (lexer.conclude stop span finding).outcome.finding = finding := by
  cases finding <;> rfl

theorem conclude_cursor (lexer : Lexer) (stop : Cursor) (span : Span) (finding : Finding) :
    (lexer.conclude stop span finding).lexer.cursor = stop := by
  cases finding <;> rfl

theorem conclude_span? (lexer : Lexer) (stop : Cursor) (span : Span) {finding : Finding}
    (finds : finding ≠ .nothing) : (lexer.conclude stop span finding).span? = some span := by
  cases finding with
  | nothing => exact absurd rfl finds
  | token | phrase | fault => rfl

/-- The lexer, with its cursor somewhere else. -/
def standing (lexer : Lexer) (cursor : Cursor) : Lexer :=
  { lexer with cursor }

/-- Where a lexer stood is forgotten when its scan is done. -/
theorem conclude_standing (lexer : Lexer) (cursor stop : Cursor) (span : Span)
    (finding : Finding) :
    (lexer.standing cursor).conclude stop span finding = lexer.conclude stop span finding := by
  cases finding <;> rfl

theorem deliver_standing (lexer : Lexer) (cursor start : Cursor) (look : Look) :
    (lexer.standing cursor).deliver start look = lexer.deliver start look := by
  rw [deliver_eq_conclude, deliver_eq_conclude, conclude_standing]

/-- The span of a find, if there is one. -/
theorem deliver_span (lexer : Lexer) (cursor : Cursor) (look : Look) :
    (lexer.deliver cursor look).span? =
      if look.finding = .nothing then none
      else some ((cursor.advanceBy look.skipped).place.spanTo
        ((cursor.advanceBy look.skipped).advanceBy look.covered).place.offset) := by
  unfold deliver
  cases look.finding <;> rfl

end Lexer

end CobolSource
