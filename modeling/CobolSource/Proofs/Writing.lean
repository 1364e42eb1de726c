/-
# Proofs.Writing — what is written is what is read

A source can be written from tokens, with layout before each and after the last. Reading it back
gives the tokens just when no two of them run into one another: `Token.Joins` lists the pairs that
do if nothing stands between them (`allTokens_sourceOf_iff`).

Whether a token is read as it was written is a matter of one character, the one that comes after it:
with some the token goes on (`TokenKind.GoesOn`), and without one of these it is the longest lexeme
there (`isLongestToken_append_iff`). They are all reserved and none is a blank, so layout never
carries a token on. Only the next token can.
-/
import CobolSource.Proofs.TokenScan

namespace CobolSource

set_option autoImplicit false

/-! ## What carries a lexeme on -/

namespace TokenKind

/-- Whether a lexeme that has this value goes on if the character comes after it. -/
def GoesOn : TokenKind → List Char → Char → Prop
  | .name, _, c => continuesName c = true
  | .integer, _, c => c.isDigit = true
  | .string, _, _ => False
  | .punctuation, _, _ => False
  | .operator, value, c => (value = ['<'] ∨ value = ['>']) ∧ c = '='

variable {kind : TokenKind} {value : List Char} {c : Char}

theorem GoesOn.isLexeme (goesOn : kind.GoesOn value c) (admitted : kind.Admits value) :
    IsLexeme kind (kind.lexeme value ++ [c]) := by
  cases kind with
  | name =>
      cases value with
      | nil => exact absurd admitted (by decide)
      | cons d rest =>
          have last : c.isAlphanum = true ∨ c = '-' := by
            simpa [GoesOn, continuesName] using goesOn
          have inner := List.forall_mem_append.2 ⟨admitted.2, List.forall_mem_singleton.2 last⟩
          exact ⟨d :: (rest ++ [c]), ⟨admitted.1, inner⟩, rfl⟩
  | integer =>
      have digits := List.forall_mem_append.2 ⟨admitted.2, List.forall_mem_singleton.2 goesOn⟩
      exact ⟨value ++ [c], ⟨List.append_ne_nil_of_left_ne_nil admitted.1 _, digits⟩, rfl⟩
  | operator =>
      obtain ⟨angle, rfl⟩ := goesOn
      refine ⟨value ++ ['='], ?_, rfl⟩
      rcases angle with rfl | rfl <;> decide
  | string | punctuation => exact goesOn.elim

/-- A longer lexeme of the kind starts with the shorter one and a character that carries it on. -/
theorem goesOn_of_isLexeme {rest : List Char} (admitted : kind.Admits value)
    (longer : IsLexeme kind (kind.lexeme value ++ c :: rest)) : kind.GoesOn value c := by
  obtain ⟨whole, admits, written⟩ := longer
  cases kind with
  | name =>
      obtain rfl : value ++ c :: rest = whole := written
      cases value with
      | nil => exact absurd admitted (by decide)
      | cons d more =>
          have inner := admits.2 c (List.mem_append_right _ List.mem_cons_self)
          simpa [GoesOn, continuesName] using inner
  | integer =>
      obtain rfl : value ++ c :: rest = whole := written
      exact admits.2 c (List.mem_append_right _ List.mem_cons_self)
  | string =>
      -- A string closes in one place only, so no string is a longer string's beginning.
      have closes : value ++ [quote] ++ c :: rest = whole ++ [quote] := (List.cons.inj written).2
      obtain rfl := IsContent.unique admitted admits ⟨c :: rest, closes⟩ (List.prefix_refl _)
      exact absurd (List.append_right_eq_self.1 closes) (List.cons_ne_nil c rest)
  | punctuation =>
      obtain rfl : value ++ c :: rest = whole := written
      simp only [Admits, List.mem_cons, List.not_mem_nil, or_false] at admitted
      rcases admitted with rfl | rfl | rfl | rfl <;> simp [Admits] at admits
  | operator =>
      obtain rfl : value ++ c :: rest = whole := written
      simp only [Admits, List.mem_cons, List.not_mem_nil, or_false] at admitted
      rcases admitted with rfl | rfl | rfl | rfl | rfl <;> simp [Admits] at admits <;>
        simp [GoesOn, admits]

theorem opening?_of_isBlank (blank : isBlank c = true) : opening? c = none := by
  simp only [isBlank, Bool.or_eq_true, beq_iff_eq] at blank
  rcases blank with ((rfl | rfl) | rfl) | rfl <;> decide

theorem isReserved_of_opening? (opens : opening? c = some kind) : isReserved c = true := by
  rw [opening?] at opens
  split_ifs at opens with name digit string mark operator
  · simp [isReserved, continuesName_of_startsName name]
  · simp [isReserved, continuesName, Char.isAlphanum, digit]
  · simp [isReserved, string]
  · simp [isReserved, mark]
  · simp [isReserved, operator]

theorem startsName_iff_of_opening? (opens : opening? c = some kind) :
    startsName c = true ↔ kind = .name := by
  rw [opening?] at opens
  constructor
  · intro name
    rw [if_pos name] at opens
    exact (Option.some.inj opens).symm
  · rintro rfl
    by_contra other
    rw [if_neg other] at opens
    split_ifs at opens <;> cases opens

theorem isDigit_iff_of_opening? (opens : opening? c = some kind) :
    c.isDigit = true ↔ kind = .integer := by
  rw [opening?] at opens
  constructor
  · intro digit
    rw [if_neg (by simp [startsName_eq_false_of_isDigit digit]), if_pos digit] at opens
    exact (Option.some.inj opens).symm
  · rintro rfl
    by_contra other
    rw [if_neg other] at opens
    split_ifs at opens <;> cases opens

/-- Nothing starts with a hyphen. -/
theorem continuesName_iff_of_opening? (opens : opening? c = some kind) :
    continuesName c = true ↔ kind = .name ∨ kind = .integer := by
  have noHyphen : c ≠ '-' := by
    rintro rfl
    exact absurd opens (by cases kind <;> decide)
  rw [← startsName_iff_of_opening? opens, ← isDigit_iff_of_opening? opens]
  simp [continuesName, startsName, Char.isAlphanum, noHyphen]

theorem GoesOn.isReserved (goesOn : kind.GoesOn value c) : isReserved c = true := by
  cases kind with
  | name =>
      have continues : continuesName c = true := goesOn
      simp [CobolSource.isReserved, continues]
  | integer =>
      have digit : c.isDigit = true := goesOn
      simp [CobolSource.isReserved, continuesName, Char.isAlphanum, digit]
  | operator =>
      obtain ⟨-, rfl⟩ := goesOn
      decide
  | string | punctuation => exact goesOn.elim

theorem not_goesOn_of_isBlank (blank : isBlank c = true) : ¬ kind.GoesOn value c := by
  have plain : continuesName c = false ∧ c.isDigit = false ∧ c ≠ '=' := by
    simp only [isBlank, Bool.or_eq_true, beq_iff_eq] at blank
    rcases blank with ((rfl | rfl) | rfl) | rfl <;> decide
  cases kind <;> simp [GoesOn, plain]

end TokenKind

/-! ## When a token is read as written -/

def Token.GoesOn (token : Token) (c : Char) : Prop :=
  token.kind.GoesOn token.value.toList c

theorem isLongestToken_append_iff {token : Token} (formed : token.WellFormed) (more : List Char) :
    IsLongestToken token (token.written.toList ++ more) ↔
      ∀ c ∈ more.head?, ¬ token.GoesOn c := by
  constructor
  · intro longest c first goesOn
    obtain ⟨rest, rfl⟩ := List.head?_eq_some_iff.1 first
    have isLexeme := goesOn.isLexeme formed
    rw [← toList_written] at isLexeme
    have starts : token.written.toList ++ [c] <+: token.written.toList ++ c :: rest :=
      ⟨rest, by rw [List.append_assoc, List.singleton_append]⟩
    have bound := longest.longest _ _ isLexeme starts
    rw [List.length_append, List.length_singleton] at bound
    omega
  · intro stops
    refine ⟨formed, List.prefix_append _ _, fun kind lexeme isLexeme starts => ?_⟩
    by_contra longer
    have shorter := Nat.le_of_not_le longer
    obtain ⟨tail, rfl⟩ := List.prefix_of_prefix_length_le (List.prefix_append _ more) starts shorter
    obtain rfl := formed.isLexeme.kind_of_isPrefix isLexeme (List.prefix_append _ tail)
    cases tail with
    | nil => exact longer (by rw [List.append_nil])
    | cons c rest =>
        obtain ⟨after, rfl⟩ := (List.prefix_append_right_inj _).1 starts
        rw [toList_written] at isLexeme
        exact stops c rfl (TokenKind.goesOn_of_isLexeme formed isLexeme)

/-! ## Tokens that run into one another -/

namespace Token

/-- The pairs of tokens that are not read as two if the second comes right after the first. -/
def Joins (first second : Token) : Prop :=
  (first.kind = .name ∧ (second.kind = .name ∨ second.kind = .integer)) ∨
    (first.kind = .integer ∧ second.kind = .integer) ∨
    ((first = ⟨.operator, "<"⟩ ∨ first = ⟨.operator, ">"⟩) ∧ second = ⟨.operator, "="⟩)

instance (first second : Token) : Decidable (first.Joins second) :=
  inferInstanceAs (Decidable (_ ∨ _))

theorem head_eq_equals_iff {token : Token} {c : Char} {rest : List Char}
    (formed : token.WellFormed) (written : token.written.toList = c :: rest) :
    c = '=' ↔ token = ⟨.operator, "="⟩ := by
  constructor
  · rintro rfl
    have opens := opening?_of_isLexeme (written ▸ formed.isLexeme)
    obtain ⟨kind, value⟩ := token
    obtain rfl : kind = .operator := Option.some.inj (opens.symm.trans (by decide))
    have admitted : TokenKind.operator.Admits value.toList := formed
    have same : value.toList = '=' :: rest := written
    obtain rfl : rest = [] := by simpa [same, TokenKind.Admits] using admitted
    obtain rfl : value = "=" := String.toList_injective same
    rfl
  · rintro rfl
    exact (List.cons.inj written).1.symm

/-- A token joins the next one if the first character of that carries it on. -/
theorem joins_iff {first second : Token} {c : Char} {rest : List Char}
    (formed : second.WellFormed) (written : second.written.toList = c :: rest) :
    first.Joins second ↔ first.GoesOn c := by
  have opens := opening?_of_isLexeme (written ▸ formed.isLexeme)
  obtain ⟨kind, value⟩ := first
  cases kind with
  | name =>
      have continues := TokenKind.continuesName_iff_of_opening? opens
      simp [Joins, GoesOn, TokenKind.GoesOn, continues]
  | integer =>
      have digit := TokenKind.isDigit_iff_of_opening? opens
      simp [Joins, GoesOn, TokenKind.GoesOn, digit]
  | operator =>
      have equals := head_eq_equals_iff formed written
      have less : value = "<" ↔ value.toList = ['<'] := by
        rw [← String.toList_inj]
        rfl
      have greater : value = ">" ↔ value.toList = ['>'] := by
        rw [← String.toList_inj]
        rfl
      simp [Joins, GoesOn, TokenKind.GoesOn, equals, less, greater]
  | string | punctuation => simp [Joins, GoesOn, TokenKind.GoesOn]

end Token

/-! ## Written sources -/

/-- The source that has these tokens, each after its gap, and `last` after them all. -/
def sourceOf : List (List Char × Token) → List Char → List Char
  | [], last => last
  | (gap, token) :: pieces, last => gap ++ (token.written.toList ++ sourceOf pieces last)

/-- The tokens are well-formed, and what is written around them is layout. -/
structure IsWriting (indicator : Char) (pieces : List (List Char × Token)) (last : List Char) :
    Prop where
  gaps : ∀ piece ∈ pieces, Layout indicator piece.1
  formed : ∀ piece ∈ pieces, piece.2.WellFormed
  final : FinalLayout indicator last

namespace IsWriting

variable {indicator : Char} {gap last : List Char} {token : Token}
  {pieces : List (List Char × Token)}

theorem layout (writing : IsWriting indicator ((gap, token) :: pieces) last) :
    Layout indicator gap :=
  writing.gaps _ List.mem_cons_self

theorem wellFormed (writing : IsWriting indicator ((gap, token) :: pieces) last) :
    token.WellFormed :=
  writing.formed _ List.mem_cons_self

theorem tail (writing : IsWriting indicator ((gap, token) :: pieces) last) :
    IsWriting indicator pieces last :=
  ⟨(List.forall_mem_cons.1 writing.gaps).2, (List.forall_mem_cons.1 writing.formed).2,
    writing.final⟩

end IsWriting

theorem not_goesOn_of_layout {indicator : Char} (free : isReserved indicator = false)
    (token : Token) {c : Char} (opens : isBlank c = true ∨ c = indicator) : ¬ token.GoesOn c := by
  intro goesOn
  rcases opens with blank | rfl
  · exact TokenKind.not_goesOn_of_isBlank blank goesOn
  · rw [goesOn.isReserved] at free
    cases free

/-- What follows a token in a written source carries it on just if it is a token that it joins. -/
theorem goesOn_sourceOf_iff {indicator : Char} (free : isReserved indicator = false)
    {pieces : List (List Char × Token)} {last : List Char}
    (writing : IsWriting indicator pieces last) (token : Token) :
    (∀ c ∈ (sourceOf pieces last).head?, ¬ token.GoesOn c) ↔
      ∀ piece ∈ pieces.head?, piece.1 = [] → ¬ token.Joins piece.2 := by
  cases pieces with
  | nil =>
      refine ⟨fun _ => nofun, fun _ c first => ?_⟩
      obtain ⟨rest, rfl⟩ := List.head?_eq_some_iff.1 first
      exact not_goesOn_of_layout free token writing.final.head
  | cons piece pieces =>
      obtain ⟨gap, next⟩ := piece
      cases gap with
      | nil =>
          have formed := writing.wellFormed
          obtain ⟨c, rest, written, -⟩ := formed.exists_head
          simp [sourceOf, written, Token.joins_iff formed written]
      | cons c gap => simp [sourceOf, not_goesOn_of_layout free token writing.layout.head]

theorem layoutBefore_written {settings : Settings} (valid : settings.Valid) {gap : List Char}
    (layout : Layout settings.commentIndicator gap) {token : Token} (formed : token.WellFormed)
    (more : List Char) :
    LayoutBefore settings.commentIndicator gap (token.written.toList ++ more) := by
  obtain ⟨c, rest, written, opens⟩ := formed.exists_head
  rw [written]
  refine .solid layout ?_ ?_
  · by_contra blank
    rw [TokenKind.opening?_of_isBlank (by simpa using blank)] at opens
    cases opens
  · rintro rfl
    exact absurd (TokenKind.isReserved_of_opening? opens) (by simp [valid.1])

/-- A written source opens with no mark, so none of it is skipped. -/
theorem skippedMark_sourceOf {settings : Settings} (valid : settings.Valid)
    {pieces : List (List Char × Token)} {last : List Char}
    (writing : IsWriting settings.commentIndicator pieces last) :
    settings.skippedMark (sourceOf pieces last) = [] := by
  have notLayout : ¬ (isBlank byteOrderMark = true ∨ byteOrderMark = settings.commentIndicator) :=
    fun opens => opens.elim (absurd · (by decide)) fun same => valid.2 same.symm
  apply if_neg
  rintro ⟨-, opens⟩
  obtain ⟨rest, split⟩ := List.head?_eq_some_iff.1 opens
  cases pieces with
  | nil => exact notLayout (split ▸ writing.final : FinalLayout _ (byteOrderMark :: rest)).head
  | cons piece pieces =>
      obtain ⟨gap, token⟩ := piece
      cases gap with
      | nil =>
          have starts : token.written.toList <+: byteOrderMark :: rest :=
            split ▸ List.prefix_append token.written.toList (sourceOf pieces last)
          have opening := opening?_of_starts writing.wellFormed.isLexeme starts
          exact absurd opening (by cases token.kind <;> decide)
      | cons c gap =>
          obtain ⟨rfl, -⟩ := List.cons.inj split
          exact notLayout writing.layout.head

/-! ## Reading a written source -/

namespace Lexer

theorem allTokens_of_stands {lexer : Lexer} (going : lexer.stopped = false)
    {before : List Char} {pieces : List (List Char × Token)} {last : List Char}
    (writing : IsWriting lexer.settings.commentIndicator pieces last)
    (stands : lexer.unmarked = .between before (sourceOf pieces last)) :
    lexer.allTokens = .ok (pieces.map Prod.snd) ↔
      pieces.IsChain fun a b => b.1 = [] → ¬ a.2.Joins b.2 := by
  induction pieces generalizing lexer before with
  | nil =>
      obtain ⟨gap, rest, split, layout, scanned⟩ := scanToken_spec stands
      have whole : gap ++ rest = last ++ [] := by rw [← split, sourceOf, List.append_nil]
      obtain ⟨-, empty⟩ :=
        layout.unique lexer.valid.indicator_not_blank (.ended writing.final) whole
      rw [allTokens_of_end going (scanned.of_nil empty)]
      exact ⟨fun _ => .nil, fun _ => rfl⟩
  | cons piece pieces ih =>
      obtain ⟨space, token⟩ := piece
      have formed := writing.wellFormed
      obtain ⟨gap, rest, split, layout, scanned⟩ := scanToken_spec stands
      have written := layoutBefore_written lexer.valid writing.layout formed (sourceOf pieces last)
      obtain ⟨rfl, rfl⟩ := layout.unique lexer.valid.indicator_not_blank written split.symm
      have reads : lexer.scanToken.outcome = .token token ↔
          IsLongestToken token (token.written.toList ++ sourceOf pieces last) :=
        ⟨fun found => (scanned.of_token found).1, scanned.finds⟩
      rw [List.map_cons, allTokens_eq_ok_cons going, List.isChain_cons, reads,
        ← goesOn_sourceOf_iff lexer.valid.1 writing.tail token,
        ← isLongestToken_append_iff formed]
      -- The token is read or the pair is refused; if it is read, the rest is a shorter writing.
      refine and_congr_right fun longest => ?_
      obtain ⟨-, after, rest, moved⟩ := scanned.of_token (scanned.finds longest)
      obtain rfl := List.append_cancel_left rest
      have later := writing.tail
      rw [← scanToken_settings] at later
      exact ih (lexer.scanToken_stopped.trans going) later
        (unmarked_of_passed formed.isLexeme.ne_nil moved)

/-- **Reading undoes writing, unless tokens join.** A source is written from well-formed tokens,
with any layout before each of them and any final layout after them all. All its tokens are the ones
it was written from exactly if no token joins the one after it with nothing between the two. -/
theorem allTokens_sourceOf_iff {settings : Settings} {pieces : List (List Char × Token)}
    {last : List Char} {start : Lexer}
    (writing : IsWriting settings.commentIndicator pieces last)
    (made : withSettings (sourceOf pieces last) settings = .ok start) :
    start.allTokens = .ok (pieces.map Prod.snd) ↔
      pieces.IsChain fun a b => b.1 = [] → ¬ a.2.Joins b.2 := by
  obtain ⟨unread, split, stands⟩ := unmarked_of_start (cursor_of_withSettings made)
  have kept := settings_of_withSettings made
  rw [kept, skippedMark_sourceOf (kept ▸ start.valid) writing] at split stands
  obtain rfl : sourceOf pieces last = unread := split
  rw [← kept] at writing
  exact allTokens_of_stands (going_of_withSettings made) writing stands

/-- Tokens of every kind, written as close as they can be. -/
def closePieces : List (List Char × Token) :=
  [("* é\n".toList, ⟨.operator, "<"⟩), ([], ⟨.operator, "<="⟩), ([], ⟨.string, "a\\\"*"⟩),
    ([], ⟨.integer, "07"⟩), ([], ⟨.name, "X-"⟩), ([' '], ⟨.integer, "1"⟩),
    ([], ⟨.punctuation, "."⟩)]

theorem isWriting_closePieces : IsWriting '*' closePieces "\t* cut".toList := by
  have comment : Layout '*' "* é\n".toList :=
    .comment (by simp [endsLine] : ∀ d ∈ " é".toList, endsLine d = false) (by decide) .nil
  have blank : Layout '*' [' '] := .blank (by decide) .nil
  have tab : Layout '*' ['\t'] := .blank (by decide) .nil
  refine ⟨?_, by decide, .cutOff tab (by simp [endsLine] : ∀ d ∈ " cut".toList, _ = false)⟩
  simp only [closePieces, List.forall_mem_cons]
  exact ⟨comment, .nil, .nil, .nil, .nil, blank, .nil, by simp⟩

/-- The close pieces are read as written. Closer still, the name and the number after it are not. -/
theorem allTokens_closePieces :
    (ofText (sourceOf closePieces "\t* cut".toList)).allTokens = .ok (closePieces.map Prod.snd) ∧
      ¬ (ofText (sourceOf [([], ⟨.name, "X-"⟩), ([], ⟨.integer, "1"⟩)] [])).allTokens =
        .ok [⟨.name, "X-"⟩, ⟨.integer, "1"⟩] := by
  have made (text : List Char) : withSettings text {} = .ok (ofText text) :=
    withSettings_of_valid text Settings.valid_default
  refine ⟨(allTokens_sourceOf_iff isWriting_closePieces (made _)).2 (by decide), ?_⟩
  intro read
  have closer : IsWriting '*' [([], ⟨.name, "X-"⟩), ([], ⟨.integer, "1"⟩)] [] :=
    ⟨by simp [Layout.nil], by decide, .complete .nil⟩
  exact absurd ((allTokens_sourceOf_iff closer (made _)).1 read) (by decide)

end Lexer

end CobolSource
