/-
# Proofs.LexemeLanguage — the five kinds of lexeme as languages

`TokenKind.Admits` says which values the tokens of a kind have, `TokenKind.lexeme` how a source
writes them, and `IsLexeme` is the language of the kind. No two kinds share a lexeme, because its
first character gives the kind away (`opening?_of_isLexeme`).

A string's content is defined by looking back: each quote in it stands directly after a backslash,
and a backslash does not end it. `contentLength?` never looks back, it takes a backslash and a quote
together, and still finds just this (`contentLength?_eq_some_iff`); so a string has only one place
where it can close.

`reading` takes the longest lexeme that a text starts with, and fails only on a text that starts
with none (`reads_reading`, `reading_eq_token_iff`).
-/
import CobolSource.Grammar.Lexeme
import Mathlib.Data.List.Chain
import Mathlib.Tactic.SplitIfs

namespace CobolSource

set_option autoImplicit false

/-! ## Languages -/

/-- Two characters that may follow each other inside a string. -/
def KeepsOpen (c d : Char) : Prop :=
  d = quote → c = escape

instance (c d : Char) : Decidable (KeepsOpen c d) :=
  inferInstanceAs (Decidable (_ → _))

/-- What may stand between the quotes of a string: each quote directly after a backslash, from the
opening quote on, and no backslash last. -/
def IsContent (content : List Char) : Prop :=
  (quote :: content).IsChain KeepsOpen ∧ content.getLast? ≠ some escape

instance (content : List Char) : Decidable (IsContent content) :=
  inferInstanceAs (Decidable (_ ∧ _))

namespace TokenKind

/-- The values that tokens of each kind have. Letters and digits are those of ASCII. -/
def Admits : TokenKind → List Char → Prop
  | .name, [] => False
  | .name, c :: rest => c.isAlpha = true ∧ ∀ d ∈ rest, d.isAlphanum = true ∨ d = '-'
  | .integer, value => value ≠ [] ∧ ∀ d ∈ value, d.isDigit = true
  | .string, value => IsContent value
  | .punctuation, value => value ∈ [['.'], [','], ['('], [')']]
  | .operator, value => value ∈ [['<'], ['>'], ['='], ['<', '='], ['>', '=']]

instance : (kind : TokenKind) → (value : List Char) → Decidable (kind.Admits value)
  | .name, [] => inferInstanceAs (Decidable False)
  | .name, _ :: rest => @instDecidableAnd _ _ _ (List.decidableBAll _ rest)
  | .integer, value => @instDecidableAnd _ _ _ (List.decidableBAll _ value)
  | .string, _ => inferInstanceAs (Decidable (IsContent _))
  | .punctuation, _ => inferInstanceAs (Decidable (_ ∈ _))
  | .operator, _ => inferInstanceAs (Decidable (_ ∈ _))

/-- The text that a source has for a value. -/
def lexeme : TokenKind → List Char → List Char
  | .string, value => quote :: (value ++ [quote])
  | _, value => value

end TokenKind

def IsLexeme (kind : TokenKind) (text : List Char) : Prop :=
  ∃ value, kind.Admits value ∧ text = kind.lexeme value

/-- A token that some source has. -/
def Token.WellFormed (token : Token) : Prop :=
  token.kind.Admits token.value.toList

instance (token : Token) : Decidable token.WellFormed :=
  inferInstanceAs (Decidable (token.kind.Admits _))

theorem toList_written (token : Token) :
    token.written.toList = token.kind.lexeme token.value.toList := by
  obtain ⟨kind, value⟩ := token
  cases kind <;> simp [Token.written, TokenKind.lexeme]

theorem Token.WellFormed.isLexeme {token : Token} (wellFormed : token.WellFormed) :
    IsLexeme token.kind token.written.toList :=
  ⟨token.value.toList, wellFormed, toList_written token⟩

/-! ## Where a string closes -/

namespace IsContent

theorem nil : IsContent [] := by decide

theorem cons {c : Char} {content : List Char} (plain : c ≠ quote)
    (goesOn : c = escape → content ≠ []) (h : IsContent content) : IsContent (c :: content) := by
  obtain ⟨chain, ending⟩ := h
  cases content with
  | nil =>
      have notEscape : c ≠ escape := fun same => goesOn same rfl
      refine ⟨?_, ?_⟩
      · rw [List.isChain_cons_cons]
        exact ⟨fun same => absurd same plain, .singleton c⟩
      · simpa using notEscape
  | cons d content =>
      rw [List.isChain_cons_cons] at chain
      have notQuote : d ≠ quote := fun same => absurd (chain.1 same) (by decide)
      refine ⟨?_, ?_⟩
      · rw [List.isChain_cons_cons, List.isChain_cons_cons]
        exact ⟨fun same => absurd same plain, fun same => absurd same notQuote, chain.2⟩
      · rwa [List.getLast?_cons_cons]

theorem escaped {content : List Char} (h : IsContent content) :
    IsContent (escape :: quote :: content) := by
  obtain ⟨chain, ending⟩ := h
  refine ⟨?_, ?_⟩
  · rw [List.isChain_cons_cons, List.isChain_cons_cons]
    exact ⟨by decide, fun _ => rfl, chain⟩
  · cases content with
    | nil => decide
    | cons c content => rwa [List.getLast?_cons_cons, List.getLast?_cons_cons]

theorem head_ne {c : Char} {content : List Char} (h : IsContent (c :: content)) : c ≠ quote :=
  fun same => absurd ((List.isChain_cons_cons.1 h.1).1 same) (by decide)

theorem of_escaped {content : List Char} (h : IsContent (escape :: quote :: content)) :
    IsContent content := by
  obtain ⟨chain, ending⟩ := h
  rw [List.isChain_cons_cons, List.isChain_cons_cons] at chain
  refine ⟨chain.2.2, ?_⟩
  cases content with
  | nil => decide
  | cons c content => rwa [List.getLast?_cons_cons, List.getLast?_cons_cons] at ending

theorem of_cons {c d : Char} {content : List Char} (h : IsContent (c :: d :: content))
    (plain : ¬ (c = escape ∧ d = quote)) : IsContent (d :: content) := by
  obtain ⟨chain, ending⟩ := h
  rw [List.isChain_cons_cons, List.isChain_cons_cons] at chain
  have notQuote : d ≠ quote := fun same => plain ⟨chain.2.1 same, same⟩
  refine ⟨?_, ?_⟩
  · rw [List.isChain_cons_cons]
    exact ⟨fun same => absurd same notQuote, chain.2.2⟩
  · rwa [List.getLast?_cons_cons] at ending

end IsContent

theorem contentLength?_quote (rest : List Char) : contentLength? (quote :: rest) = some 0 := by
  cases rest <;> rfl

/-- A content and a quote after it are read as far as that quote. -/
theorem contentLength?_append : ∀ {content : List Char}, IsContent content → ∀ rest,
    contentLength? (content ++ quote :: rest) = some content.length
  | [], _, rest => contentLength?_quote rest
  | [c], h, rest => by
      have notEscape : c ≠ escape := fun same => h.2 (congrArg some same)
      rw [List.singleton_append, contentLength?, if_neg h.head_ne,
        if_neg (fun both => notEscape both.1), contentLength?_quote]
      rfl
  | c :: d :: content, h, rest => by
      rw [List.cons_append, List.cons_append, contentLength?, if_neg h.head_ne]
      by_cases pair : c = escape ∧ d = quote
      · obtain ⟨rfl, rfl⟩ := pair
        rw [if_pos ⟨rfl, rfl⟩, contentLength?_append h.of_escaped rest]
        rfl
      · rw [if_neg pair, ← List.cons_append, contentLength?_append (h.of_cons pair) rest]
        rfl

/-- Where a string is read to close, a content ends. -/
theorem exists_content : ∀ {text : List Char} {n : Nat}, contentLength? text = some n →
    ∃ content rest, text = content ++ quote :: rest ∧ IsContent content ∧ content.length = n
  | [], n, closes => by cases closes
  | [c], n, closes => by
      rw [contentLength?] at closes
      split at closes
      · rename_i closing
        subst closing
        exact ⟨[], [], rfl, .nil, Option.some.inj closes⟩
      · cases closes
  | c :: d :: text, n, closes => by
      rw [contentLength?] at closes
      split at closes
      · rename_i closing
        subst closing
        exact ⟨[], d :: text, rfl, .nil, Option.some.inj closes⟩
      · rename_i plain
        split at closes
        · rename_i pair
          obtain ⟨rfl, rfl⟩ := pair
          obtain ⟨m, later, rfl⟩ := Option.map_eq_some_iff.1 closes
          obtain ⟨content, rest, rfl, isContent, rfl⟩ := exists_content later
          exact ⟨escape :: quote :: content, rest, rfl, isContent.escaped, rfl⟩
        · rename_i single
          obtain ⟨m, later, rfl⟩ := Option.map_eq_some_iff.1 closes
          obtain ⟨content, rest, split, isContent, rfl⟩ := exists_content later
          refine ⟨c :: content, rest, by rw [split, List.cons_append], ?_, rfl⟩
          -- After a lone backslash comes no quote, so the content found is not empty.
          refine isContent.cons plain ?_
          rintro rfl rfl
          exact single ⟨rfl, (List.cons.inj split).1⟩

theorem contentLength?_eq_some_iff {text : List Char} {n : Nat} :
    contentLength? text = some n ↔
      ∃ content rest, text = content ++ quote :: rest ∧ IsContent content ∧ content.length = n := by
  constructor
  · exact exists_content
  · rintro ⟨content, rest, rfl, isContent, rfl⟩
    exact contentLength?_append isContent rest

/-- A string stays open where each quote stands directly after a backslash. -/
theorem keepsOpen_of_unclosed : ∀ {text : List Char}, contentLength? text = none →
    (quote :: text).IsChain KeepsOpen
  | [], _ => .singleton quote
  | [c], unclosed => by
      have plain : c ≠ quote := by
        rintro rfl
        cases unclosed
      exact List.isChain_pair.2 fun same => absurd same plain
  | c :: d :: text, unclosed => by
      rw [contentLength?] at unclosed
      split_ifs at unclosed with closing pair
      · obtain ⟨rfl, rfl⟩ := pair
        have later := keepsOpen_of_unclosed (Option.map_eq_none_iff.1 unclosed)
        rw [List.isChain_cons_cons, List.isChain_cons_cons]
        exact ⟨fun same => absurd same closing, fun _ => rfl, later⟩
      · have later := keepsOpen_of_unclosed (Option.map_eq_none_iff.1 unclosed)
        rw [List.isChain_cons_cons] at later ⊢
        -- Nothing but the backslash keeps a quote open, so the next character is no quote.
        have plain : d ≠ quote := fun same => absurd (later.1 same) (by decide)
        rw [List.isChain_cons_cons]
        exact ⟨fun same => absurd same closing, fun same => absurd same plain, later.2⟩

theorem contentLength?_eq_none_iff {text : List Char} :
    contentLength? text = none ↔ (quote :: text).IsChain KeepsOpen := by
  constructor
  · exact keepsOpen_of_unclosed
  · intro chain
    by_contra closed
    obtain ⟨n, closes⟩ := Option.ne_none_iff_exists'.1 closed
    obtain ⟨content, rest, rfl, isContent, -⟩ := exists_content closes
    rw [← List.cons_append, List.isChain_append] at chain
    have joint := chain.2.2
    cases content with
    | nil => exact absurd (joint quote rfl quote rfl rfl) (by decide)
    | cons c content =>
        obtain ⟨last, is⟩ :=
          Option.isSome_iff_exists.1 (List.getLast?_isSome.2 (List.cons_ne_nil c content))
        have escaped := joint last (by rw [List.getLast?_cons_cons]; exact is) quote rfl rfl
        exact isContent.2 (escaped ▸ is)

/-! ## The first character tells the kind -/

/-- The kind of the lexemes that start with a character, if any do. -/
def TokenKind.opening? (c : Char) : Option TokenKind :=
  if startsName c then some .name
  else if c.isDigit then some .integer
  else if c = quote then some .string
  else if isPunctuation c then some .punctuation
  else if startsOperator c then some .operator
  else none

/-- A character is found unexpected exactly if it opens no lexeme. -/
theorem reading_eq_unexpected_iff {c d : Char} {rest : List Char} {width : Nat} :
    reading (c :: rest) = .fault (.unexpectedCharacter d) width ↔
      TokenKind.opening? c = none ∧ d = c ∧ width = 1 := by
  rw [reading, TokenKind.opening?]
  split_ifs with name digit string mark operator
  · simp [Reading.run, Reading.head]
  · simp [Reading.run, Reading.head]
  · rw [Reading.string]
    split <;> simp
  · simp [Reading.head]
  · simp [Reading.head]
  · constructor
    · rintro ⟨⟩
      exact ⟨rfl, rfl, rfl⟩
    · rintro ⟨-, rfl, rfl⟩
      rfl

theorem reading_quote (body : List Char) : reading (quote :: body) = Reading.string body := rfl

/-- A string is found open exactly if nothing closes it, and then it takes the whole text. -/
theorem reading_eq_unclosed_iff {text : List Char} {width : Nat} :
    reading text = .fault .unclosedString width ↔
      ∃ body, text = quote :: body ∧ contentLength? body = none ∧ width = text.length := by
  constructor
  · intro read
    cases text with
    | nil => cases read
    | cons c rest =>
        rw [reading] at read
        split_ifs at read with name digit string mark operator
        · cases read
        · cases read
        · subst string
          rw [Reading.string] at read
          split at read
          · cases read
          · rename_i unclosed
            cases read
            exact ⟨rest, rfl, unclosed, rfl⟩
        · cases read
        · cases read
        · cases read
  · rintro ⟨body, rfl, unclosed, rfl⟩
    rw [reading_quote, Reading.string, unclosed]
    rfl

theorem startsName_eq_false_of_isDigit {c : Char} (digit : c.isDigit = true) :
    startsName c = false := by
  have most : c.val ≤ '9'.val := of_decide_eq_true (Bool.and_eq_true_iff.1 digit).2
  rw [Bool.eq_false_iff]
  intro starts
  -- Both ranges of letters start above the digits.
  rcases Bool.or_eq_true_iff.1 starts with upper | lower
  · have least : 'A'.val ≤ c.val := (of_decide_eq_true upper).1
    exact absurd (UInt32.le_trans least most) (by decide)
  · have least : 'a'.val ≤ c.val := of_decide_eq_true (Bool.and_eq_true_iff.1 lower).1
    exact absurd (UInt32.le_trans least most) (by decide)

theorem opening?_of_isLexeme {kind : TokenKind} {c : Char} {rest : List Char}
    (lexeme : IsLexeme kind (c :: rest)) : TokenKind.opening? c = some kind := by
  obtain ⟨value, admitted, written⟩ := lexeme
  cases kind with
  | name =>
      subst written
      exact if_pos admitted.1
  | integer =>
      obtain ⟨-, digits⟩ := admitted
      subst written
      have digit := digits c List.mem_cons_self
      simp [TokenKind.opening?, startsName_eq_false_of_isDigit digit, digit]
  | string =>
      obtain ⟨rfl, -⟩ := List.cons.inj written
      decide
  | punctuation =>
      subst written
      simp only [TokenKind.Admits, List.mem_cons, List.cons.injEq, List.not_mem_nil,
        or_false] at admitted
      rcases admitted with ⟨rfl, -⟩ | ⟨rfl, -⟩ | ⟨rfl, -⟩ | ⟨rfl, -⟩ <;> decide
  | operator =>
      subst written
      simp only [TokenKind.Admits, List.mem_cons, List.cons.injEq, List.not_mem_nil,
        or_false] at admitted
      rcases admitted with ⟨rfl, -⟩ | ⟨rfl, -⟩ | ⟨rfl, -⟩ | ⟨rfl, -⟩ | ⟨rfl, -⟩ <;> decide

theorem IsLexeme.ne_nil {kind : TokenKind} {text : List Char} (lexeme : IsLexeme kind text) :
    text ≠ [] := by
  rintro rfl
  obtain ⟨value, admitted, written⟩ := lexeme
  cases kind with
  | string => cases written
  | name | integer | punctuation | operator =>
      subst written
      exact absurd admitted (by decide)

theorem opening?_of_starts {kind : TokenKind} {c : Char} {lexeme rest : List Char}
    (isLexeme : IsLexeme kind lexeme) (starts : lexeme <+: c :: rest) :
    TokenKind.opening? c = some kind := by
  cases lexeme with
  | nil => exact absurd rfl isLexeme.ne_nil
  | cons d more =>
      obtain ⟨rfl, -⟩ := List.cons_prefix_cons.1 starts
      exact opening?_of_isLexeme isLexeme

theorem Token.WellFormed.exists_head {token : Token} (formed : token.WellFormed) :
    ∃ c rest, token.written.toList = c :: rest ∧ TokenKind.opening? c = some token.kind := by
  have isLexeme := formed.isLexeme
  obtain ⟨c, rest, written⟩ := List.exists_cons_of_ne_nil isLexeme.ne_nil
  rw [written] at isLexeme
  exact ⟨c, rest, written, opening?_of_isLexeme isLexeme⟩

/-- A lexeme that starts another is of its kind. -/
theorem IsLexeme.kind_of_isPrefix {first second : TokenKind} {short long : List Char}
    (one : IsLexeme first short) (other : IsLexeme second long) (starts : short <+: long) :
    first = second := by
  cases long with
  | nil => exact absurd rfl other.ne_nil
  | cons c rest =>
      have same := (opening?_of_starts one starts).symm.trans (opening?_of_isLexeme other)
      exact Option.some.inj same

/-- No text is a lexeme of two kinds. -/
theorem IsLexeme.kind_unique {first second : TokenKind} {text : List Char}
    (one : IsLexeme first text) (other : IsLexeme second text) : first = second :=
  one.kind_of_isPrefix other (List.prefix_refl text)

/-! ## The longest lexeme -/

/-- A text starts with a token as it is written, and with no lexeme that is longer. -/
structure IsLongestToken (token : Token) (text : List Char) : Prop where
  wellFormed : token.WellFormed
  isPrefix : token.written.toList <+: text
  longest : ∀ kind lexeme, IsLexeme kind lexeme → lexeme <+: text →
    lexeme.length ≤ token.written.toList.length

/-- What a reading says of a text is so: the token is the longest one, or no lexeme is there. -/
def Reading.Reads (text : List Char) : Reading → Prop
  | .nothing => text = []
  | .token found width => IsLongestToken found text ∧ found.written.toList.length = width
  | .fault .unclosedString width =>
      text.head? = some quote ∧ width = text.length ∧
        ∀ kind lexeme, IsLexeme kind lexeme → ¬ lexeme <+: text
  | .fault (.unexpectedCharacter c) width =>
      text.head? = some c ∧ c ≠ quote ∧ width = 1 ∧
        ∀ kind lexeme, IsLexeme kind lexeme → ¬ lexeme <+: text

theorem length_le_takeWhile {test : Char → Bool} {part text : List Char}
    (passes : ∀ c ∈ part, test c = true) (starts : part <+: text) :
    part.length ≤ (text.takeWhile test).length := by
  obtain ⟨rest, rfl⟩ := starts
  rw [List.takeWhile_append_of_pos passes, List.length_append]
  exact Nat.le_add_right _ _

theorem take_length_takeWhile (test : Char → Bool) (text : List Char) :
    text.take (text.takeWhile test).length = text.takeWhile test :=
  (List.prefix_iff_eq_take.1 (List.takeWhile_prefix test)).symm

/-- Where a lexeme is its own value, it is enough to know the values of its kind. -/
theorem reads_head {kind : TokenKind} (plain : ∀ value, kind.lexeme value = value)
    {c : Char} {rest : List Char} (opens : TokenKind.opening? c = some kind) {width : Nat}
    (fits : width ≤ (c :: rest).length) (admitted : kind.Admits ((c :: rest).take width))
    (bound : ∀ value, kind.Admits value → value <+: c :: rest → value.length ≤ width) :
    (Reading.head kind width (c :: rest)).Reads (c :: rest) := by
  have written : (Token.mk kind (String.ofList ((c :: rest).take width))).written.toList =
      (c :: rest).take width := by
    rw [toList_written, plain, String.toList_ofList]
  refine ⟨⟨?_, ?_, ?_⟩, by rw [written, List.length_take_of_le fits]⟩
  · rwa [Token.WellFormed, String.toList_ofList]
  · rw [written]
    exact List.take_prefix width _
  · intro other lexeme isLexeme starts
    have same := opens.symm.trans (opening?_of_starts isLexeme starts)
    cases Option.some.inj same
    obtain ⟨value, admits, rfl⟩ := isLexeme
    rw [plain] at starts
    rw [written, plain, List.length_take]
    exact Nat.le_min.2 ⟨bound value admits starts, starts.length_le⟩

theorem reads_name {c : Char} (rest : List Char) (starts : startsName c = true) :
    (Reading.run .name continuesName (c :: rest)).Reads (c :: rest) := by
  have goesOn : continuesName c = true := continuesName_of_startsName starts
  apply reads_head (fun _ => rfl) (if_pos starts) (List.takeWhile_prefix _).length_le
  · rw [take_length_takeWhile, List.takeWhile_cons_of_pos goesOn]
    refine ⟨starts, fun d member => ?_⟩
    have passes := List.all_eq_true.1 List.all_takeWhile d member
    simpa [continuesName] using passes
  · intro value admitted isPrefix
    apply length_le_takeWhile _ isPrefix
    cases value with
    | nil => exact absurd admitted (by decide)
    | cons d more =>
        obtain ⟨rfl, -⟩ := List.cons_prefix_cons.1 isPrefix
        refine List.forall_mem_cons.2 ⟨goesOn, fun e member => ?_⟩
        simpa [continuesName] using admitted.2 e member

theorem reads_integer {c : Char} (rest : List Char)
    (opens : TokenKind.opening? c = some .integer) (digit : c.isDigit = true) :
    (Reading.run .integer Char.isDigit (c :: rest)).Reads (c :: rest) := by
  apply reads_head (fun _ => rfl) opens (List.takeWhile_prefix _).length_le
  · rw [take_length_takeWhile]
    refine ⟨?_, fun d member => List.all_eq_true.1 List.all_takeWhile d member⟩
    rw [List.takeWhile_cons_of_pos digit]
    exact List.cons_ne_nil _ _
  · intro value admitted isPrefix
    exact length_le_takeWhile admitted.2 isPrefix

theorem reads_punctuation {c : Char} (rest : List Char)
    (opens : TokenKind.opening? c = some .punctuation) (mark : isPunctuation c = true) :
    (Reading.head .punctuation 1 (c :: rest)).Reads (c :: rest) := by
  apply reads_head (fun _ => rfl) opens (Nat.succ_le_succ (Nat.zero_le _))
  · simpa [isPunctuation, punctuation, TokenKind.Admits] using mark
  · intro value admitted _
    simp only [TokenKind.Admits, List.mem_cons, List.not_mem_nil, or_false] at admitted
    rcases admitted with rfl | rfl | rfl | rfl <;> decide

theorem operatorWidth_pair {c d : Char} (pair : (c = '<' ∨ c = '>') ∧ d = '=') (rest : List Char) :
    operatorWidth (c :: d :: rest) = 2 :=
  if_pos pair

theorem operatorWidth_single {c : Char} {rest : List Char}
    (single : ¬ ((c = '<' ∨ c = '>') ∧ rest.head? = some '=')) : operatorWidth (c :: rest) = 1 := by
  cases rest with
  | nil => rfl
  | cons d more =>
      rw [List.head?_cons, Option.some.injEq] at single
      exact if_neg single

theorem operatorWidth_le (c : Char) (rest : List Char) :
    operatorWidth (c :: rest) ≤ (c :: rest).length := by
  by_cases pair : (c = '<' ∨ c = '>') ∧ rest.head? = some '='
  · obtain ⟨angle, follows⟩ := pair
    obtain ⟨more, rfl⟩ := List.head?_eq_some_iff.1 follows
    rw [operatorWidth_pair ⟨angle, rfl⟩]
    exact Nat.le_add_left 2 _
  · rw [operatorWidth_single pair]
    exact Nat.le_add_left 1 _

theorem reads_operator {c : Char} (rest : List Char)
    (opens : TokenKind.opening? c = some .operator) (starts : startsOperator c = true) :
    (Reading.head .operator (operatorWidth (c :: rest)) (c :: rest)).Reads (c :: rest) := by
  have initial : c = '<' ∨ c = '>' ∨ c = '=' := by
    simpa [startsOperator, operatorInitials] using starts
  apply reads_head (fun _ => rfl) opens (operatorWidth_le c rest)
  · by_cases pair : (c = '<' ∨ c = '>') ∧ rest.head? = some '='
    · obtain ⟨angle, follows⟩ := pair
      obtain ⟨more, rfl⟩ := List.head?_eq_some_iff.1 follows
      rw [operatorWidth_pair ⟨angle, rfl⟩]
      rcases angle with rfl | rfl <;> simp [TokenKind.Admits]
    · rw [operatorWidth_single pair]
      rcases initial with rfl | rfl | rfl <;> simp [TokenKind.Admits]
  · intro value admitted isPrefix
    simp only [TokenKind.Admits, List.mem_cons, List.not_mem_nil, or_false] at admitted
    have one := operatorWidth_pos (c :: rest)
    rcases admitted with rfl | rfl | rfl | rfl | rfl
    · exact one
    · exact one
    · exact one
    -- The two-character forms: the text has both characters, and so the width counts both.
    · obtain ⟨more, split⟩ := isPrefix
      rw [← split]
      exact Nat.le_refl 2
    · obtain ⟨more, split⟩ := isPrefix
      rw [← split]
      exact Nat.le_refl 2

/-- Two contents that a text starts with, each with a quote after it, are one. -/
theorem IsContent.unique {first second : List Char} {text : List Char} (one : IsContent first)
    (other : IsContent second) (starts : first ++ [quote] <+: text)
    (too : second ++ [quote] <+: text) : first = second := by
  obtain ⟨rest, rfl⟩ := starts
  obtain ⟨more, same⟩ := too
  rw [List.append_assoc, List.append_assoc, List.singleton_append, List.singleton_append] at same
  have closes := contentLength?_append one rest
  rw [← same, contentLength?_append other more] at closes
  exact (List.append_inj same (Option.some.inj closes)).1.symm

theorem isLongestToken_string {content : List Char} (isContent : IsContent content)
    (rest : List Char) :
    IsLongestToken ⟨.string, String.ofList content⟩ (quote :: (content ++ quote :: rest)) := by
  have written : (Token.mk .string (String.ofList content)).written.toList =
      quote :: (content ++ [quote]) := by
    rw [toList_written, String.toList_ofList]
    rfl
  have starts : content ++ [quote] <+: content ++ quote :: rest :=
    ⟨rest, by rw [List.append_assoc, List.singleton_append]⟩
  refine ⟨?_, ?_, ?_⟩
  · rwa [Token.WellFormed, String.toList_ofList]
  · rw [written]
    exact List.cons_prefix_cons.2 ⟨rfl, starts⟩
  · intro kind lexeme isLexeme isPrefix
    have opens : TokenKind.opening? quote = some .string := by decide
    have same := opens.symm.trans (opening?_of_starts isLexeme isPrefix)
    cases Option.some.inj same
    obtain ⟨other, admits, rfl⟩ := isLexeme
    obtain ⟨-, otherStarts⟩ := List.cons_prefix_cons.1 isPrefix
    rw [written, IsContent.unique isContent admits starts otherStarts]
    exact Nat.le_refl _

theorem not_isPrefix_of_unclosed {rest : List Char} (unclosed : contentLength? rest = none)
    {kind : TokenKind} {lexeme : List Char} (isLexeme : IsLexeme kind lexeme) :
    ¬ lexeme <+: quote :: rest := by
  intro isPrefix
  have opens : TokenKind.opening? quote = some .string := by decide
  have same := opens.symm.trans (opening?_of_starts isLexeme isPrefix)
  cases Option.some.inj same
  obtain ⟨content, admits, rfl⟩ := isLexeme
  obtain ⟨-, more, split⟩ := List.cons_prefix_cons.1 isPrefix
  rw [← split, List.append_assoc, List.singleton_append, contentLength?_append admits] at unclosed
  cases unclosed

theorem reads_string (rest : List Char) : (Reading.string rest).Reads (quote :: rest) := by
  unfold Reading.string
  cases closes : contentLength? rest with
  | none => exact ⟨rfl, rfl, fun _ _ isLexeme => not_isPrefix_of_unclosed closes isLexeme⟩
  | some n =>
      obtain ⟨content, more, rfl, isContent, rfl⟩ := exists_content closes
      dsimp only
      rw [List.take_left]
      refine ⟨isLongestToken_string isContent more, ?_⟩
      simp [toList_written, TokenKind.lexeme]

/-- **Reading is maximal munch.** -/
theorem reads_reading (text : List Char) : (reading text).Reads text := by
  cases text with
  | nil => exact (rfl : ([] : List Char) = [])
  | cons c rest =>
      rw [reading]
      split_ifs with name digit string mark operator
      · exact reads_name rest name
      · exact reads_integer rest (by rw [TokenKind.opening?, if_neg name, if_pos digit]) digit
      · subst string
        exact reads_string rest
      · refine reads_punctuation rest ?_ mark
        rw [TokenKind.opening?, if_neg name, if_neg digit, if_neg string, if_pos mark]
      · refine reads_operator rest ?_ operator
        rw [TokenKind.opening?, if_neg name, if_neg digit, if_neg string, if_neg mark,
          if_pos operator]
      · have opens : TokenKind.opening? c = none := by
          rw [TokenKind.opening?, if_neg name, if_neg digit, if_neg string, if_neg mark,
            if_neg operator]
        refine ⟨rfl, string, rfl, fun kind lexeme isLexeme starts => ?_⟩
        rw [opening?_of_starts isLexeme starts] at opens
        cases opens

theorem TokenKind.lexeme_injective {kind : TokenKind} {first second : List Char}
    (same : kind.lexeme first = kind.lexeme second) : first = second := by
  cases kind with
  | string => exact List.append_cancel_right (List.cons.inj same).2
  | name | integer | punctuation | operator => exact same

/-- A token is known by how it is written, if it is well-formed. -/
theorem Token.eq_of_written {first second : Token} (one : first.WellFormed)
    (other : second.WellFormed) (same : first.written.toList = second.written.toList) :
    first = second := by
  have kinds : first.kind = second.kind := by
    have lexeme := one.isLexeme
    rw [same] at lexeme
    exact lexeme.kind_unique other.isLexeme
  rw [toList_written, toList_written, kinds] at same
  have values := String.toList_injective (TokenKind.lexeme_injective same)
  obtain ⟨kind, value⟩ := first
  obtain ⟨kind', value'⟩ := second
  cases kinds
  cases values
  rfl

theorem IsLongestToken.unique {first second : Token} {text : List Char}
    (one : IsLongestToken first text) (other : IsLongestToken second text) : first = second := by
  apply Token.eq_of_written one.wellFormed other.wellFormed
  have shorter := one.longest _ _ other.wellFormed.isLexeme other.isPrefix
  have longer := other.longest _ _ one.wellFormed.isLexeme one.isPrefix
  have starts := List.prefix_of_prefix_length_le one.isPrefix other.isPrefix longer
  exact starts.eq_of_length (Nat.le_antisymm longer shorter)

theorem reading_eq_token_iff {token : Token} {text : List Char} {width : Nat} :
    reading text = .token token width ↔
      IsLongestToken token text ∧ token.written.toList.length = width := by
  have reads := reads_reading text
  constructor
  · intro read
    rwa [read] at reads
  · rintro ⟨longest, rfl⟩
    have isLexeme := longest.wellFormed.isLexeme
    cases read : reading text with
    | nothing =>
        rw [reading_nothing_iff] at read
        subst read
        exact absurd (List.prefix_nil.1 longest.isPrefix) isLexeme.ne_nil
    | token found width =>
        rw [read] at reads
        obtain ⟨foundLongest, rfl⟩ := reads
        rw [foundLongest.unique longest]
    | fault fault width =>
        rw [read] at reads
        cases fault with
        | unclosedString => exact absurd longest.isPrefix (reads.2.2 _ _ isLexeme)
        | unexpectedCharacter c => exact absurd longest.isPrefix (reads.2.2.2 _ _ isLexeme)

/-- What is read is there. -/
theorem reading_width_le (text : List Char) : (reading text).width ≤ text.length := by
  have reads := reads_reading text
  cases read : reading text with
  | nothing => exact Nat.zero_le _
  | token token width =>
      rw [read] at reads
      obtain ⟨longest, rfl⟩ := reads
      exact longest.isPrefix.length_le
  | fault fault width =>
      rw [read] at reads
      cases fault with
      | unclosedString => exact Nat.le_of_eq reads.2.1
      | unexpectedCharacter c =>
          obtain ⟨opens, -, rfl, -⟩ := reads
          obtain ⟨rest, rfl⟩ := List.head?_eq_some_iff.1 opens
          exact Nat.le_add_left 1 _

end CobolSource
