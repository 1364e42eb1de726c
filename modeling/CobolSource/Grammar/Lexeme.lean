/-
# Grammar.Lexeme — what stands at the head of a text

`reading` looks at a text from which layout has been taken away and says what it starts with: the
token and how many characters it takes, or why there is none. The first character alone decides the
kind of lexeme; after it a lexeme takes all it can.

* a name runs on over letters, digits and hyphens, an integer over digits;
* a string runs to its closing quote (`contentLength?`). A quote directly after a backslash does
  not close it, whatever stands before that backslash: backslashes do not cancel in pairs. A string
  that never closes takes the rest of the text (`Fault.unclosedString`);
* an operator takes an equals sign after `<` or `>`, and only then.
-/
import CobolSource.Grammar.Fault
import CobolSource.Grammar.Token

namespace CobolSource

set_option autoImplicit false

/-- What a text starts with, and how many of its characters that is. -/
inductive Reading where
  /-- The text is empty. -/
  | nothing
  | token (token : Token) (width : Nat)
  | fault (fault : Fault) (width : Nat)
  deriving DecidableEq, Repr

/-- How many characters a reading takes. -/
def Reading.width : Reading → Nat
  | .nothing => 0
  | .token _ width => width
  | .fault _ width => width

/-- How many characters stand between an opening quote that has just been read and the quote that
closes it, if one does. -/
def contentLength? : List Char → Option Nat
  | [] => none
  | [c] => if c = quote then some 0 else none
  | c :: d :: rest =>
      if c = quote then some 0
      else if c = escape ∧ d = quote then (contentLength? rest).map (· + 2)
      else (contentLength? (d :: rest)).map (· + 1)

def operatorWidth : List Char → Nat
  | c :: d :: _ => if (c = '<' ∨ c = '>') ∧ d = '=' then 2 else 1
  | _ => 1

namespace Reading

/-- The first `width` characters of a text, as a token. -/
def head (kind : TokenKind) (width : Nat) (text : List Char) : Reading :=
  .token ⟨kind, String.ofList (text.take width)⟩ width

/-- The characters a text starts with that all pass `test`, as a token. -/
def run (kind : TokenKind) (test : Char → Bool) (text : List Char) : Reading :=
  head kind (text.takeWhile test).length text

/-- The string whose opening quote is followed by `rest`. -/
def string (rest : List Char) : Reading :=
  match contentLength? rest with
  | some n => .token ⟨.string, String.ofList (rest.take n)⟩ (n + 2)
  | none => .fault .unclosedString (rest.length + 1)

end Reading

def reading : List Char → Reading
  | [] => .nothing
  | c :: rest =>
      if startsName c then .run .name continuesName (c :: rest)
      else if c.isDigit then .run .integer Char.isDigit (c :: rest)
      else if c = quote then .string rest
      else if isPunctuation c then .head .punctuation 1 (c :: rest)
      else if startsOperator c then .head .operator (operatorWidth (c :: rest)) (c :: rest)
      else .fault (.unexpectedCharacter c) 1

/-! ## A reading of something takes something -/

theorem reading_nothing_iff {text : List Char} : reading text = .nothing ↔ text = [] := by
  constructor
  · intro h
    cases text with
    | nil => rfl
    | cons c rest =>
        simp only [reading, Reading.run, Reading.head, Reading.string] at h
        repeat' split at h
        all_goals cases h
  · rintro rfl
    rfl

theorem operatorWidth_pos (text : List Char) : 0 < operatorWidth text := by
  unfold operatorWidth
  repeat' split
  all_goals decide

theorem continuesName_of_startsName {c : Char} (h : startsName c = true) :
    continuesName c = true := by
  simp only [startsName] at h
  simp [continuesName, Char.isAlphanum, h]

theorem reading_width_pos {text : List Char} (h : text ≠ []) : 0 < (reading text).width := by
  cases text with
  | nil => exact absurd rfl h
  | cons c rest =>
      simp only [reading, Reading.run, Reading.head, Reading.string]
      repeat' split
      · rename_i starts
        simp [Reading.width, continuesName_of_startsName starts]
      · rename_i digit
        simp [Reading.width, digit]
      · exact Nat.succ_pos _
      · exact Nat.succ_pos _
      · exact Nat.one_pos
      · exact operatorWidth_pos _
      · exact Nat.one_pos

end CobolSource
