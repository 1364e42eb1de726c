/-
# Text.Alphabet — the characters the dialect gives a meaning

A COBOL-dialect source is text, and the dialect looks at a character only through the classes of
this module. Names and numbers are ASCII: every other letter or digit is text that starts nothing.

* `isBlank`, `endsLine` — the four characters that separate lexemes, and the two of them that end
  a line comment;
* `startsName`, `continuesName` — the characters of names;
* `punctuation`, `operatorInitials` — the characters that are tokens by themselves, and those that
  a comparison starts with, in the order a report lists them;
* `isReserved` — every character that already means something where a token starts or goes on,
  strings apart. A comment indicator has to be outside it.

`CharClass` has the classes as data, so that a report over all of them is one `filter`.
-/

namespace CobolSource

set_option autoImplicit false

/-- The string delimiter. -/
def quote : Char := '"'

/-- The character that, directly before a quote, keeps a string open. -/
def escape : Char := '\\'

/-- The character that ends a phrase, when a blank or nothing follows it. -/
def period : Char := '.'

/-- The mark a text may open with, to say how its bytes are ordered. -/
def byteOrderMark : Char := '\uFEFF'

def punctuation : List Char := ['.', ',', '(', ')']

def operatorInitials : List Char := ['<', '>', '=']

/-! ## The classes -/

def isBlank (c : Char) : Bool :=
  c == ' ' || c == '\t' || c == '\r' || c == '\n'

def endsLine (c : Char) : Bool :=
  c == '\r' || c == '\n'

def startsName (c : Char) : Bool :=
  c.isAlpha

def continuesName (c : Char) : Bool :=
  c.isAlphanum || c == '-'

def isPunctuation (c : Char) : Bool :=
  punctuation.contains c

def startsOperator (c : Char) : Bool :=
  operatorInitials.contains c

def isReserved (c : Char) : Bool :=
  isBlank c || continuesName c || isPunctuation c || startsOperator c || c == quote

/-! ## The classes as data -/

inductive CharClass where
  | nameInitial
  | nameInner
  | blank
  | lineEnd
  | punctuation
  | operatorInitial
  | reserved
  deriving DecidableEq, Repr

namespace CharClass

/-- Every class, in the order a report names them. -/
def all : List CharClass :=
  [.nameInitial, .nameInner, .blank, .lineEnd, .punctuation, .operatorInitial, .reserved]

def test : CharClass → Char → Bool
  | .nameInitial => startsName
  | .nameInner => continuesName
  | .blank => isBlank
  | .lineEnd => endsLine
  | .punctuation => isPunctuation
  | .operatorInitial => startsOperator
  | .reserved => isReserved

/-- The classes a character belongs to. -/
def ofChar (c : Char) : List CharClass :=
  all.filter fun cls => cls.test c

theorem mem_ofChar {cls : CharClass} {c : Char} : cls ∈ ofChar c ↔ cls.test c = true := by
  cases cls <;> simp [ofChar, all]

end CharClass

end CobolSource
