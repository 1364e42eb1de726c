/-
# Grammar.Phrase — a text up to the period that ends it

Paragraph headings and their entries are free text, and the names in them may hold periods
(`A.J.LOPEZ`), so a period ends a phrase only where a blank or nothing follows it. The phrase is
what stands before that period, less the blanks just before it. Quotes and comment indicators mean
nothing inside a phrase.
-/
import CobolSource.Text.Alphabet

namespace CobolSource

set_option autoImplicit false

/-- Whether a text starts with a period that ends a phrase. -/
def startsWithTerminator : List Char → Bool
  | [] => false
  | [c] => c == period
  | c :: d :: _ => c == period && isBlank d

/-- How many characters stand before the first period that ends a phrase; all of them, if there is
no such period. -/
def bodyLength : List Char → Nat
  | [] => 0
  | c :: rest => if startsWithTerminator (c :: rest) then 0 else bodyLength rest + 1

def trimEnd (text : List Char) : List Char :=
  (text.reverse.dropWhile isBlank).reverse

/-- The phrase that a text starts with. -/
def phraseText (text : List Char) : List Char :=
  trimEnd (text.take (bodyLength text))

end CobolSource
