/-
# Grammar.Layout — what may stand between lexemes

Layout is blanks and line comments. A line comment opens at a comment indicator that stands where a
lexeme would, takes the rest of its line, and takes the end of that line too: CR, LF, or the two
together. Empty lines and comment lines may follow one another freely, so `layoutLength` skips
blanks, then a comment if there is one, and starts again after it.

Every round but the last skips an indicator, so the text itself has characters enough to count the
rounds by: `layoutRounds` recurses on a second hold of it, and `layoutRounds_congr` says that any
list at least as long would do. `layoutLength_eq` is the rule with no count left in it.
-/
import CobolSource.Text.Alphabet

namespace CobolSource

set_option autoImplicit false

def blankLength (text : List Char) : Nat :=
  (text.takeWhile isBlank).length

/-- The characters that end a line at the head of a text. -/
def lineEndLength : List Char → Nat
  | '\r' :: '\n' :: _ => 2
  | c :: _ => if endsLine c then 1 else 0
  | [] => 0

/-- The length of a comment whose indicator has just been read. -/
def commentLength (text : List Char) : Nat :=
  let body := (text.takeWhile fun c => !endsLine c).length
  body + lineEndLength (text.drop body)

def layoutRounds (indicator : Char) : List Char → List Char → Nat
  | [], _ => 0
  | _ :: rounds, text =>
      let blank := blankLength text
      match text.drop blank with
      | [] => blank
      | c :: rest =>
          if c = indicator then
            let comment := commentLength rest
            blank + (1 + (comment + layoutRounds indicator rounds (rest.drop comment)))
          else blank

/-- How many characters of layout a text starts with. -/
def layoutLength (indicator : Char) (text : List Char) : Nat :=
  layoutRounds indicator text text

/-! ## The rule without its count of rounds -/

@[simp] theorem layoutRounds_nil (indicator : Char) (rounds : List Char) :
    layoutRounds indicator rounds [] = 0 := by
  cases rounds <;> simp [layoutRounds, blankLength]

/-- Any two lists as long as the text count its rounds alike. -/
theorem layoutRounds_congr (indicator : Char) :
    ∀ (first second text : List Char), text.length ≤ first.length → text.length ≤ second.length →
      layoutRounds indicator first text = layoutRounds indicator second text
  | [], second, text, hfirst, _ => by
      have hnil : text = [] := List.eq_nil_of_length_eq_zero (Nat.le_zero.1 hfirst)
      subst hnil
      simp
  | _ :: _, [], text, _, hsecond => by
      have hnil : text = [] := List.eq_nil_of_length_eq_zero (Nat.le_zero.1 hsecond)
      subst hnil
      simp
  | _ :: first, _ :: second, text, hfirst, hsecond => by
      simp only [layoutRounds]
      split
      · rfl
      · rename_i c rest hdrop
        have hlen : rest.length + 1 ≤ text.length := by
          rw [← List.length_cons (a := c), ← hdrop, List.length_drop]
          exact Nat.sub_le ..
        simp only [List.length_cons] at hfirst hsecond
        rw [layoutRounds_congr indicator first second (rest.drop (commentLength rest))
          (by rw [List.length_drop]; omega) (by rw [List.length_drop]; omega)]

theorem layoutLength_eq (indicator : Char) (text : List Char) :
    layoutLength indicator text =
      match text.drop (blankLength text) with
      | [] => blankLength text
      | c :: rest =>
          if c = indicator then
            blankLength text +
              (1 + (commentLength rest + layoutLength indicator (rest.drop (commentLength rest))))
          else blankLength text := by
  cases text with
  | nil => simp [layoutLength, blankLength]
  | cons first more =>
      rw [layoutLength, layoutRounds]
      dsimp only
      split
      · rfl
      · rename_i c rest hdrop
        have hlen : rest.length + 1 ≤ (first :: more).length := by
          rw [← List.length_cons (a := c), ← hdrop, List.length_drop]
          exact Nat.sub_le ..
        simp only [List.length_cons] at hlen
        rw [layoutRounds_congr indicator more (rest.drop (commentLength rest))
          (rest.drop (commentLength rest)) (by rw [List.length_drop]; omega) (Nat.le_refl _)]
        rfl

end CobolSource
