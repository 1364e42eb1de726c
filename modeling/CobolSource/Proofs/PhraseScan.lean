/-
# Proofs.PhraseScan — what one phrase scan does

A phrase scan passes a mark, passes blanks, and reads one phrase. Where the text is known by its
parts the scan is known to the last detail: its span is the phrase, and the cursor stands behind the
period that ended it, or at the end (`scanPhrase_of_phraseBefore`). Since every text has such parts
unless it is all blank, nothing but phrases is ever produced (`isPhrase_of_perform`).
-/
import CobolSource.Proofs.Look
import CobolSource.Proofs.TokenScan

namespace CobolSource

set_option autoImplicit false

namespace Lexer

theorem scanPhrase_of_phraseBefore {lexer : Lexer} {before gap phrase trail rest : List Char}
    (stands : lexer.unmarked = .between before (gap ++ (phrase ++ (trail ++ rest))))
    (blank : Blanks gap) (next : PhraseBefore phrase trail rest) :
    lexer.scanPhrase =
      lexer.produce (.between (before ++ gap ++ phrase ++ trail ++ rest.take 1) (rest.drop 1))
        (.over (before ++ gap) phrase) (.phrase (String.ofList phrase))
        (.phrase (String.ofList phrase)) := by
  have start := Cursor.advanceBy_length_between before gap (phrase ++ (trail ++ rest))
  have stop : (Cursor.between (before ++ gap) (phrase ++ (trail ++ rest))).advanceBy
      (phrase.length + trail.length + 1) =
        .between (before ++ gap ++ phrase ++ trail ++ rest.take 1) (rest.drop 1) := by
    rw [← Cursor.advanceBy_advanceBy, ← Cursor.advanceBy_advanceBy,
      Cursor.advanceBy_length_between, Cursor.advanceBy_length_between, Cursor.advanceBy_between]
  have span := spanTo_advanceBy (before ++ gap) phrase (trail ++ rest)
  rw [scanPhrase_eq_deliver, stands, Cursor.ahead_between, lookPhrase_phraseBefore blank next]
  simp only [deliver, start, stop, span]

theorem scanPhrase_of_blanks {lexer : Lexer} {before text : List Char}
    (stands : lexer.unmarked = .between before text) (blank : Blanks text) :
    lexer.scanPhrase = lexer.finish (.between (before ++ text) []) := by
  have start := Cursor.advanceBy_length_between before text []
  rw [List.append_nil] at start
  rw [scanPhrase_eq_deliver, stands, Cursor.ahead_between, lookPhrase_blanks blank]
  simp only [deliver, start]
  rfl

/-- Where a phrase is produced, the text ahead is blanks, the phrase, and what ends it. -/
theorem exists_parts_of_scanPhrase {lexer : Lexer} {phrase : String}
    (found : lexer.scanPhrase.outcome = .phrase phrase) :
    ∃ gap trail rest, lexer.unmarked.ahead = gap ++ (phrase.toList ++ (trail ++ rest)) ∧
      Blanks gap ∧ PhraseBefore phrase.toList trail rest := by
  have look : (lookPhrase lexer.unmarked.ahead).finding = .phrase phrase := by
    rw [← lexer.deliver_finding lexer.unmarked, ← scanPhrase_eq_deliver, found]
    rfl
  rcases exists_phraseBefore lexer.unmarked.ahead with
    blank | ⟨gap, read, trail, rest, split, blank, next⟩
  · rw [lookPhrase_blanks blank] at look
    cases look
  · rw [split, lookPhrase_phraseBefore blank next] at look
    obtain rfl := Finding.phrase.inj look
    rw [String.toList_ofList]
    exact ⟨gap, trail, rest, split, blank, next⟩

theorem scanToken_not_phrase {lexer : Lexer} {phrase : String} :
    lexer.scanToken.outcome ≠ .phrase phrase := by
  intro found
  rcases lexer.scanToken_outcome with ended | ⟨token, other⟩ | ⟨error, other⟩
  · cases found.symm.trans ended
  · cases found.symm.trans other
  · cases found.symm.trans other

/-- Whatever call produces a phrase, a phrase it is. -/
theorem isPhrase_of_perform {lexer : Lexer} {call : Call} {phrase : String}
    (found : (lexer.perform call).outcome = .phrase phrase) : IsPhrase phrase.toList := by
  cases call with
  | token => exact absurd found scanToken_not_phrase
  | phrase =>
      obtain ⟨gap, trail, rest, -, -, next⟩ := exists_parts_of_scanPhrase found
      exact next.isPhrase
  | pull =>
      rw [perform] at found
      cases stopped : lexer.stopped with
      | true =>
          rw [pull_of_stopped stopped] at found
          cases found
      | false =>
          rw [(pull_of_going stopped).1] at found
          exact absurd found scanToken_not_phrase

/-- Whatever call produces a token, it is one that some source has. -/
theorem wellFormed_of_perform {lexer : Lexer} {call : Call} {token : Token}
    (found : (lexer.perform call).outcome.finding = .token token) : token.WellFormed := by
  have scanned (look : lexer.scanToken.outcome.finding = .token token) : token.WellFormed := by
    rw [scanToken_eq_deliver, deliver_finding, lookToken, Reading.finding_look] at look
    generalize lexer.unmarked.ahead.drop _ = rest at look
    cases read : reading rest with
    | token first width =>
        rw [read] at look
        cases look
        exact (reading_eq_token_iff.1 read).1.wellFormed
    | nothing | fault =>
        rw [read] at look
        cases look
  cases call with
  | token => exact scanned found
  | phrase =>
      rw [perform, scanPhrase_eq_deliver, deliver_finding, lookPhrase] at found
      split at found <;> cases found
  | pull =>
      cases stopped : lexer.stopped with
      | true =>
          rw [perform, pull_of_stopped stopped] at found
          cases found
      | false =>
          rw [perform, (pull_of_going stopped).1] at found
          exact scanned found

end Lexer

end CobolSource
