/-
# Scan.Run — scans one after another

A `Call` names one of the three ways to ask a lexer, and a run makes calls in turn, each on the
lexer that the one before it left. `untilEnd` repeats one call until it meets the end of the source.
Every scan that yields something reads at least one character, so one call more than there are
characters ahead is always enough, and that number is the fuel.

`allTokens` gathers what pulling yields: all the tokens, or the first error.
-/
import CobolSource.Scan.Lexer

namespace CobolSource

set_option autoImplicit false

inductive Call where
  | token
  | phrase
  | pull
  deriving DecidableEq, Repr

namespace Lexer

def perform (lexer : Lexer) : Call → Scan
  | .token => lexer.scanToken
  | .phrase => lexer.scanPhrase
  | .pull => lexer.pull

/-- The scans that a list of calls makes. -/
def run (lexer : Lexer) : List Call → List Scan
  | [] => []
  | call :: calls =>
      let scan := lexer.perform call
      scan :: scan.lexer.run calls

/-- The lexer that a list of calls leaves. -/
def runFinal (lexer : Lexer) : List Call → Lexer
  | [] => lexer
  | call :: calls => (lexer.perform call).lexer.runFinal calls

theorem run_append (lexer : Lexer) (first second : List Call) :
    lexer.run (first ++ second) = lexer.run first ++ (lexer.runFinal first).run second := by
  induction first generalizing lexer with
  | nil => rfl
  | cons call calls ih => simp [run, runFinal, ih]

theorem runFinal_append (lexer : Lexer) (first second : List Call) :
    lexer.runFinal (first ++ second) = (lexer.runFinal first).runFinal second := by
  induction first generalizing lexer with
  | nil => rfl
  | cons call calls ih => exact ih _

def untilEndAux (call : Call) : Nat → Lexer → List Scan
  | 0, _ => []
  | fuel + 1, lexer =>
      let scan := lexer.perform call
      match scan.outcome with
      | .endOfInput => [scan]
      | _ => scan :: untilEndAux call fuel scan.lexer

/-- The scans that one call makes, over and over, up to the one that meets the end. -/
def untilEnd (lexer : Lexer) (call : Call) : List Scan :=
  untilEndAux call (lexer.cursor.ahead.length + 1) lexer

/-! ## Why the fuel is enough -/

theorem length_unmarked (lexer : Lexer) :
    lexer.unmarked.ahead.length ≤ lexer.cursor.ahead.length := by
  unfold unmarked
  split
  · unfold Cursor.accept?
    split
    · obtain ⟨⟨behind, ahead, place⟩, settings, valid, latest, stopped⟩ := lexer
      cases ahead with
      | nil => exact Nat.le_refl _
      | cons c rest => simp [Cursor.advance_cons]
    · exact Nat.le_refl _
  · exact Nat.le_refl _

theorem scanToken_progress {lexer : Lexer} (yields : lexer.scanToken.outcome ≠ .endOfInput) :
    lexer.scanToken.lexer.cursor.ahead.length < lexer.cursor.ahead.length := by
  have before : lexer.tokenStart.ahead.length ≤ lexer.cursor.ahead.length := by
    refine Nat.le_trans ?_ (length_unmarked lexer)
    simp [tokenStart]
  by_cases empty : lexer.tokenStart.ahead = []
  · exact absurd (by simp [scanToken, reading_nothing_iff.2 empty, finish]) yields
  · have pos := reading_width_pos empty
    have some_ahead := List.length_pos_iff.2 empty
    unfold scanToken
    dsimp only
    cases read : reading lexer.tokenStart.ahead with
    | nothing => exact absurd (reading_nothing_iff.1 read) empty
    | token token width =>
        rw [read] at pos
        simp only [Reading.width] at pos
        simp only [produce, Cursor.ahead_advanceBy, List.length_drop]
        omega
    | fault fault width =>
        rw [read] at pos
        simp only [Reading.width] at pos
        simp only [fail, Cursor.ahead_advanceBy, List.length_drop]
        omega

theorem scanPhrase_progress {lexer : Lexer} (yields : lexer.scanPhrase.outcome ≠ .endOfInput) :
    lexer.scanPhrase.lexer.cursor.ahead.length < lexer.cursor.ahead.length := by
  have before : lexer.phraseStart.ahead.length ≤ lexer.cursor.ahead.length := by
    refine Nat.le_trans ?_ (length_unmarked lexer)
    simp [phraseStart, Cursor.skipBlanks, Cursor.advanceWhile]
  unfold scanPhrase at yields ⊢
  dsimp only at yields ⊢
  split
  · rename_i atEnd
    simp [atEnd, finish] at yields
  · rename_i more
    have some_ahead : 0 < lexer.phraseStart.ahead.length := by
      rw [List.length_pos_iff]
      simpa [Cursor.atEnd] using more
    simp only [produce, Cursor.ahead_advanceBy, List.length_drop]
    omega

theorem pull_progress {lexer : Lexer} (yields : lexer.pull.outcome ≠ .endOfInput) :
    lexer.pull.lexer.cursor.ahead.length < lexer.cursor.ahead.length := by
  unfold pull at yields ⊢
  split
  · rename_i stopped
    simp [stopped] at yields
  · rename_i going
    simp only [going, Bool.false_eq_true, if_false] at yields
    dsimp only at yields ⊢
    cases scanned : lexer.scanToken.outcome with
    | error error => exact scanToken_progress (by simp [scanned])
    | endOfInput => simp [scanned] at yields
    | token token => exact scanToken_progress (by simp [scanned])
    | phrase text => exact scanToken_progress (by simp [scanned])

/-- A scan that yields something reads something. -/
theorem perform_progress {lexer : Lexer} {call : Call}
    (yields : (lexer.perform call).outcome ≠ .endOfInput) :
    (lexer.perform call).lexer.cursor.ahead.length < lexer.cursor.ahead.length := by
  cases call with
  | token => exact scanToken_progress yields
  | phrase => exact scanPhrase_progress yields
  | pull => exact pull_progress yields

theorem untilEndAux_congr (call : Call) :
    ∀ (first second : Nat) (lexer : Lexer), lexer.cursor.ahead.length < first →
      lexer.cursor.ahead.length < second →
      untilEndAux call first lexer = untilEndAux call second lexer
  | 0, _, _, hfirst, _ => absurd hfirst (Nat.not_lt_zero _)
  | _, 0, _, _, hsecond => absurd hsecond (Nat.not_lt_zero _)
  | first + 1, second + 1, lexer, hfirst, hsecond => by
      simp only [untilEndAux]
      split
      · rfl
      · rename_i yields
        have progress := @perform_progress lexer call yields
        rw [untilEndAux_congr call first second _ (by omega) (by omega)]

/-- The rule without its fuel. -/
theorem untilEnd_eq (lexer : Lexer) (call : Call) :
    lexer.untilEnd call =
      match (lexer.perform call).outcome with
      | .endOfInput => [lexer.perform call]
      | _ => lexer.perform call :: (lexer.perform call).lexer.untilEnd call := by
  rw [untilEnd, untilEndAux]
  split
  · rfl
  · rename_i yields
    have progress := @perform_progress lexer call yields
    rw [untilEnd, untilEndAux_congr call _ _ _ progress (Nat.lt_succ_self _)]

/-! ## All the tokens that are left -/

/-- The tokens among some outcomes, or the first error. -/
def gather : List Outcome → Except ScanError (List Token)
  | [] => .ok []
  | .token token :: rest => (gather rest).map (token :: ·)
  | .error error :: _ => .error error
  | .phrase _ :: rest => gather rest
  | .endOfInput :: rest => gather rest

def allTokens (lexer : Lexer) : Except ScanError (List Token) :=
  gather ((lexer.untilEnd .pull).map (·.outcome))

/-- What `allTokens` reports on the way. -/
def allTokensEvents (lexer : Lexer) : List Event :=
  (lexer.untilEnd .pull).flatMap (·.events)

end Lexer

end CobolSource
