/-
# Proofs.Pulling — pulling tokens is scanning them, up to the first error

A pull adds one thing to a token scan: when it yields an error the lexer is stopped, and later pulls
do not scan. Nothing else stops a lexer, a token scan's own error least of all
(`stopped_runFinal_iff`).

Until then pulls do what token scans do (`run_pull_of_sound`), the first error included, and after
it nothing (`run_pull_of_error`); so all the tokens are those that token scans yield before the end,
or the first error is reported in their place (`allTokens_cases`). Token and phrase scans do not
look at whether a lexer is stopped: they find on a stopped one what they would find on the same
lexer with its stop taken back (`perform_withStopped`, `runFinal_of_stopped`).
-/
import CobolSource.Proofs.Look

namespace CobolSource

set_option autoImplicit false

/-! ## Stopping -/

/-- The lexer, with pulls stopped or going on, and all else as it is. -/
def Lexer.withStopped (lexer : Lexer) (stopped : Bool) : Lexer :=
  { lexer with stopped }

def Finding.isFault : Finding → Bool
  | .fault _ => true
  | _ => false

/-- The scan, leaving a lexer that is stopped or going on. -/
def Scan.withStopped (scan : Scan) (stopped : Bool) : Scan :=
  { scan with lexer := scan.lexer.withStopped stopped }

namespace Lexer

theorem withStopped_self {lexer : Lexer} {stopped : Bool} (is : lexer.stopped = stopped) :
    lexer.withStopped stopped = lexer := by
  obtain rfl := is
  rfl

theorem deliver_withStopped (lexer : Lexer) (stopped : Bool) (cursor : Cursor) (look : Look) :
    (lexer.withStopped stopped).deliver cursor look =
      (lexer.deliver cursor look).withStopped stopped := by
  unfold deliver
  cases look.finding <;> rfl

/-- Calls that scan do so whether pulls have stopped or not. -/
theorem perform_withStopped (lexer : Lexer) (stopped : Bool) {call : Call} (scans : call ≠ .pull) :
    (lexer.withStopped stopped).perform call = (lexer.perform call).withStopped stopped := by
  rw [perform_eq_deliver _ scans, perform_eq_deliver _ scans]
  exact deliver_withStopped lexer stopped _ _

theorem scanPhrase_stopped (lexer : Lexer) : lexer.scanPhrase.lexer.stopped = lexer.stopped := by
  unfold scanPhrase
  dsimp only
  split <;> rfl

theorem perform_stopped (lexer : Lexer) {call : Call} (scans : call ≠ .pull) :
    (lexer.perform call).lexer.stopped = lexer.stopped := by
  cases call with
  | token => exact lexer.scanToken_stopped
  | phrase => exact lexer.scanPhrase_stopped
  | pull => exact absurd rfl scans

/-- A fault leaves the last span alone, and whatever else a scan finds replaces it. -/
theorem perform_latest_eq (lexer : Lexer) {call : Call} (scans : call ≠ .pull) :
    (lexer.perform call).lexer.latest =
      if (lexer.perform call).outcome.finding.isFault then lexer.latest
      else (lexer.perform call).span? := by
  rw [perform_eq_deliver _ scans, deliver]
  cases (call.look lexer.settings.commentIndicator lexer.unmarked.ahead).finding <;> rfl

theorem pull_of_error {lexer : Lexer} {error : ScanError} (going : lexer.stopped = false)
    (failed : lexer.scanToken.outcome = .error error) :
    lexer.pull = lexer.scanToken.withStopped true := by
  unfold pull
  rw [if_neg (by simp [going])]
  dsimp only
  split
  · rfl
  · rename_i sound
    exact absurd failed (sound error)

/-- A pull that has not stopped is a token scan that stops if it finds a fault. -/
theorem pull_eq_withStopped {lexer : Lexer} (going : lexer.stopped = false) :
    lexer.pull = lexer.scanToken.withStopped lexer.scanToken.outcome.finding.isFault := by
  have still : lexer.scanToken.withStopped false = lexer.scanToken := by
    rw [Scan.withStopped, withStopped_self (lexer.scanToken_stopped.trans going)]
  rcases lexer.scanToken_outcome with ended | ⟨token, found⟩ | ⟨error, failed⟩
  · rw [pull_eq_scanToken going (by rw [ended]; nofun), ended]
    exact still.symm
  · rw [pull_eq_scanToken going (by rw [found]; nofun), found]
    exact still.symm
  · rw [pull_of_error going failed, failed]
    rfl

/-- A call does nothing, if it is a pull and pulls have stopped. Otherwise it scans, and all that a
pull adds is whether the lexer it leaves is stopped. -/
theorem perform_idle_or_scans (lexer : Lexer) (call : Call) :
    (call = .pull ∧ lexer.stopped = true ∧ lexer.perform call = ⟨.endOfInput, lexer, []⟩) ∨
      ∃ scan stopped, scan ≠ .pull ∧ (call = .pull → lexer.stopped = false) ∧
        lexer.perform call = (lexer.perform scan).withStopped stopped := by
  have scanned {scan : Call} (scans : scan ≠ .pull) :
      lexer.perform scan = (lexer.perform scan).withStopped lexer.stopped := by
    rw [Scan.withStopped, withStopped_self (lexer.perform_stopped scans)]
  cases call with
  | token => exact .inr ⟨.token, lexer.stopped, by decide, nofun, scanned (by decide)⟩
  | phrase => exact .inr ⟨.phrase, lexer.stopped, by decide, nofun, scanned (by decide)⟩
  | pull =>
      cases stopped : lexer.stopped with
      | true => exact .inl ⟨rfl, rfl, pull_of_stopped stopped⟩
      | false => exact .inr ⟨.token, _, by decide, fun _ => rfl, pull_eq_withStopped stopped⟩

theorem pull_outcome (lexer : Lexer) :
    lexer.pull.outcome = .endOfInput ∨ (∃ token, lexer.pull.outcome = .token token) ∨
      ∃ error, lexer.pull.outcome = .error error := by
  cases stopped : lexer.stopped with
  | true => exact .inl (by rw [pull_of_stopped stopped])
  | false =>
      rw [(pull_of_going stopped).1]
      exact lexer.scanToken_outcome

/-- A call leaves a stopped lexer if it was stopped before, or if it is a pull that fails. -/
theorem stopped_perform_iff (lexer : Lexer) (call : Call) :
    (lexer.perform call).lexer.stopped = true ↔
      lexer.stopped = true ∨ call = .pull ∧ ∃ error, lexer.pull.outcome = .error error := by
  cases call with
  | token => simp [perform, scanToken_stopped]
  | phrase => simp [perform, scanPhrase_stopped]
  | pull =>
      rw [perform]
      cases stopped : lexer.stopped with
      | true => simp [pull_of_stopped stopped, stopped]
      | false =>
          by_cases failed : ∃ error, lexer.scanToken.outcome = .error error
          · obtain ⟨error, failed⟩ := failed
            simp [pull_of_error stopped failed, Scan.withStopped, withStopped, failed]
          · have sound : ∀ error, lexer.scanToken.outcome ≠ .error error := not_exists.1 failed
            simp [pull_eq_scanToken stopped sound, scanToken_stopped, stopped, sound]

/-- Some pull among the calls has yielded an error. -/
def PullFailed (lexer : Lexer) (calls : List Call) : Prop :=
  ∃ earlier later error, calls = earlier ++ .pull :: later ∧
    (lexer.runFinal earlier).pull.outcome = .error error

theorem pullFailed_cons_iff {lexer : Lexer} {call : Call} {calls : List Call} :
    lexer.PullFailed (call :: calls) ↔
      (call = .pull ∧ ∃ error, lexer.pull.outcome = .error error) ∨
        (lexer.perform call).lexer.PullFailed calls := by
  constructor
  · rintro ⟨earlier, later, error, split, failed⟩
    cases earlier with
    | nil =>
        obtain ⟨rfl, rfl⟩ := List.cons.inj split
        exact .inl ⟨rfl, error, failed⟩
    | cons first earlier =>
        obtain ⟨rfl, rfl⟩ := List.cons.inj split
        exact .inr ⟨earlier, later, error, rfl, failed⟩
  · rintro (⟨rfl, error, failed⟩ | ⟨earlier, later, error, rfl, failed⟩)
    · exact ⟨[], calls, error, rfl, failed⟩
    · exact ⟨call :: earlier, later, error, rfl, failed⟩

theorem stopped_runFinal_iff (lexer : Lexer) (calls : List Call) :
    (lexer.runFinal calls).stopped = true ↔ lexer.stopped = true ∨ lexer.PullFailed calls := by
  induction calls generalizing lexer with
  | nil =>
      have never : ¬ lexer.PullFailed [] := by
        rintro ⟨earlier, later, error, split, -⟩
        exact List.append_ne_nil_of_right_ne_nil _ (List.cons_ne_nil _ _) split.symm
      simp [runFinal, never]
  | cons call calls ih => rw [runFinal, ih, stopped_perform_iff, pullFailed_cons_iff, or_assoc]

/-! ## Pulls of a lexer that has not stopped -/

theorem length_run (lexer : Lexer) (calls : List Call) :
    (lexer.run calls).length = calls.length := by
  induction calls generalizing lexer with
  | nil => rfl
  | cons call calls ih => rw [run, List.length_cons, ih, List.length_cons]

theorem run_pull_of_stopped {lexer : Lexer} (stopped : lexer.stopped = true) (n : Nat) :
    lexer.run (List.replicate n .pull) = List.replicate n ⟨.endOfInput, lexer, []⟩ := by
  induction n with
  | zero => rfl
  | succ n ih =>
      simp only [List.replicate_succ, run, perform]
      rw [pull_of_stopped stopped, ih]

/-- Pulls are token scans, as long as these are without error. -/
theorem run_pull_of_sound {lexer : Lexer} (going : lexer.stopped = false) {n : Nat}
    (sound : ∀ scan ∈ lexer.run (List.replicate n .token), ∀ error, scan.outcome ≠ .error error) :
    lexer.run (List.replicate n .pull) = lexer.run (List.replicate n .token) := by
  induction n generalizing lexer with
  | zero => rfl
  | succ n ih =>
      obtain ⟨first, later⟩ := List.forall_mem_cons.1 sound
      have same : lexer.pull = lexer.scanToken := pull_eq_scanToken going first
      simp only [List.replicate_succ, run, perform, same]
      rw [ih (lexer.scanToken_stopped.trans going) later]

/-- The first error among the token scans is the last thing that pulls yield. -/
theorem run_pull_of_error {lexer : Lexer} (going : lexer.stopped = false) {n : Nat}
    {sound later : List Scan} {failed : Scan} {error : ScanError}
    (scans : lexer.run (List.replicate n .token) = sound ++ failed :: later)
    (without : ∀ scan ∈ sound, ∀ error, scan.outcome ≠ .error error)
    (fails : failed.outcome = .error error) :
    lexer.run (List.replicate n .pull) =
      sound ++ failed.withStopped true ::
        List.replicate later.length ⟨.endOfInput, failed.lexer.withStopped true, []⟩ := by
  induction sound generalizing lexer n with
  | nil =>
      cases n with
      | zero => cases scans
      | succ n =>
          obtain ⟨rfl, rfl⟩ := List.cons.inj scans
          have stop : lexer.pull = lexer.scanToken.withStopped true := pull_of_error going fails
          have count : (lexer.scanToken.lexer.run (List.replicate n .token)).length = n := by
            rw [length_run, List.length_replicate]
          simp only [List.replicate_succ, run, perform, stop, List.nil_append, count]
          exact congrArg _ (run_pull_of_stopped rfl n)
  | cons first sound ih =>
      cases n with
      | zero => cases scans
      | succ n =>
          obtain ⟨rfl, rest⟩ := List.cons.inj scans
          obtain ⟨noError, others⟩ := List.forall_mem_cons.1 without
          have same : lexer.pull = lexer.scanToken := pull_eq_scanToken going noError
          simp only [List.replicate_succ, run, perform, same, List.cons_append]
          exact congrArg _ (ih (lexer.scanToken_stopped.trans going) rest others)

/-- Either the token scans up to the end are all tokens, and these are all the tokens, or an error
comes among them, and the first one is what there is instead. -/
theorem allTokens_cases {lexer : Lexer} (going : lexer.stopped = false) : ∃ tokens : List Token,
    ((lexer.untilEnd .token).map (·.outcome) = tokens.map .token ++ [.endOfInput] ∧
      lexer.allTokens = .ok tokens) ∨
    ∃ error later, (lexer.untilEnd .token).map (·.outcome) =
        tokens.map .token ++ .error error :: later ∧ lexer.allTokens = .error error := by
  rcases lexer.scanToken_outcome with ended | ⟨token, found⟩ | ⟨error, failed⟩
  · have atEnd : (lexer.perform .token).outcome = .endOfInput := ended
    refine ⟨[], .inl ⟨?_, allTokens_of_end going ended⟩⟩
    rw [untilEnd_of_ended atEnd]
    exact congrArg (fun outcome => [outcome]) ended
  · have yields : (lexer.perform .token).outcome ≠ .endOfInput := by simp [perform, found]
    have progress := scanToken_progress yields
    have all : (lexer.untilEnd .token).map (·.outcome) =
        .token token :: (lexer.scanToken.lexer.untilEnd .token).map (·.outcome) := by
      rw [untilEnd_of_yields yields, List.map_cons, perform, found]
    obtain ⟨tokens, cases⟩ := allTokens_cases (lexer.scanToken_stopped.trans going)
    refine ⟨token :: tokens, ?_⟩
    rw [all, allTokens_of_token going found]
    rcases cases with ⟨outcomes, read⟩ | ⟨error, later, outcomes, read⟩
    · exact .inl ⟨by rw [outcomes]; rfl, by rw [read]; rfl⟩
    · exact .inr ⟨error, later, by rw [outcomes]; rfl, by rw [read]; rfl⟩
  · have yields : (lexer.perform .token).outcome ≠ .endOfInput := by simp [perform, failed]
    refine ⟨[], .inr ⟨error, (lexer.scanToken.lexer.untilEnd .token).map (·.outcome), ?_,
      allTokens_of_error going failed⟩⟩
    rw [untilEnd_of_yields yields, List.map_cons, perform, failed]
    rfl
termination_by lexer.cursor.ahead.length

/-! ## A lexer that has stopped -/

theorem allTokens_of_stopped {lexer : Lexer} (stopped : lexer.stopped = true) :
    lexer.allTokens = .ok [] :=
  allTokens_of_pull_end (by rw [pull_of_stopped stopped])

theorem allTokensEvents_of_stopped {lexer : Lexer} (stopped : lexer.stopped = true) :
    lexer.allTokensEvents = [] := by
  have still := pull_of_stopped stopped
  rw [allTokensEvents_of_pull_end (by rw [still]), still]

theorem allTokensEvents_of_pull_error {lexer : Lexer} {error : ScanError}
    (failed : lexer.pull.outcome = .error error) : lexer.allTokensEvents = lexer.pull.events := by
  have stops : lexer.pull.lexer.stopped = true :=
    (stopped_perform_iff lexer .pull).2 (.inr ⟨rfl, error, failed⟩)
  rw [allTokensEvents_of_pull_yields (by rw [failed]; nofun), allTokensEvents_of_stopped stops,
    List.append_nil]

/-- Pulls do nothing to a stopped lexer, and other calls do to it what they would do if it had not
stopped. -/
theorem runFinal_of_stopped {lexer : Lexer} (stopped : lexer.stopped = true) (calls : List Call) :
    lexer.runFinal calls =
      ((lexer.withStopped false).runFinal (calls.filter (· ≠ .pull))).withStopped true := by
  induction calls generalizing lexer with
  | nil => exact (withStopped_self stopped).symm
  | cons call calls ih =>
      by_cases pulls : call = .pull
      · subst pulls
        rw [runFinal, perform, pull_of_stopped stopped]
        exact ih stopped
      · have stays : (lexer.perform call).lexer.stopped = true :=
          (stopped_perform_iff lexer call).2 (.inl stopped)
        rw [runFinal, ih stays, List.filter_cons_of_pos (by simpa using pulls), runFinal,
          perform_withStopped lexer false pulls]
        rfl

/-! ## The two together -/

/-- Pulling from the lexer is scanning its tokens, up to the first error. -/
structure PullsTokens (lexer : Lexer) : Prop where
  sound : ∀ n, (∀ scan ∈ lexer.run (List.replicate n .token),
      ∀ error, scan.outcome ≠ .error error) →
    lexer.run (List.replicate n .pull) = lexer.run (List.replicate n .token)
  failing : ∀ n sound failed later error,
    lexer.run (List.replicate n .token) = sound ++ failed :: later →
    (∀ scan ∈ sound, ∀ error, scan.outcome ≠ .error error) → failed.outcome = .error error →
    lexer.run (List.replicate n .pull) =
      sound ++ failed.withStopped true ::
        List.replicate later.length ⟨.endOfInput, failed.lexer.withStopped true, []⟩
  all : ∃ tokens : List Token,
    ((lexer.untilEnd .token).map (·.outcome) = tokens.map .token ++ [.endOfInput] ∧
      lexer.allTokens = .ok tokens) ∨
    ∃ error later, (lexer.untilEnd .token).map (·.outcome) =
        tokens.map .token ++ .error error :: later ∧ lexer.allTokens = .error error

/-- Pulling from the lexer yields nothing and changes nothing, whatever else is done to it; and
whatever else is done to it, it does as if it had never been stopped. -/
structure HasStopped (lexer : Lexer) : Prop where
  pulls : ∀ calls, (lexer.runFinal calls).pull = ⟨.endOfInput, lexer.runFinal calls, []⟩ ∧
    (lexer.runFinal calls).allTokens = .ok []
  others : ∀ calls call, call ≠ .pull →
    (lexer.runFinal calls).perform call =
      (((lexer.withStopped false).runFinal (calls.filter (· ≠ .pull))).perform call).withStopped true

/-- **Pulling tokens is scanning them, up to the first error.** Until a pull has yielded an error,
whatever else the calls were and whatever errors token scans met, pulls are token scans up to and
including the first error, and all the tokens are what token scans yield. From then on pulls yield
nothing and leave the lexer just as it is, and token and phrase scans go on as if there had been no
pull. -/
theorem pulls_tokens_until_error {text : List Char} {settings : Settings} {start : Lexer}
    (made : withSettings text settings = .ok start) (calls : List Call) :
    (¬ start.PullFailed calls → (start.runFinal calls).PullsTokens) ∧
      (start.PullFailed calls → (start.runFinal calls).HasStopped) := by
  have stopped_iff := stopped_runFinal_iff start calls
  simp only [going_of_withSettings made, Bool.false_eq_true, false_or] at stopped_iff
  constructor
  · intro unfailed
    have going : (start.runFinal calls).stopped = false := by
      rwa [← stopped_iff, Bool.not_eq_true] at unfailed
    exact ⟨fun n sound => run_pull_of_sound going sound,
      fun n sound failed later error scans without fails =>
        run_pull_of_error going scans without fails,
      allTokens_cases going⟩
  · intro failed
    have stopped := stopped_iff.2 failed
    have stays (later : List Call) : ((start.runFinal calls).runFinal later).stopped = true :=
      (stopped_runFinal_iff _ later).2 (.inl stopped)
    refine ⟨fun later => ⟨pull_of_stopped (stays later), allTokens_of_stopped (stays later)⟩, ?_⟩
    intro later call scans
    rw [runFinal_of_stopped stopped later, perform_withStopped _ true scans]

/-- Names, and between them a character that starts nothing. -/
def stoppingText : List Char :=
  "A§B C".toList

/-- The error does not stop pulls if a token scan meets it, and does if a pull does. -/
theorem stoppingText_pulls :
    ((ofText stoppingText).run [.token, .token, .pull]).map (·.outcome) =
        [.token ⟨.name, "A"⟩, .error ⟨.unexpectedCharacter '§', ⟨1, 3, 1, 2⟩⟩,
          .token ⟨.name, "B"⟩] ∧
      ((ofText stoppingText).run [.pull, .pull, .pull, .token, .pull]).map (·.outcome) =
        [.token ⟨.name, "A"⟩, .error ⟨.unexpectedCharacter '§', ⟨1, 3, 1, 2⟩⟩, .endOfInput,
          .token ⟨.name, "B"⟩, .endOfInput] ∧
      ((ofText stoppingText).runFinal [.token, .token]).PullsTokens ∧
      ((ofText stoppingText).runFinal [.pull, .pull]).HasStopped := by
  have made := withSettings_ofText stoppingText
  have unfailed : ¬ (ofText stoppingText).PullFailed [.token, .token] := by
    intro failed
    exact absurd ((stopped_runFinal_iff _ _).2 (.inr failed)) (by decide)
  have failed : (ofText stoppingText).PullFailed [.pull, .pull] :=
    ⟨[.pull], [], ⟨.unexpectedCharacter '§', ⟨1, 3, 1, 2⟩⟩, rfl, by decide⟩
  exact ⟨by decide, by decide, (pulls_tokens_until_error made _).1 unfailed,
    (pulls_tokens_until_error made _).2 failed⟩

end Lexer

end CobolSource
