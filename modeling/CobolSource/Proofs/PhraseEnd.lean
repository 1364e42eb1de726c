/-
# Proofs.PhraseEnd — a phrase scan reads up to the first period that ends a phrase

`bodyLength` goes through a text character by character, and what it comes to is trimmed. Said
without that loop: a period ends a phrase where it is the last character, or a blank comes right
after it (`EndsPhraseAt`), and the body of a phrase is what stands before the first such period, or
everything if there is none (`bodyLength_of_first`, `bodyLength_of_none`). In a run of periods that
is the last one, and it may be the very first character, and then the phrase is empty.

`scanPhrase_to_first_end` puts this together with what is passed before a phrase. It gives the whole
of the scan wherever calls have led the lexer: the phrase, its span, and the cursor.
-/
import CobolSource.Proofs.PhraseScan

namespace CobolSource

set_option autoImplicit false

/-! ## Where a phrase ends, by index -/

/-- At index `i` stands a period with a blank, or nothing, after it. -/
def EndsPhraseAt (text : List Char) (i : Nat) : Prop :=
  text[i]? = some period ∧ ∀ c ∈ text[i + 1]?, isBlank c = true

instance (text : List Char) (i : Nat) : Decidable (EndsPhraseAt text i) :=
  -- The next character is tested, if there is one, and not every character there is.
  letI : Decidable (∀ c ∈ text[i + 1]?, isBlank c = true) := Option.decidableForallMem _
  inferInstanceAs (Decidable (_ ∧ _))

theorem endsPhraseAt_zero_iff {c : Char} {rest : List Char} :
    EndsPhraseAt (c :: rest) 0 ↔ startsWithTerminator (c :: rest) = true := by
  rw [startsWithTerminator_cons_iff, EndsPhraseAt, AtBlank, List.head?_eq_getElem?]
  simp

theorem endsPhraseAt_succ_iff {c : Char} {rest : List Char} {i : Nat} :
    EndsPhraseAt (c :: rest) (i + 1) ↔ EndsPhraseAt rest i :=
  Iff.rfl

theorem bodyLength_of_first {text : List Char} {i : Nat} (ends : EndsPhraseAt text i)
    (first : ∀ j < i, ¬ EndsPhraseAt text j) : bodyLength text = i := by
  induction text generalizing i with
  | nil => cases ends.1
  | cons c rest ih =>
      cases i with
      | zero => rw [bodyLength, if_pos (endsPhraseAt_zero_iff.1 ends)]
      | succ i =>
          have goesOn := mt endsPhraseAt_zero_iff.2 (first 0 (Nat.zero_lt_succ i))
          have later := ih (endsPhraseAt_succ_iff.1 ends) fun j less =>
            mt endsPhraseAt_succ_iff.2 (first (j + 1) (Nat.succ_lt_succ less))
          rw [bodyLength, if_neg goesOn, later]

theorem bodyLength_of_none {text : List Char} (none : ∀ i, ¬ EndsPhraseAt text i) :
    bodyLength text = text.length := by
  induction text with
  | nil => rfl
  | cons c rest ih =>
      have goesOn := mt endsPhraseAt_zero_iff.2 (none 0)
      rw [bodyLength, if_neg goesOn, ih fun i => mt endsPhraseAt_succ_iff.2 (none (i + 1)),
        List.length_cons]

namespace PhraseBefore

variable {phrase trail rest : List Char}

/-- The first period that ends a phrase comes right behind the phrase and the blanks that trail it.
-/
theorem take_of_first (next : PhraseBefore phrase trail rest) {i : Nat}
    (ends : EndsPhraseAt (phrase ++ (trail ++ rest)) i)
    (first : ∀ j < i, ¬ EndsPhraseAt (phrase ++ (trail ++ rest)) j) :
    i = (phrase ++ trail).length := by
  rw [List.length_append, ← next.bodyLength_phraseBefore, bodyLength_of_first ends first]

/-- With no such period, nothing is behind them. -/
theorem rest_of_none (next : PhraseBefore phrase trail rest)
    (none : ∀ i, ¬ EndsPhraseAt (phrase ++ (trail ++ rest)) i) : rest = [] := by
  have all := bodyLength_of_none none
  rw [next.bodyLength_phraseBefore, List.length_append, List.length_append] at all
  exact List.length_eq_zero_iff.1 (by omega)

end PhraseBefore

/-! ## The scan -/

namespace Lexer

/-- **A phrase scan reads up to the first period that ends a phrase.** Wherever calls have left the
lexer, pass over the mark if this is the first scan, and then over all the blanks there are. If
nothing is left the scan finds the end, forgets the last span, and leaves the cursor there.
Otherwise the phrase is what stands before the first period that is the last character or has a
blank after it, less the blanks at its end, and the cursor then stands right behind that period. If
there is no such period it is all that is left, less the blanks at its end, and the cursor then
stands at the end. Either way the last span starts where the phrase does, in byte, line and column,
and what the source has there is the phrase. -/
theorem scanPhrase_to_first_end {text : List Char} {settings : Settings} {start : Lexer}
    (made : withSettings text settings = .ok start) (calls : List Call) :
    ∃ before mark gap rest, text = before ++ (mark ++ (gap ++ rest)) ∧
      (start.runFinal calls).cursor = .between before (mark ++ (gap ++ rest)) ∧
      mark = (if calls = [] then settings.skippedMark text else []) ∧
      Blanks gap ∧ (∀ c ∈ rest.head?, isBlank c = false) ∧
      (rest = [] →
        (start.runFinal calls).scanPhrase.outcome = .endOfInput ∧
        (start.runFinal calls).scanPhrase.lexer.latest = none ∧
        (start.runFinal calls).scanPhrase.lexer.cursor = .between text []) ∧
      (rest ≠ [] → ∃ phrase trail,
        Blanks trail ∧ (∀ c ∈ phrase.getLast?, isBlank c = false) ∧
        (start.runFinal calls).scanPhrase.outcome = .phrase (String.ofList phrase) ∧
        (∃ span, (start.runFinal calls).scanPhrase.lexer.latest = some span ∧
          span = (Place.afterText {} (before ++ mark ++ gap)).spanTo
            (byteCount (before ++ mark ++ gap ++ phrase)) ∧
          slice text span.start span.stop = phrase) ∧
        (∀ i, EndsPhraseAt rest i → (∀ j < i, ¬ EndsPhraseAt rest j) →
          rest.take i = phrase ++ trail ∧
          (start.runFinal calls).scanPhrase.lexer.cursor =
            .between (before ++ mark ++ gap ++ rest.take (i + 1)) (rest.drop (i + 1))) ∧
        ((∀ i, ¬ EndsPhraseAt rest i) →
          rest = phrase ++ trail ∧
          (start.runFinal calls).scanPhrase.lexer.cursor = .between text [])) := by
  obtain ⟨before, mark, unread, split, stands, marked, unmarked⟩ := unmarked_runFinal made calls
  rcases exists_phraseBefore unread with blank | ⟨gap, phrase, trail, rest, rfl, blank, next⟩
  · refine ⟨before, mark, unread, [], by rw [List.append_nil, split],
      by rw [List.append_nil, stands], marked, blank, nofun, fun _ => ?_,
      fun more => absurd rfl more⟩
    rw [scanPhrase_of_blanks unmarked blank, List.append_assoc, ← split]
    exact ⟨rfl, rfl, rfl⟩
  · refine ⟨before, mark, gap, phrase ++ (trail ++ rest), split, stands, marked, blank, next.solid,
      fun empty => absurd empty next.ne_nil, fun _ => ?_⟩
    rw [scanPhrase_of_phraseBefore unmarked blank next]
    refine ⟨phrase, trail, next.blanks, next.isPhrase.last_solid, rfl, ⟨_, rfl, ?_, ?_⟩, ?_, ?_⟩
    · rw [Span.over, byteCount_append _ phrase]
    · have parts : text = before ++ mark ++ gap ++ phrase ++ (trail ++ rest) := by
        simp only [split, List.append_assoc]
      rw [parts, Span.start_over, Span.stop_over, slice_append]
    · intro i ends first
      obtain rfl := next.take_of_first ends first
      rw [← List.append_assoc phrase, List.take_left, List.take_length_add_append,
        List.drop_length_add_append]
      exact ⟨rfl, by simp only [produce, List.append_assoc]⟩
    · intro none
      obtain rfl := next.rest_of_none none
      refine ⟨by rw [List.append_nil], ?_⟩
      simp only [produce, split, List.take_nil, List.drop_nil, List.append_nil, List.append_assoc]

/-- A mark, a phrase with periods inside and at its end, one that blanks trail, and an empty one. -/
def dottedText : List Char :=
  "\uFEFF É.J... X \t.\n.".toList

/-- The last period of a run ends the phrase, and the others are part of it. -/
theorem dottedText_to_first_end :
    ((ofText dottedText).run [.phrase, .phrase, .phrase, .phrase]).map (·.outcome) =
        [.phrase "É.J..", .phrase "X", .phrase "", .endOfInput] ∧
      ∃ rest phrase trail, dottedText = byteOrderMark :: ' ' :: rest ∧ EndsPhraseAt rest 5 ∧
        Blanks trail ∧ rest.take 5 = phrase ++ trail ∧
        (ofText dottedText).scanPhrase.outcome = .phrase (String.ofList phrase) ∧
        (ofText dottedText).scanPhrase.lexer.cursor =
          .between (byteOrderMark :: ' ' :: rest.take 6) (rest.drop 6) := by
  refine ⟨by decide, ?_⟩
  obtain ⟨before, mark, gap, rest, split, stands, marked, blank, solid, -, reads⟩ :=
    scanPhrase_to_first_end (withSettings_ofText dottedText) []
  obtain rfl : before = [] := List.reverse_eq_nil_iff.1 (congrArg Cursor.behind stands).symm
  obtain rfl : mark = [byteOrderMark] := marked
  have unread : gap ++ rest = [' '] ++ dottedText.drop 2 := (congrArg List.tail split).symm
  have single : gap.length = 1 := by
    rw [← blankLength_blanks blank solid, unread]
    decide
  obtain ⟨rfl, rfl⟩ := List.append_inj unread single
  obtain ⟨phrase, trail, trailing, -, found, -, ends, -⟩ := reads (by decide)
  obtain ⟨body, passed⟩ := ends 5 (by decide) (by decide)
  exact ⟨_, phrase, trail, split, by decide, trailing, body, found, passed⟩

end Lexer

end CobolSource
