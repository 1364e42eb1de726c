/-
# Proofs.PhraseWriting — phrases are read as they are written

A source can be written from phrases: each with blanks before it, and blanks and a period behind it.
`IsPhraseWriting` says which blanks are free. Between two phrases there must be one after the first
one's period, or that would not end it. A phrase that itself ends with a period takes no blanks
before its own. The last period may be left out if the phrase before it would not miss it.

What is written is read back (`run_phraseSource`), and what is read could have been written: the
phrases that scans produce are the texts that `IsPhrase` allows, and no others. `phrases_roundtrip`
is the two together.
-/
import CobolSource.Proofs.PhraseScan

namespace CobolSource

set_option autoImplicit false

/-! ## Written phrases -/

/-- A phrase, and the blanks that are written around it. -/
structure PhrasePiece where
  lead : List Char
  phrase : List Char
  trail : List Char

/-- A piece as it is written, and `after` right behind it. -/
def PhrasePiece.before (piece : PhrasePiece) (after : List Char) : List Char :=
  piece.lead ++ (piece.phrase ++ (piece.trail ++ after))

/-- The source that has these pieces, a period behind each, and `last` after them all. The last
piece has its period only if the source is `closed`. -/
def phraseSource (closed : Bool) (last : List Char) : List PhrasePiece → List Char
  | [] => last
  | [piece] => piece.before (if closed then period :: last else last)
  | piece :: next :: pieces =>
      piece.before (period :: phraseSource closed last (next :: pieces))

structure PhrasePiece.Formed (piece : PhrasePiece) : Prop where
  lead : Blanks piece.lead
  isPhrase : IsPhrase piece.phrase
  trail : Blanks piece.trail
  close : piece.phrase.getLast? = some period → piece.trail = []

instance (piece : PhrasePiece) : Decidable piece.Formed :=
  decidable_of_iff (Blanks piece.lead ∧ IsPhrase piece.phrase ∧ Blanks piece.trail ∧
      (piece.phrase.getLast? = some period → piece.trail = []))
    ⟨fun ⟨lead, phrase, trail, close⟩ => ⟨lead, phrase, trail, close⟩,
      fun formed => ⟨formed.lead, formed.isPhrase, formed.trail, formed.close⟩⟩

/-- The pieces are phrases among blanks, and no period among them is read as part of a phrase, or
ends one, that it should not. -/
structure IsPhraseWriting (closed : Bool) (last : List Char) (pieces : List PhrasePiece) :
    Prop where
  formed : ∀ piece ∈ pieces, piece.Formed
  apart : ∀ piece ∈ pieces.tail, piece.lead ≠ []
  last : Blanks last
  unclosed : closed = false → ∀ piece ∈ pieces.getLast?,
    piece.phrase ≠ [] ∧ piece.phrase.getLast? ≠ some period

/-! ## The parts of a written source -/

namespace PhrasePiece

variable {piece : PhrasePiece}

/-- A piece with its period behind it. If the phrase is empty, all its blanks come before it. -/
theorem Formed.closedParts (formed : piece.Formed) {after : List Char} (blank : AtBlank after) :
    ∃ gap trail, piece.before (period :: after) =
        gap ++ (piece.phrase ++ (trail ++ period :: after)) ∧
      Blanks gap ∧ PhraseBefore piece.phrase trail (period :: after) := by
  have stops : period :: after = [] ∨ ∃ more, period :: after = period :: more ∧ AtBlank more :=
    .inr ⟨after, rfl, blank⟩
  cases ending : piece.phrase.getLast? with
  | none =>
      have empty := List.getLast?_eq_none_iff.1 ending
      refine ⟨piece.lead ++ piece.trail, [], ?_, formed.lead.append formed.trail, formed.isPhrase,
        nofun, stops, .inr ⟨rfl, List.cons_ne_nil _ _⟩⟩
      rw [before, empty, List.nil_append, List.nil_append, List.nil_append, List.append_assoc]
  | some c =>
      refine ⟨piece.lead, piece.trail, rfl, formed.lead, formed.isPhrase, formed.trail, stops, ?_⟩
      by_cases same : c = period
      · exact .inr ⟨formed.close (by rw [ending, same]), List.cons_ne_nil _ _⟩
      · exact .inl ⟨c, ending, same⟩

/-- A piece without a period, at the end of its source. -/
theorem Formed.unclosedParts (formed : piece.Formed) (nonempty : piece.phrase ≠ [])
    (noPeriod : piece.phrase.getLast? ≠ some period) {last : List Char} (blank : Blanks last) :
    piece.before last = piece.lead ++ (piece.phrase ++ (piece.trail ++ last ++ [])) ∧
      PhraseBefore piece.phrase (piece.trail ++ last) [] := by
  refine ⟨by rw [before, List.append_nil], formed.isPhrase, formed.trail.append blank, .inl rfl,
    .inl ⟨piece.phrase.getLast nonempty, List.getLast?_eq_some_getLast nonempty, ?_⟩⟩
  intro same
  exact noPeriod (by rw [List.getLast?_eq_some_getLast nonempty, same])

end PhrasePiece

namespace IsPhraseWriting

variable {closed : Bool} {last : List Char} {piece : PhrasePiece} {pieces : List PhrasePiece}

theorem tail (writing : IsPhraseWriting closed last (piece :: pieces)) :
    IsPhraseWriting closed last pieces := by
  refine ⟨(List.forall_mem_cons.1 writing.formed).2, ?_, writing.last, ?_⟩
  · intro other member
    exact writing.apart other (List.mem_of_mem_tail member)
  · intro isOpen other isLast
    apply writing.unclosed isOpen other
    cases pieces with
    | nil => cases isLast
    | cons next pieces => rwa [List.getLast?_cons_cons]

/-- What comes after a piece's period is a blank, or nothing. -/
theorem atBlank (writing : IsPhraseWriting closed last (piece :: pieces)) :
    AtBlank (phraseSource closed last pieces) := by
  cases pieces with
  | nil =>
      intro c first
      exact writing.last c (List.mem_of_mem_head? first)
  | cons next pieces =>
      have lead := (writing.tail.formed next List.mem_cons_self).lead
      obtain ⟨c, more, blanks⟩ :=
        List.exists_cons_of_ne_nil (writing.apart next List.mem_cons_self)
      have starts : (phraseSource closed last (next :: pieces)).head? = some c := by
        cases pieces <;> rw [phraseSource, PhrasePiece.before, blanks] <;> rfl
      intro d first
      cases starts.symm.trans first
      exact lead c (blanks ▸ List.mem_cons_self)

/-- A written source opens with its first phrase, and what is left after that is the source that is
written from the others. -/
theorem exists_parts (writing : IsPhraseWriting closed last (piece :: pieces)) :
    ∃ gap trail rest, phraseSource closed last (piece :: pieces) =
        gap ++ (piece.phrase ++ (trail ++ rest)) ∧
      Blanks gap ∧ PhraseBefore piece.phrase trail rest ∧
      (rest.drop 1 = phraseSource closed last pieces ∨ pieces = [] ∧ rest.drop 1 = []) := by
  have formed := writing.formed piece List.mem_cons_self
  obtain ⟨gap, trail, split, blank, next⟩ := formed.closedParts writing.atBlank
  cases pieces with
  | cons other pieces => exact ⟨gap, trail, _, split, blank, next, .inl rfl⟩
  | nil =>
      cases closed with
      | true => exact ⟨gap, trail, _, split, blank, next, .inl rfl⟩
      | false =>
          obtain ⟨nonempty, noPeriod⟩ := writing.unclosed rfl piece rfl
          obtain ⟨split, next⟩ := formed.unclosedParts nonempty noPeriod writing.last
          exact ⟨piece.lead, _, [], split, formed.lead, next, .inr ⟨rfl, rfl⟩⟩

end IsPhraseWriting

/-! ## Reading a written source -/

namespace Lexer

theorem run_phraseSource {closed : Bool} {last : List Char} {pieces : List PhrasePiece}
    (writing : IsPhraseWriting closed last pieces) {lexer : Lexer} {before : List Char}
    (stands : lexer.unmarked = .between before (phraseSource closed last pieces))
    (noMark : lexer.unmarked = lexer.cursor) :
    (lexer.run (List.replicate pieces.length .phrase)).map (·.outcome) =
        pieces.map (fun piece => .phrase (String.ofList piece.phrase)) ∧
      (lexer.runFinal (List.replicate pieces.length .phrase)).scanPhrase.outcome = .endOfInput := by
  -- A scan leaves the source that is written from the other pieces, and the blank that this has to
  -- open with is what let the period end the phrase. An unclosed last piece leaves no source.
  induction pieces generalizing lexer before with
  | nil => exact ⟨rfl, by rw [List.length_nil, List.replicate_zero, runFinal,
      scanPhrase_of_blanks stands writing.last, finish]⟩
  | cons piece pieces ih =>
      obtain ⟨gap, trail, rest, split, blank, next, left⟩ := writing.exists_parts
      rw [split] at stands
      have scan := scanPhrase_of_phraseBefore stands blank next
      have stays := unmarked_perform noMark .phrase
      rw [List.length_cons, List.replicate_succ, run, runFinal, List.map_cons, List.map_cons]
      rw [perform, scan] at stays ⊢
      rcases left with written | ⟨rfl, ended⟩
      · obtain ⟨outcomes, last⟩ := ih writing.tail (stays.trans (by rw [produce, written])) stays
        exact ⟨congrArg _ outcomes, last⟩
      · refine ⟨rfl, ?_⟩
        rw [List.length_nil, List.replicate_zero, runFinal]
        rw [scanPhrase_of_blanks stays (by rw [ended]; rintro c ⟨⟩), finish]

/-- **Reading phrases undoes writing them, and reads nothing else.** From a source that is written
from phrases, with no mark before them that is skipped, as many phrase scans as there are phrases
produce just these, and one more finds the end. Conversely, whatever the source, each phrase that is
produced after whatever calls is a text that can be written. -/
theorem phrases_roundtrip :
    (∀ (settings : Settings) (closed : Bool) (last : List Char) (pieces : List PhrasePiece)
      (start : Lexer), IsPhraseWriting closed last pieces →
      withSettings (phraseSource closed last pieces) settings = .ok start →
      (settings.skipMark = false ∨
        (phraseSource closed last pieces).head? ≠ some byteOrderMark) →
      (start.run (List.replicate pieces.length .phrase)).map (·.outcome) =
          pieces.map (fun piece => .phrase (String.ofList piece.phrase)) ∧
        (start.runFinal (List.replicate pieces.length .phrase)).scanPhrase.outcome =
          .endOfInput) ∧
    ∀ (text : List Char) (settings : Settings) (start : Lexer) (calls : List Call),
      withSettings text settings = .ok start → ∀ scan ∈ start.run calls, ∀ phrase,
        scan.outcome = .phrase phrase → IsPhrase phrase.toList := by
  constructor
  · intro settings closed last pieces start writing made noMark
    have stands := cursor_of_withSettings made
    obtain ⟨unread, split, unmarked⟩ := unmarked_of_start stands
    have skipped : settings.skippedMark (phraseSource closed last pieces) = [] :=
      if_neg fun marked => noMark.elim (by simp [marked.1]) (absurd marked.2)
    rw [settings_of_withSettings made, skipped] at split unmarked
    obtain rfl : phraseSource closed last pieces = unread := split
    exact run_phraseSource writing unmarked (unmarked.trans stands.symm)
  · intro text settings start calls made scan member phrase found
    obtain ⟨earlier, call, later, -, rfl⟩ := mem_run member
    exact isPhrase_of_perform found

/-- Phrases with periods in them and at their ends, an empty one among blanks, and a last one that
has no period behind it. -/
def tightPieces : List PhrasePiece :=
  [⟨[], "\"A.B".toList, [' ']⟩, ⟨['\t'], [], ['\n']⟩, ⟨['\r'], "..".toList, []⟩,
    ⟨[' '], "*C.\uFEFF  D".toList, [' ']⟩]

/-- The tight pieces are read as written. What is read of another text, which was not written from
pieces, is a phrase all the same. -/
theorem tightPieces_roundtrip :
    phraseSource false ['\n'] tightPieces = "\"A.B .\t\n.\r... *C.\uFEFF  D \n".toList ∧
      ((ofText (phraseSource false ['\n'] tightPieces)).run
          (List.replicate 4 .phrase)).map (·.outcome) =
        [.phrase "\"A.B", .phrase "", .phrase "..", .phrase "*C.\uFEFF  D"] ∧
      (ofText "..A. .".toList).scanPhrase.outcome = .phrase "..A" ∧ IsPhrase "..A".toList := by
  have writing : IsPhraseWriting false ['\n'] tightPieces :=
    ⟨by decide, by decide, by decide, by decide⟩
  have read := phrases_roundtrip.1 {} false ['\n'] tightPieces _ writing
    (withSettings_ofText _) (.inr (by decide))
  have found : (ofText "..A. .".toList).scanPhrase.outcome = .phrase "..A" := by decide
  refine ⟨rfl, read.1, found, ?_⟩
  exact phrases_roundtrip.2 _ {} _ [.phrase] (withSettings_ofText _) _ List.mem_cons_self _ found

end Lexer

end CobolSource
