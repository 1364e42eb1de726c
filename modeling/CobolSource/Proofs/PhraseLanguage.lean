/-
# Proofs.PhraseLanguage — what a phrase is, and where it ends

A phrase neither starts nor ends with a blank, and no period inside it has a blank after it. So says
`IsPhrase`, from each pair of neighbours (`RunsOn`). `bodyLength` reads the other way about: it goes
on to the first period that ends a phrase, and blanks at the end are taken off afterwards.

`PhraseBefore` says how the two fit. After its blanks a text is a phrase, the blanks that trail it,
and then the period that ends it or nothing at all. Every text that is not all blank splits in this
way (`exists_phraseBefore`), and such a split is what is read (`bodyLength_phraseBefore`,
`phraseText_phraseBefore`), so there is no other.
-/
import CobolSource.Grammar.Phrase
import Mathlib.Data.List.Chain
import Mathlib.Data.List.DropRight

namespace CobolSource

set_option autoImplicit false

/-! ## Languages -/

/-- A text that is all blanks. -/
def Blanks (text : List Char) : Prop :=
  ∀ c ∈ text, isBlank c = true

instance (text : List Char) : Decidable (Blanks text) :=
  List.decidableBAll _ text

/-- A blank comes next, or nothing. -/
def AtBlank (text : List Char) : Prop :=
  ∀ c ∈ text.head?, isBlank c = true

/-- Two characters that may follow each other inside a phrase. -/
def RunsOn (c d : Char) : Prop :=
  c = period → isBlank d = false

instance (c d : Char) : Decidable (RunsOn c d) :=
  inferInstanceAs (Decidable (_ → _))

/-- A text that can be a phrase. The empty text is one. -/
structure IsPhrase (text : List Char) : Prop where
  head_solid : ∀ c ∈ text.head?, isBlank c = false
  last_solid : ∀ c ∈ text.getLast?, isBlank c = false
  runsOn : text.IsChain RunsOn

instance (text : List Char) : Decidable (IsPhrase text) :=
  -- One character is tested at either end, and not every character there is.
  letI : ∀ end? : Option Char, Decidable (∀ c ∈ end?, isBlank c = false) :=
    Option.decidableForallMem
  decidable_of_iff ((∀ c ∈ text.head?, isBlank c = false) ∧
      (∀ c ∈ text.getLast?, isBlank c = false) ∧ text.IsChain RunsOn)
    ⟨fun ⟨first, last, runsOn⟩ => ⟨first, last, runsOn⟩,
      fun phrase => ⟨phrase.head_solid, phrase.last_solid, phrase.runsOn⟩⟩

/-- `phrase` comes next, then the blanks `trail`, then `rest`: the period that ends the phrase, or
nothing. -/
structure PhraseBefore (phrase trail rest : List Char) : Prop where
  isPhrase : IsPhrase phrase
  blanks : Blanks trail
  stops : rest = [] ∨ ∃ after, rest = period :: after ∧ AtBlank after
  /-- A phrase that is empty or ends with a period has its own period right behind it: blanks there
  would be taken for the ones before a phrase, or make the phrase's last period end it. -/
  settled : (∃ c ∈ phrase.getLast?, c ≠ period) ∨ trail = [] ∧ rest ≠ []

theorem not_atBlank_iff {text : List Char} :
    ¬ AtBlank text ↔ ∃ c ∈ text.head?, isBlank c = false := by
  simp [AtBlank]

theorem Blanks.eq_nil {gap : List Char} (blank : Blanks gap)
    (solid : ∀ c ∈ gap.head?, isBlank c = false) : gap = [] := by
  cases gap with
  | nil => rfl
  | cons c gap =>
      have first := solid c rfl
      rw [blank c List.mem_cons_self] at first
      cases first

theorem Blanks.runsOn {text : List Char} (blank : Blanks text) : text.IsChain RunsOn := by
  have apart : text.Pairwise RunsOn := by
    apply List.pairwise_of_forall_mem_list
    rintro c among d - rfl
    exact absurd (blank period among) (by decide)
  exact apart.isChain

theorem Blanks.append {first second : List Char} (one : Blanks first) (other : Blanks second) :
    Blanks (first ++ second) :=
  List.forall_mem_append.2 ⟨one, other⟩

theorem isBlank_period : isBlank period = false := by decide

/-! ## Where a body ends -/

theorem startsWithTerminator_cons_iff {c : Char} {text : List Char} :
    startsWithTerminator (c :: text) = true ↔ c = period ∧ AtBlank text := by
  cases text <;> simp [startsWithTerminator, AtBlank]

/-- No terminator starts inside a body that runs on, nor at its last character if that is not a
period with a blank, or nothing, after it. -/
theorem bodyLength_append {body rest : List Char} (runsOn : body.IsChain RunsOn)
    (joint : ∀ c ∈ body.getLast?, c = period → ¬ AtBlank rest) :
    bodyLength (body ++ rest) = body.length + bodyLength rest := by
  induction body with
  | nil => simp
  | cons c body ih =>
      rw [List.isChain_cons] at runsOn
      have goesOn : ¬ startsWithTerminator (c :: (body ++ rest)) = true := by
        rw [startsWithTerminator_cons_iff]
        rintro ⟨rfl, blank⟩
        cases body with
        | nil => exact joint period rfl rfl blank
        | cons d body =>
            have solid := runsOn.1 d rfl rfl
            rw [blank d rfl] at solid
            cases solid
      have later : ∀ d ∈ body.getLast?, d = period → ¬ AtBlank rest := by
        intro d last
        apply joint d
        cases body with
        | nil => cases last
        | cons e body => rwa [List.getLast?_cons_cons]
      rw [List.cons_append, bodyLength, if_neg goesOn, ih runsOn.2 later, List.length_cons]
      omega

theorem bodyLength_stop {rest : List Char}
    (stops : rest = [] ∨ ∃ after, rest = period :: after ∧ AtBlank after) :
    bodyLength rest = 0 := by
  rcases stops with rfl | ⟨after, rfl, blank⟩
  · rfl
  · rw [bodyLength, if_pos (startsWithTerminator_cons_iff.2 ⟨rfl, blank⟩)]

/-- Every text is a body that runs on, and then nothing or a period that ends a phrase. -/
theorem exists_body (text : List Char) : ∃ body rest, text = body ++ rest ∧
    body.IsChain RunsOn ∧ (∀ c ∈ body.getLast?, c = period → ¬ AtBlank rest) ∧
    (rest = [] ∨ ∃ after, rest = period :: after ∧ AtBlank after) := by
  induction text with
  | nil => exact ⟨[], [], rfl, .nil, nofun, .inl rfl⟩
  | cons c text ih =>
      by_cases ends : c = period ∧ AtBlank text
      · obtain ⟨rfl, blank⟩ := ends
        exact ⟨[], period :: text, rfl, .nil, nofun, .inr ⟨text, rfl, blank⟩⟩
      · obtain ⟨body, rest, rfl, runsOn, joint, stops⟩ := ih
        have goesOn : c = period → ¬ AtBlank (body ++ rest) := fun same blank => ends ⟨same, blank⟩
        refine ⟨c :: body, rest, rfl, List.isChain_cons.2 ⟨?_, runsOn⟩, ?_, stops⟩
        · intro d next same
          obtain ⟨e, first, solid⟩ := not_atBlank_iff.1 (goesOn same)
          obtain ⟨more, rfl⟩ := List.head?_eq_some_iff.1 next
          cases first
          exact solid
        · cases body with
          | nil =>
              rintro d ⟨⟩ same
              exact goesOn same
          | cons d body => rwa [List.getLast?_cons_cons]

/-! ## Blanks at the end -/

theorem trimEnd_append {phrase trail : List Char} (solid : ∀ c ∈ phrase.getLast?, isBlank c = false)
    (blank : Blanks trail) : trimEnd (phrase ++ trail) = phrase := by
  have dropped : trail.reverse.dropWhile isBlank = [] :=
    List.dropWhile_eq_nil_iff.2 fun c member => blank c (List.mem_reverse.1 member)
  rw [trimEnd, List.reverse_append, List.dropWhile_append, dropped, List.isEmpty_nil, if_pos rfl]
  show phrase.rdropWhile isBlank = phrase
  rw [List.rdropWhile_eq_self_iff]
  intro more
  rw [solid _ (List.getLast?_eq_some_getLast more)]
  exact Bool.false_ne_true

/-- What is taken off the end of a text is all blanks, and no blank is then last. -/
theorem exists_trimmed (text : List Char) : ∃ phrase trail, text = phrase ++ trail ∧
    Blanks trail ∧ ∀ c ∈ phrase.getLast?, isBlank c = false := by
  refine ⟨text.rdropWhile isBlank, text.rtakeWhile isBlank,
    List.rdropWhile_append_rtakeWhile.symm, fun c => List.mem_rtakeWhile_imp, ?_⟩
  intro c last
  have more : text.rdropWhile isBlank ≠ [] := by
    intro empty
    rw [empty] at last
    cases last
  rw [List.getLast?_eq_some_getLast more] at last
  have solid := List.rdropWhile_last_not isBlank text more
  rwa [Option.some.inj last, Bool.not_eq_true] at solid

/-- Every text is all blanks, or blanks and then something that starts with none. -/
theorem exists_blanks (text : List Char) : Blanks text ∨
    ∃ gap rest, text = gap ++ rest ∧ Blanks gap ∧ ∃ c ∈ rest.head?, isBlank c = false := by
  induction text with
  | nil => exact .inl nofun
  | cons c text ih =>
      cases blank : isBlank c with
      | false => exact .inr ⟨[], c :: text, rfl, nofun, c, rfl, blank⟩
      | true =>
          rcases ih with all | ⟨gap, rest, rfl, inside, solid⟩
          · exact .inl (List.forall_mem_cons.2 ⟨blank, all⟩)
          · exact .inr ⟨c :: gap, rest, rfl, List.forall_mem_cons.2 ⟨blank, inside⟩, solid⟩

/-! ## Where a phrase ends -/

namespace PhraseBefore

variable {phrase trail rest : List Char}

/-- Nothing in the phrase or in the blanks behind it ends a phrase. -/
theorem runsOn (before : PhraseBefore phrase trail rest) : (phrase ++ trail).IsChain RunsOn := by
  refine before.isPhrase.runsOn.append before.blanks.runsOn ?_
  intro c last d first same
  rcases before.settled with ⟨e, isLast, other⟩ | ⟨rfl, -⟩
  · cases last.symm.trans isLast
    exact absurd same other
  · cases first

theorem joint (before : PhraseBefore phrase trail rest) :
    ∀ c ∈ (phrase ++ trail).getLast?, c = period → ¬ AtBlank rest := by
  rintro c last rfl blank
  have ended : rest = [] := by
    rcases before.stops with ended | ⟨after, rfl, -⟩
    · exact ended
    · exact absurd (blank period rfl) (by decide)
  rcases before.settled with ⟨c, isLast, other⟩ | ⟨-, more⟩
  · cases trail using List.reverseRecOn with
    | nil =>
        rw [List.append_nil] at last
        cases last.symm.trans isLast
        exact other rfl
    | append_singleton trail d =>
        rw [← List.append_assoc, List.getLast?_concat] at last
        cases last
        exact absurd (before.blanks period (by simp)) (by decide)
  · exact more ended

theorem head_solid (before : PhraseBefore phrase trail rest) :
    ∃ c ∈ (phrase ++ (trail ++ rest)).head?, isBlank c = false := by
  cases phrase with
  | cons c phrase => exact ⟨c, rfl, before.isPhrase.head_solid c rfl⟩
  | nil =>
      rcases before.settled with ⟨c, last, -⟩ | ⟨rfl, more⟩
      · cases last
      · rcases before.stops with rfl | ⟨after, rfl, -⟩
        · exact absurd rfl more
        · exact ⟨period, rfl, isBlank_period⟩

theorem solid (before : PhraseBefore phrase trail rest) :
    ∀ c ∈ (phrase ++ (trail ++ rest)).head?, isBlank c = false := by
  obtain ⟨c, first, solid⟩ := before.head_solid
  intro d head
  cases head.symm.trans first
  exact solid

theorem ne_nil (before : PhraseBefore phrase trail rest) : phrase ++ (trail ++ rest) ≠ [] := by
  obtain ⟨c, first, -⟩ := before.head_solid
  intro empty
  rw [empty] at first
  cases first

theorem bodyLength_phraseBefore (before : PhraseBefore phrase trail rest) :
    bodyLength (phrase ++ (trail ++ rest)) = phrase.length + trail.length := by
  rw [← List.append_assoc, bodyLength_append before.runsOn before.joint,
    bodyLength_stop before.stops, List.length_append, Nat.add_zero]

theorem phraseText_phraseBefore (before : PhraseBefore phrase trail rest) :
    phraseText (phrase ++ (trail ++ rest)) = phrase := by
  rw [phraseText, before.bodyLength_phraseBefore, ← List.length_append, ← List.append_assoc,
    List.take_left, trimEnd_append before.isPhrase.last_solid before.blanks]

end PhraseBefore

/-- Where blanks are taken off a body that ends at `rest`, they stand behind a phrase that is not
empty and does not end with a period. -/
theorem settled_of_body {phrase trail rest : List Char} (blank : Blanks trail)
    (runsOn : (phrase ++ trail).IsChain RunsOn)
    (joint : ∀ c ∈ (phrase ++ trail).getLast?, c = period → ¬ AtBlank rest)
    (solid : ∃ c ∈ (phrase ++ (trail ++ rest)).head?, isBlank c = false) :
    (∃ c ∈ phrase.getLast?, c ≠ period) ∨ trail = [] ∧ rest ≠ [] := by
  cases ending : phrase.getLast? with
  | none =>
      right
      obtain rfl := List.getLast?_eq_none_iff.1 ending
      obtain ⟨c, first, solid⟩ := solid
      cases trail with
      | nil => exact ⟨rfl, fun empty => by rw [empty] at first; cases first⟩
      | cons d trail =>
          cases first
          rw [blank c List.mem_cons_self] at solid
          cases solid
  | some c =>
      by_cases same : c = period
      · right
        subst same
        have next := (List.isChain_append.1 runsOn).2.2 period ending
        obtain rfl := blank.eq_nil fun d first => next d first rfl
        refine ⟨rfl, ?_⟩
        rintro rfl
        rw [List.append_nil] at joint
        exact joint period ending rfl nofun
      · exact .inl ⟨c, rfl, same⟩

/-- Every text is all blanks, or blanks and then a phrase with what ends it. -/
theorem exists_phraseBefore (text : List Char) : Blanks text ∨
    ∃ gap phrase trail rest, text = gap ++ (phrase ++ (trail ++ rest)) ∧ Blanks gap ∧
      PhraseBefore phrase trail rest := by
  rcases exists_blanks text with blank | ⟨gap, solidText, rfl, blank, c, first, solid⟩
  · exact .inl blank
  obtain ⟨body, rest, rfl, runsOn, joint, stops⟩ := exists_body solidText
  obtain ⟨phrase, trail, rfl, trailing, last⟩ := exists_trimmed body
  rw [List.append_assoc] at first ⊢
  refine .inr ⟨gap, phrase, trail, rest, rfl, blank, ⟨?_, last, runsOn.left_of_append⟩, trailing,
    stops, settled_of_body trailing runsOn joint ⟨c, first, solid⟩⟩
  intro d head
  rw [List.head?_append, Option.mem_def.1 head] at first
  cases first
  exact solid

end CobolSource
