/-
# Proofs.Respelling — texts that read alike

A scan looks at a character through its classes, and no class tells apart two characters that end a
line, two letters, or two digits (`Alike`). So a text may be spelled otherwise, character by
character and with fewer line ends in a row (`Respelled`), and what is found in it keeps its kind:
layout stays layout, values stay values of their kind, a string closes or stays open, phrases stay
phrases.

Where a text is cut is left open here, and so is what becomes of the cuts.
-/
import CobolSource.Proofs.PhraseScan
import CobolSource.Proofs.Writing

namespace CobolSource

set_option autoImplicit false

/-! ## Characters that read alike -/

/-- A character that stands for all those that read like this one. -/
def shade (c : Char) : Char :=
  if endsLine c then '\n' else if startsName c then 'A' else if c.isDigit then '0' else c

/-- No scan tells the two characters apart. -/
def Alike (c d : Char) : Prop :=
  shade c = shade d

instance (c d : Char) : Decidable (Alike c d) :=
  inferInstanceAs (Decidable (_ = _))

/-- No other character reads like this one. -/
def Sole (c : Char) : Prop :=
  endsLine c = false ∧ startsName c = false ∧ c.isDigit = false

instance (c : Char) : Decidable (Sole c) :=
  inferInstanceAs (Decidable (_ ∧ _))

theorem isBlank_eq_false_of_continuesName {c : Char} (continues : continuesName c = true) :
    isBlank c = false := by
  by_contra blank
  simp only [isBlank, Bool.not_eq_false, Bool.or_eq_true, beq_iff_eq] at blank
  rcases blank with ((rfl | rfl) | rfl) | rfl <;> exact absurd continues (by decide)

theorem continuesName_of_isDigit {c : Char} (digit : c.isDigit = true) :
    continuesName c = true := by
  simp [continuesName, Char.isAlphanum, digit]

theorem shade_of_sole {c : Char} (sole : Sole c) : shade c = c := by
  simp [shade, sole.1, sole.2.1, sole.2.2]

/-- A test that does not tell apart line ends, letters or digits only needs to know the shade. -/
theorem test_shade {test : Char → Bool} (ends : ∀ c, endsLine c = true → test c = test '\n')
    (letters : ∀ c, startsName c = true → test c = test 'A')
    (digits : ∀ c, c.isDigit = true → test c = test '0') (c : Char) : test (shade c) = test c := by
  unfold shade
  split_ifs with isEnd isLetter isDigit
  · exact (ends c isEnd).symm
  · exact (letters c isLetter).symm
  · exact (digits c isDigit).symm
  · rfl

namespace Alike

theorem symm {c d : Char} (alike : Alike c d) : Alike d c :=
  Eq.symm alike

theorem trans {c d e : Char} (one : Alike c d) (other : Alike d e) : Alike c e :=
  Eq.trans one other

theorem of_endsLine {c d : Char} (one : endsLine c = true) (other : endsLine d = true) :
    Alike c d := by
  simp [Alike, shade, one, other]

theorem test_eq {test : Char → Bool} {c d : Char} (alike : Alike c d)
    (shaded : ∀ c, test (shade c) = test c) : test c = test d := by
  rw [← shaded c, alike, shaded d]

theorem isBlank_eq {c d : Char} (alike : Alike c d) : isBlank c = isBlank d := by
  refine alike.test_eq (test_shade ?_ ?_ ?_)
  · exact fun c ends => (isBlank_of_endsLine ends).trans (by decide)
  · exact fun c letter => isBlank_eq_false_of_continuesName (continuesName_of_startsName letter)
  · exact fun c digit => isBlank_eq_false_of_continuesName (continuesName_of_isDigit digit)

theorem endsLine_eq {c d : Char} (alike : Alike c d) : endsLine c = endsLine d := by
  refine alike.test_eq (test_shade ?_ ?_ ?_)
  · exact fun c ends => ends
  · exact fun c letter => endsLine_eq_false_of_solid
      (isBlank_eq_false_of_continuesName (continuesName_of_startsName letter))
  · exact fun c digit => endsLine_eq_false_of_solid
      (isBlank_eq_false_of_continuesName (continuesName_of_isDigit digit))

theorem startsName_eq {c d : Char} (alike : Alike c d) : startsName c = startsName d := by
  refine alike.test_eq (test_shade ?_ ?_ ?_)
  · intro c ends
    rcases eq_of_endsLine ends with rfl | rfl <;> decide
  · exact fun c letter => letter
  · exact fun c digit => startsName_eq_false_of_isDigit digit

theorem isDigit_eq {c d : Char} (alike : Alike c d) : c.isDigit = d.isDigit := by
  have shaded : ∀ e, (shade e).isDigit = e.isDigit := by
    refine test_shade ?_ ?_ ?_
    · intro e ends
      rcases eq_of_endsLine ends with rfl | rfl <;> decide
    · intro e letter
      by_contra digit
      rw [startsName_eq_false_of_isDigit (by simpa using digit)] at letter
      cases letter
    · exact fun e digit => digit
  exact alike.test_eq shaded

theorem continuesName_eq {c d : Char} (alike : Alike c d) : continuesName c = continuesName d := by
  refine alike.test_eq (test_shade ?_ ?_ ?_)
  · intro c ends
    rcases eq_of_endsLine ends with rfl | rfl <;> decide
  · exact fun c letter => continuesName_of_startsName letter
  · exact fun c digit => continuesName_of_isDigit digit

theorem eq_of_sole {c d : Char} (alike : Alike c d) (sole : Sole c) : d = c := by
  have soleToo : Sole d :=
    ⟨alike.endsLine_eq ▸ sole.1, alike.startsName_eq ▸ sole.2.1, alike.isDigit_eq ▸ sole.2.2⟩
  rw [← shade_of_sole sole, ← shade_of_sole soleToo]
  exact alike.symm

theorem eq_iff {c d e : Char} (alike : Alike c d) (sole : Sole e) : c = e ↔ d = e := by
  constructor
  · rintro rfl
    exact alike.eq_of_sole sole
  · rintro rfl
    exact alike.symm.eq_of_sole sole

end Alike

/-- A comment indicator reads like itself alone. -/
theorem Settings.Valid.sole {settings : Settings} (valid : settings.Valid) :
    Sole settings.commentIndicator := by
  have free := valid.1
  simp only [isReserved, Bool.or_eq_false_iff, continuesName, Char.isAlphanum] at free
  obtain ⟨⟨⟨⟨solid, ⟨letter, digit⟩, -⟩, -⟩, -⟩, -⟩ := free
  exact ⟨endsLine_eq_false_of_solid solid, letter, digit⟩

theorem sole_of_punctuation {value : List Char} (admitted : TokenKind.punctuation.Admits value) :
    ∀ c ∈ value, Sole c := by
  simp only [TokenKind.Admits, List.mem_cons, List.not_mem_nil, or_false] at admitted
  rcases admitted with rfl | rfl | rfl | rfl <;>
    simp only [List.forall_mem_cons, List.not_mem_nil, false_implies, implies_true, and_true] <;>
    decide

theorem sole_of_operator {value : List Char} (admitted : TokenKind.operator.Admits value) :
    ∀ c ∈ value, Sole c := by
  simp only [TokenKind.Admits, List.mem_cons, List.not_mem_nil, or_false] at admitted
  rcases admitted with rfl | rfl | rfl | rfl | rfl <;>
    simp only [List.forall_mem_cons, List.not_mem_nil, false_implies, implies_true, and_true] <;>
    decide

/-- What starts nothing and is no blank is read as what it is. -/
theorem sole_of_opening?_eq_none {c : Char} (solid : isBlank c = false)
    (unknown : TokenKind.opening? c = none) : Sole c := by
  rw [TokenKind.opening?] at unknown
  split_ifs at unknown with name digit
  exact ⟨endsLine_eq_false_of_solid solid, by simpa using name, by simpa using digit⟩

/-! ## Texts that read alike -/

/-- The second text has characters that read like those of the first, but may have fewer of the line
ends that come in a row. -/
inductive Respelled : List Char → List Char → Prop
  | nil : Respelled [] []
  | cons {c d : Char} {first second : List Char} : Alike c d → Respelled first second →
      Respelled (c :: first) (d :: second)
  | drop {c d : Char} {first second : List Char} : endsLine c = true → endsLine d = true →
      Respelled (d :: first) second → Respelled (c :: d :: first) second

namespace Respelled

variable {first second : List Char}

theorem append {more other : List Char} (respelled : Respelled first second)
    (rest : Respelled more other) : Respelled (first ++ more) (second ++ other) := by
  induction respelled with
  | nil => exact rest
  | cons alike _ ih => exact .cons alike ih
  | drop one two _ ih => exact .drop one two ih

theorem head (respelled : Respelled first second) :
    Option.Rel Alike first.head? second.head? := by
  induction respelled with
  | nil => exact .none
  | cons alike _ _ => exact .some alike
  | @drop c d first second one two _ ih =>
      generalize second.head? = head at ih
      cases ih with
      | some alike => exact .some ((Alike.of_endsLine one two).trans alike)

theorem eq_nil_iff (respelled : Respelled first second) : first = [] ↔ second = [] := by
  cases respelled with
  | nil => exact Iff.rfl
  | cons => exact ⟨nofun, nofun⟩
  | drop _ _ rest =>
      refine ⟨nofun, ?_⟩
      rintro rfl
      cases rest.head

theorem last (respelled : Respelled first second) :
    Option.Rel Alike first.getLast? second.getLast? := by
  induction respelled with
  | nil => exact .none
  | @cons c d first second alike rest ih =>
      cases first with
      | nil =>
          obtain rfl := rest.eq_nil_iff.1 rfl
          exact .some alike
      | cons e first =>
          cases second with
          | nil => cases rest.eq_nil_iff.2 rfl
          | cons f second =>
              rw [List.getLast?_cons_cons, List.getLast?_cons_cons]
              exact ih
  | drop _ _ _ ih =>
      rw [List.getLast?_cons_cons]
      exact ih

theorem forall_mem {test : Char → Prop} (alike : ∀ c d, Alike c d → test c → test d)
    (respelled : Respelled first second) (all : ∀ c ∈ first, test c) : ∀ d ∈ second, test d := by
  induction respelled with
  | nil => nofun
  | cons same _ ih =>
      obtain ⟨passes, others⟩ := List.forall_mem_cons.1 all
      exact List.forall_mem_cons.2 ⟨alike _ _ same passes, ih others⟩
  | drop _ _ _ ih => exact ih (List.forall_mem_cons.1 all).2

/-- What may follow what is a matter of how characters read. -/
theorem isChain {follows : Char → Char → Prop}
    (alike : ∀ c c' d d', Alike c c' → Alike d d' → follows c d → follows c' d')
    (respelled : Respelled first second) (chain : first.IsChain follows) :
    second.IsChain follows := by
  induction respelled with
  | nil => exact .nil
  | @cons c c' first second same rest ih =>
      rw [List.isChain_cons] at chain ⊢
      obtain ⟨next, later⟩ := chain
      refine ⟨fun d' among => ?_, ih later⟩
      have heads := rest.head
      rw [Option.mem_def.1 among] at heads
      cases head : first.head? with
      | none =>
          rw [head] at heads
          cases heads
      | some d =>
          rw [head] at heads
          cases heads with
          | some both => exact alike c c' d d' same both (next d head)
  | drop _ _ _ ih => exact ih (List.isChain_cons.1 chain).2

theorem eq_of_sole (respelled : Respelled first second) (sole : ∀ c ∈ first, Sole c) :
    second = first := by
  induction respelled with
  | nil => rfl
  | cons alike _ ih =>
      obtain ⟨one, others⟩ := List.forall_mem_cons.1 sole
      rw [alike.eq_of_sole one, ih others]
  | drop ends _ _ _ =>
      have one := (List.forall_mem_cons.1 sole).1.1
      rw [ends] at one
      cases one

/-! ## What texts that read alike have in common -/

theorem layout_both {indicator : Char} (sole : Sole indicator) (solid : isBlank indicator = false)
    (respelled : Respelled first second) :
    (Layout indicator first → Layout indicator second) ∧
      (Layout indicator (indicator :: first) → Layout indicator (indicator :: second)) := by
  induction respelled with
  | nil => exact ⟨id, id⟩
  | @cons c d first second alike rest ih =>
      constructor
      · intro layout
        by_cases opens : c = indicator
        · obtain rfl : d = indicator := (alike.eq_iff sole).1 opens
          subst opens
          exact ih.2 layout
        · have other : d ≠ indicator := mt (alike.eq_iff sole).2 opens
          rw [layout_cons_iff opens] at layout
          rw [layout_cons_iff other, ← alike.isBlank_eq]
          exact layout.imp_right ih.1
      · rw [layout_comment_iff solid, layout_comment_iff solid, alike.endsLine_eq]
        split
        · exact ih.1
        · exact ih.2
  | @drop c d first second one two rest ih =>
      have other : c ≠ indicator := by
        rintro rfl
        exact absurd (sole.1.symm.trans one) (by decide)
      have outside (layout : Layout indicator (d :: first)) : Layout indicator second := ih.1 layout
      constructor
      · intro layout
        exact outside ((layout_cons_iff other).1 layout).2
      · rw [layout_comment_iff solid, if_pos one]
        intro layout
        -- The respelled text starts with a line end too, and that ends the comment.
        obtain ⟨e, more, rfl⟩ := List.exists_cons_of_ne_nil
          (mt rest.eq_nil_iff.2 (List.cons_ne_nil d first))
        have heads := rest.head
        cases heads with
        | some alike =>
            have ends : endsLine e = true := alike.endsLine_eq ▸ two
            have apart : e ≠ indicator := by
              rintro rfl
              exact absurd (sole.1.symm.trans ends) (by decide)
            rw [layout_comment_iff solid, if_pos ends]
            exact ((layout_cons_iff apart).1 (outside layout)).2

theorem layout {indicator : Char} (sole : Sole indicator) (solid : isBlank indicator = false)
    (respelled : Respelled first second) (is : Layout indicator first) : Layout indicator second :=
  (respelled.layout_both sole solid).1 is

theorem finalLayout {indicator : Char} (sole : Sole indicator) (solid : isBlank indicator = false)
    (respelled : Respelled first second) (is : FinalLayout indicator first) :
    FinalLayout indicator second := by
  rw [finalLayout_iff solid] at is ⊢
  exact (respelled.append (.cons rfl .nil)).layout sole solid is

theorem layoutBefore {indicator : Char} (sole : Sole indicator) (solid : isBlank indicator = false)
    {rest more : List Char} (respelled : Respelled first second) (rests : Respelled rest more)
    (stops : LayoutBefore indicator first rest) : LayoutBefore indicator second more := by
  cases stops with
  | ended final =>
      obtain rfl := rests.eq_nil_iff.1 rfl
      exact .ended (respelled.finalLayout sole solid final)
  | solid layout notBlank other =>
      cases rests with
      | cons alike =>
          exact .solid (respelled.layout sole solid layout) (alike.isBlank_eq ▸ notBlank)
            (mt (alike.eq_iff sole).2 other)
      | drop ends =>
          rw [isBlank_of_endsLine ends] at notBlank
          cases notBlank

theorem blanks (respelled : Respelled first second) (blank : Blanks first) : Blanks second :=
  respelled.forall_mem (fun _ _ alike is => alike.isBlank_eq ▸ is) blank

theorem exists_head (respelled : Respelled first second) {d : Char} (among : d ∈ second.head?) :
    ∃ c ∈ first.head?, Alike c d := by
  have heads := respelled.head
  rw [Option.mem_def.1 among] at heads
  generalize first.head? = head at heads
  cases heads with
  | some alike => exact ⟨_, rfl, alike⟩

theorem exists_last (respelled : Respelled first second) {d : Char} (among : d ∈ second.getLast?) :
    ∃ c ∈ first.getLast?, Alike c d := by
  have lasts := respelled.last
  rw [Option.mem_def.1 among] at lasts
  generalize first.getLast? = last at lasts
  cases lasts with
  | some alike => exact ⟨_, rfl, alike⟩

theorem atBlank (respelled : Respelled first second) (blank : AtBlank first) : AtBlank second := by
  intro d among
  obtain ⟨c, head, alike⟩ := respelled.exists_head among
  exact alike.isBlank_eq ▸ blank c head

/-! ### Lexemes -/

theorem keepsOpen (respelled : Respelled first second) (chain : first.IsChain KeepsOpen) :
    second.IsChain KeepsOpen := by
  refine respelled.isChain (fun c c' d d' one other follows => ?_) chain
  intro same
  exact (one.eq_iff (by decide)).1 (follows ((other.eq_iff (by decide)).2 same))

theorem unclosed (respelled : Respelled first second) (is : contentLength? first = none) :
    contentLength? second = none := by
  rw [contentLength?_eq_none_iff] at is ⊢
  have opened : Respelled (quote :: first) (quote :: second) := .cons rfl respelled
  exact opened.keepsOpen is

theorem isContent (respelled : Respelled first second) (is : IsContent first) :
    IsContent second := by
  have opened : Respelled (quote :: first) (quote :: second) := .cons rfl respelled
  refine ⟨opened.keepsOpen is.1, fun last => ?_⟩
  obtain ⟨c, among, alike⟩ := respelled.exists_last last
  rw [(alike.eq_iff (by decide : Sole escape)).2 rfl] at among
  exact is.2 among

theorem admits {kind : TokenKind} (respelled : Respelled first second)
    (admitted : kind.Admits first) : kind.Admits second := by
  cases kind with
  | name =>
      cases first with
      | nil => exact absurd admitted (by decide)
      | cons c rest =>
          obtain ⟨letter, inner⟩ := admitted
          have continues : ∀ d ∈ c :: rest, continuesName d = true := by
            refine List.forall_mem_cons.2 ⟨continuesName_of_startsName letter, fun d among => ?_⟩
            simpa [continuesName] using inner d among
          have goesOn := respelled.forall_mem (fun _ _ alike is => alike.continuesName_eq ▸ is)
            continues
          obtain ⟨d, more, rfl⟩ := List.exists_cons_of_ne_nil
            (mt respelled.eq_nil_iff.2 (List.cons_ne_nil c rest))
          obtain ⟨e, head, alike⟩ := respelled.exists_head rfl
          cases head
          refine ⟨alike.startsName_eq.symm.trans letter, fun d among => ?_⟩
          simpa [continuesName] using goesOn d (List.mem_cons_of_mem _ among)
  | integer =>
      obtain ⟨some, digits⟩ := admitted
      exact ⟨mt respelled.eq_nil_iff.2 some,
        respelled.forall_mem (fun _ _ alike is => alike.isDigit_eq ▸ is) digits⟩
  | string => exact respelled.isContent admitted
  | punctuation => rwa [respelled.eq_of_sole (sole_of_punctuation admitted)]
  | operator => rwa [respelled.eq_of_sole (sole_of_operator admitted)]

/-- What carries a value on is respelled with it. -/
theorem goesOn {kind : TokenKind} (respelled : Respelled first second)
    (admitted : kind.Admits first) {c d : Char} (alike : Alike c d)
    (goesOn : kind.GoesOn second d) : kind.GoesOn first c := by
  cases kind with
  | name => exact alike.continuesName_eq.trans goesOn
  | integer => exact alike.isDigit_eq.trans goesOn
  | string | punctuation => exact goesOn.elim
  | operator =>
      obtain ⟨angle, equals⟩ := goesOn
      have same : second = first := respelled.eq_of_sole (sole_of_operator admitted)
      exact ⟨same ▸ angle, (alike.eq_iff (by decide)).2 equals⟩

/-! ### Phrases -/

theorem isPhrase (respelled : Respelled first second) (is : IsPhrase first) : IsPhrase second := by
  refine ⟨fun d among => ?_, fun d among => ?_, ?_⟩
  · obtain ⟨c, head, alike⟩ := respelled.exists_head among
    exact alike.isBlank_eq ▸ is.head_solid c head
  · obtain ⟨c, last, alike⟩ := respelled.exists_last among
    exact alike.isBlank_eq ▸ is.last_solid c last
  · refine respelled.isChain (fun c c' d d' one other follows same => ?_) is.runsOn
    rw [← other.isBlank_eq]
    exact follows ((one.eq_iff (by decide)).2 same)

theorem phraseBefore {trail trail' rest rest' : List Char} (respelled : Respelled first second)
    (trails : Respelled trail trail') (rests : Respelled rest rest')
    (before : PhraseBefore first trail rest) : PhraseBefore second trail' rest' := by
  refine ⟨respelled.isPhrase before.isPhrase, trails.blanks before.blanks, ?_, ?_⟩
  · rcases before.stops with rfl | ⟨after, rfl, blank⟩
    · exact .inl (rests.eq_nil_iff.1 rfl)
    · cases rests with
      | cons alike more =>
          obtain rfl := alike.eq_of_sole (by decide)
          exact .inr ⟨_, rfl, more.atBlank blank⟩
      | drop ends => exact absurd ends (by decide)
  · rcases before.settled with ⟨c, last, other⟩ | ⟨rfl, some⟩
    · have lasts := respelled.last
      rw [Option.mem_def.1 last] at lasts
      generalize second.getLast? = lastToo at lasts ⊢
      cases lasts with
      | some alike => exact .inl ⟨_, rfl, mt (alike.eq_iff (by decide)).2 other⟩
    · exact .inr ⟨trails.eq_nil_iff.1 rfl, mt rests.eq_nil_iff.2 some⟩

end Respelled

end CobolSource
