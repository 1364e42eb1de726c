/-
# Proofs.LayoutLanguage — what layout is, and that skipping takes all of it

`Layout` says by its constructors which texts may stand between lexemes: blanks, and comments that
end with their line. Where the source ends a comment may end too, and `FinalLayout` allows for that.

`layoutLength` counts in rounds of blanks and comments. Over the language it is a count that adds up
(`layoutLength_append`) and stops at the first character that starts no layout
(`layoutLength_stop`). Every text splits into layout and what comes after (`exists_layoutBefore`);
the split is what is counted (`layoutLength_layoutBefore`), so there is only one, and its layout is
the longest there is (`LayoutBefore.isLongestLayout`). A comment ended by CR LF needs no case of its
own: its CR ends it, and its LF is a blank.

All this takes for granted that the indicator is not a blank itself, which settings see to.
-/
import CobolSource.Grammar.Layout

namespace CobolSource

set_option autoImplicit false

/-- Blanks, and comments with the ends of their lines. -/
inductive Layout (indicator : Char) : List Char → Prop
  | nil : Layout indicator []
  | blank {c : Char} {rest : List Char} : isBlank c = true → Layout indicator rest →
      Layout indicator (c :: rest)
  | comment {body : List Char} {c : Char} {rest : List Char} :
      (∀ d ∈ body, endsLine d = false) → endsLine c = true → Layout indicator rest →
      Layout indicator (indicator :: (body ++ c :: rest))

/-- Layout up to the end of the source, which ends a comment as a line does. -/
inductive FinalLayout (indicator : Char) : List Char → Prop
  | complete {gap : List Char} : Layout indicator gap → FinalLayout indicator gap
  | cutOff {gap body : List Char} : Layout indicator gap → (∀ d ∈ body, endsLine d = false) →
      FinalLayout indicator (gap ++ indicator :: body)

/-- `gap` is layout, and what comes after it, `rest`, starts with none. -/
inductive LayoutBefore (indicator : Char) : List Char → List Char → Prop
  | ended {gap : List Char} : FinalLayout indicator gap → LayoutBefore indicator gap []
  | solid {gap : List Char} {c : Char} {rest : List Char} : Layout indicator gap →
      isBlank c = false → c ≠ indicator → LayoutBefore indicator gap (c :: rest)

/-- Layout that a text has at its head. -/
def LayoutPrefix (indicator : Char) (gap text : List Char) : Prop :=
  gap <+: text ∧ (Layout indicator gap ∨ gap = text ∧ FinalLayout indicator gap)

/-- All the layout that a text has at its head. -/
def IsLongestLayout (indicator : Char) (gap text : List Char) : Prop :=
  LayoutPrefix indicator gap text ∧
    ∀ other, LayoutPrefix indicator other text → other.length ≤ gap.length

/-! ## Ends of lines are blanks -/

theorem eq_of_endsLine {c : Char} (ends : endsLine c = true) : c = '\r' ∨ c = '\n' := by
  simpa [endsLine] using ends

theorem isBlank_of_endsLine {c : Char} (ends : endsLine c = true) : isBlank c = true := by
  rcases eq_of_endsLine ends with rfl | rfl <;> decide

theorem endsLine_eq_false_of_solid {c : Char} (solid : isBlank c = false) : endsLine c = false := by
  cases ends : endsLine c with
  | false => rfl
  | true =>
      rw [isBlank_of_endsLine ends] at solid
      cases solid

/-! ## Joining layout -/

theorem Layout.append {indicator : Char} {first second : List Char}
    (layout : Layout indicator first) (more : Layout indicator second) :
    Layout indicator (first ++ second) := by
  induction layout with
  | nil => exact more
  | blank blank _ ih => exact .blank blank ih
  | comment body ends _ ih =>
      rw [List.cons_append, List.append_assoc, List.cons_append]
      exact .comment body ends ih

theorem FinalLayout.append_left {indicator : Char} {first second : List Char}
    (layout : Layout indicator first) (final : FinalLayout indicator second) :
    FinalLayout indicator (first ++ second) := by
  cases final with
  | complete more => exact .complete (layout.append more)
  | cutOff more inside =>
      rw [← List.append_assoc]
      exact .cutOff (layout.append more) inside

theorem LayoutBefore.append_left {indicator : Char} {first gap rest : List Char}
    (layout : Layout indicator first) (stops : LayoutBefore indicator gap rest) :
    LayoutBefore indicator (first ++ gap) rest := by
  cases stops with
  | ended final => exact .ended (final.append_left layout)
  | solid more notBlank other => exact .solid (layout.append more) notBlank other

theorem LayoutBefore.final {indicator : Char} {gap rest : List Char}
    (stops : LayoutBefore indicator gap rest) : FinalLayout indicator gap := by
  cases stops with
  | ended final => exact final
  | solid layout _ _ => exact .complete layout

theorem LayoutBefore.layout {indicator : Char} {gap rest : List Char}
    (stops : LayoutBefore indicator gap rest) (more : rest ≠ []) : Layout indicator gap := by
  cases stops with
  | ended final => exact absurd rfl more
  | solid layout _ _ => exact layout

/-- Other layout stops where the same comes after it. -/
theorem LayoutBefore.of_head_eq {indicator : Char} {gap space rest rest' : List Char}
    (stops : LayoutBefore indicator gap rest) (layout : Layout indicator space)
    (same : rest'.head? = rest.head?) : LayoutBefore indicator space rest' := by
  cases stops with
  | ended =>
      obtain rfl := List.head?_eq_none_iff.1 same
      exact .ended (.complete layout)
  | solid _ notBlank other =>
      obtain ⟨more, rfl⟩ := List.head?_eq_some_iff.1 same
      exact .solid layout notBlank other

theorem LayoutBefore.head_solid {indicator : Char} {gap rest : List Char}
    (stops : LayoutBefore indicator gap rest) : ∀ c ∈ rest.head?, isBlank c = false := by
  cases stops with
  | ended => nofun
  | solid _ notBlank _ => simpa using notBlank

theorem Layout.head {indicator c : Char} {rest : List Char}
    (layout : Layout indicator (c :: rest)) : isBlank c = true ∨ c = indicator := by
  cases layout with
  | blank blank _ => exact .inl blank
  | comment _ _ _ => exact .inr rfl

theorem FinalLayout.head {indicator c : Char} {rest : List Char}
    (final : FinalLayout indicator (c :: rest)) : isBlank c = true ∨ c = indicator := by
  generalize same : c :: rest = text at final
  cases final with
  | complete layout => exact (same ▸ layout).head
  | @cutOff gap body layout _ =>
      cases gap with
      | nil => exact .inr (List.cons.inj same).1
      | cons d gap =>
          obtain ⟨rfl, -⟩ := List.cons.inj same
          exact layout.head

/-! ## Layout, one character at a time -/

theorem layout_cons_iff {indicator c : Char} (other : c ≠ indicator) {rest : List Char} :
    Layout indicator (c :: rest) ↔ isBlank c = true ∧ Layout indicator rest := by
  constructor
  · intro layout
    cases layout with
    | blank blank more => exact ⟨blank, more⟩
    | comment => exact absurd rfl other
  · rintro ⟨blank, more⟩
    exact .blank blank more

/-- Inside a comment every character is skipped, and the end of a line ends the comment. -/
theorem layout_comment_iff {indicator : Char} (solid : isBlank indicator = false) {c : Char}
    {rest : List Char} :
    Layout indicator (indicator :: c :: rest) ↔
      if endsLine c = true then Layout indicator rest
      else Layout indicator (indicator :: rest) := by
  constructor
  · intro layout
    generalize same : indicator :: c :: rest = text at layout
    cases layout with
    | nil => cases same
    | blank blank =>
        obtain ⟨rfl, -⟩ := List.cons.inj same
        rw [solid] at blank
        cases blank
    | @comment body d more inside ends layout =>
        cases body with
        | nil =>
            obtain ⟨rfl, rfl⟩ := List.cons.inj (List.cons.inj same).2
            rwa [if_pos ends]
        | cons b body =>
            obtain ⟨rfl, rfl⟩ := List.cons.inj (List.cons.inj same).2
            obtain ⟨goesOn, others⟩ := List.forall_mem_cons.1 inside
            rw [if_neg (by simp [goesOn])]
            exact .comment others ends layout
  · split
    · rename_i ends
      exact fun more => Layout.comment (nofun : ∀ d ∈ [], endsLine d = false) ends more
    · rename_i goesOn
      intro layout
      generalize same : indicator :: rest = text at layout
      cases layout with
      | nil => cases same
      | blank blank =>
          obtain ⟨rfl, -⟩ := List.cons.inj same
          rw [solid] at blank
          cases blank
      | comment inside ends layout =>
          obtain rfl := (List.cons.inj same).2
          exact .comment (List.forall_mem_cons.2 ⟨by simpa using goesOn, inside⟩) ends layout

/-! ## The count, one piece of layout at a time -/

theorem blankLength_cons {c : Char} (blank : isBlank c = true) (rest : List Char) :
    blankLength (c :: rest) = blankLength rest + 1 := by
  simp [blankLength, blank]

theorem blankLength_stop {c : Char} (solid : isBlank c = false) (rest : List Char) :
    blankLength (c :: rest) = 0 := by
  simp [blankLength, solid]

theorem commentLength_append {body : List Char} (inside : ∀ d ∈ body, endsLine d = false) {c : Char}
    (ends : endsLine c = true) (rest : List Char) :
    commentLength (body ++ c :: rest) = body.length + lineEndLength (c :: rest) := by
  have taken : (body ++ c :: rest).takeWhile (fun c => !endsLine c) = body := by
    rw [List.takeWhile_append_of_pos (by simpa using inside),
      List.takeWhile_cons_of_neg (by simp [ends]), List.append_nil]
  simp only [commentLength, taken, List.drop_left]

theorem commentLength_cutOff {body : List Char} (inside : ∀ d ∈ body, endsLine d = false) :
    commentLength body = body.length := by
  have taken : body.takeWhile (fun c => !endsLine c) = body := by
    have whole : (body ++ []).takeWhile (fun c => !endsLine c) =
        body ++ [].takeWhile fun c => !endsLine c :=
      List.takeWhile_append_of_pos (by simpa using inside)
    simpa using whole
  simp only [commentLength, taken, List.drop_length, lineEndLength, Nat.add_zero]

@[simp] theorem layoutLength_nil (indicator : Char) : layoutLength indicator [] = 0 :=
  layoutRounds_nil indicator []

theorem layoutLength_blank (indicator : Char) {c : Char} (blank : isBlank c = true)
    (rest : List Char) :
    layoutLength indicator (c :: rest) = layoutLength indicator rest + 1 := by
  rw [layoutLength_eq indicator (c :: rest), layoutLength_eq indicator rest, blankLength_cons blank,
    List.drop_succ_cons]
  cases rest.drop (blankLength rest) with
  | nil => rfl
  | cons d more =>
      by_cases opens : d = indicator
      · simp only [if_pos opens]
        omega
      · simp only [if_neg opens]

theorem layoutLength_stop {indicator c : Char} (solid : isBlank c = false) (other : c ≠ indicator)
    (rest : List Char) : layoutLength indicator (c :: rest) = 0 := by
  rw [layoutLength_eq, blankLength_stop solid, List.drop_zero]
  exact if_neg other

theorem layoutLength_indicator {indicator : Char} (solid : isBlank indicator = false)
    (rest : List Char) :
    layoutLength indicator (indicator :: rest) =
      1 + (commentLength rest + layoutLength indicator (rest.drop (commentLength rest))) := by
  rw [layoutLength_eq, blankLength_stop solid, List.drop_zero]
  simp

/-- Only CR LF is two characters that end one line. -/
theorem lineEndLength_single {c : Char} (ends : endsLine c = true) {rest : List Char}
    (notPair : ¬ (c = '\r' ∧ rest.head? = some '\n')) : lineEndLength (c :: rest) = 1 := by
  unfold lineEndLength
  split
  · rename_i split
    obtain ⟨rfl, rfl⟩ := List.cons.inj split
    exact absurd ⟨rfl, rfl⟩ notPair
  · rename_i split
    obtain ⟨rfl, rfl⟩ := List.cons.inj split
    exact if_pos ends
  · rename_i split
    cases split

theorem lineEndLength_none {text : List Char} (inside : ∀ c ∈ text.head?, endsLine c = false) :
    lineEndLength text = 0 := by
  unfold lineEndLength
  split
  · exact absurd (inside '\r' rfl) (by decide)
  · rename_i c rest _
    exact if_neg (by simp [inside c rfl])
  · rfl

/-- The end of a line counts alike as the end of a comment and as blanks. -/
theorem layoutLength_lineEnd (indicator : Char) {c : Char} (ends : endsLine c = true)
    (rest : List Char) :
    lineEndLength (c :: rest) +
        layoutLength indicator ((c :: rest).drop (lineEndLength (c :: rest))) =
      layoutLength indicator rest + 1 := by
  by_cases pair : c = '\r' ∧ rest.head? = some '\n'
  · obtain ⟨rfl, feed⟩ := pair
    obtain ⟨more, rfl⟩ := List.head?_eq_some_iff.1 feed
    rw [layoutLength_blank indicator (by decide : isBlank '\n' = true) more]
    simp only [lineEndLength, List.drop_succ_cons, List.drop_zero]
    omega
  · rw [lineEndLength_single ends pair, List.drop_one, List.tail_cons, Nat.add_comm]

/-! ## The count over the language -/

section Language

variable {indicator : Char} (solid : isBlank indicator = false)

include solid

theorem layoutLength_comment {body : List Char} (inside : ∀ d ∈ body, endsLine d = false) {c : Char}
    (ends : endsLine c = true) (rest : List Char) :
    layoutLength indicator (indicator :: (body ++ c :: rest)) =
      body.length + 2 + layoutLength indicator rest := by
  have ending := layoutLength_lineEnd indicator ends rest
  rw [layoutLength_indicator solid, commentLength_append inside ends, ← List.drop_drop,
    List.drop_left]
  omega

theorem layoutLength_cutOff {body : List Char} (inside : ∀ d ∈ body, endsLine d = false) :
    layoutLength indicator (indicator :: body) = body.length + 1 := by
  rw [layoutLength_indicator solid, commentLength_cutOff inside, List.drop_length,
    layoutLength_nil]
  omega

theorem layoutLength_append {gap : List Char} (layout : Layout indicator gap) (rest : List Char) :
    layoutLength indicator (gap ++ rest) = gap.length + layoutLength indicator rest := by
  induction layout with
  | nil => simp
  | blank blank _ ih =>
      rw [List.cons_append, layoutLength_blank indicator blank, ih, List.length_cons]
      omega
  | comment inside ends _ ih =>
      rw [List.cons_append, List.append_assoc, List.cons_append,
        layoutLength_comment solid inside ends, ih, List.length_cons, List.length_append,
        List.length_cons]
      omega

theorem layoutLength_final {gap : List Char} (final : FinalLayout indicator gap) :
    layoutLength indicator gap = gap.length := by
  cases final with
  | complete layout =>
      have counted := layoutLength_append solid layout []
      rwa [List.append_nil, layoutLength_nil, Nat.add_zero] at counted
  | cutOff layout inside =>
      rw [layoutLength_append solid layout, layoutLength_cutOff solid inside, List.length_append,
        List.length_cons]

theorem layoutLength_layoutBefore {gap rest : List Char}
    (stops : LayoutBefore indicator gap rest) :
    layoutLength indicator (gap ++ rest) = gap.length := by
  cases stops with
  | ended final => rw [List.append_nil, layoutLength_final solid final]
  | solid layout notBlank other =>
      rw [layoutLength_append solid layout, layoutLength_stop notBlank other, Nat.add_zero]

theorem LayoutBefore.isLongestLayout {gap rest : List Char}
    (stops : LayoutBefore indicator gap rest) : IsLongestLayout indicator gap (gap ++ rest) := by
  have counted := layoutLength_layoutBefore solid stops
  refine ⟨⟨List.prefix_append gap rest, ?_⟩, ?_⟩
  · cases stops with
    | ended final => exact .inr ⟨(List.append_nil gap).symm, final⟩
    | solid layout _ _ => exact .inl layout
  · rintro other ⟨⟨more, split⟩, layout | ⟨whole, final⟩⟩
    · rw [← split, layoutLength_append solid layout] at counted
      omega
    · rw [← whole, layoutLength_final solid final] at counted
      omega

/-- A text has layout at its head in one way only, if something else comes next. -/
theorem LayoutBefore.unique {first second : List Char} {rest more : List Char}
    (one : LayoutBefore indicator first rest) (other : LayoutBefore indicator second more)
    (same : first ++ rest = second ++ more) : first = second ∧ rest = more := by
  apply List.append_inj same
  rw [← layoutLength_layoutBefore solid one, same, layoutLength_layoutBefore solid other]

end Language

/-- Every text is the rest of a line, and then the end of that line or of the text. -/
theorem exists_line (text : List Char) : ∃ body rest, text = body ++ rest ∧
    (∀ c ∈ body, endsLine c = false) ∧ ∀ c more, rest = c :: more → endsLine c = true := by
  induction text with
  | nil => exact ⟨[], [], rfl, by simp, by simp⟩
  | cons c text ih =>
      cases ends : endsLine c with
      | true =>
          refine ⟨[], c :: text, rfl, by simp, ?_⟩
          rintro d more ⟨⟩
          exact ends
      | false =>
          obtain ⟨body, rest, rfl, inside, ending⟩ := ih
          exact ⟨c :: body, rest, rfl, List.forall_mem_cons.2 ⟨ends, inside⟩, ending⟩

/-- Every text is some layout and then something that starts with none. -/
theorem exists_layoutBefore (indicator : Char) :
    ∀ text : List Char, ∃ gap rest, text = gap ++ rest ∧ LayoutBefore indicator gap rest
  | [] => ⟨[], [], rfl, .ended (.complete .nil)⟩
  | c :: text => by
      have prepend {first tail : List Char} (layout : Layout indicator first)
          (found : ∃ gap rest, tail = gap ++ rest ∧ LayoutBefore indicator gap rest) :
          ∃ gap rest, first ++ tail = gap ++ rest ∧ LayoutBefore indicator gap rest := by
        obtain ⟨gap, rest, rfl, stops⟩ := found
        exact ⟨first ++ gap, rest, (List.append_assoc ..).symm, stops.append_left layout⟩
      cases blank : isBlank c with
      | true => exact prepend (.blank blank .nil) (exists_layoutBefore indicator text)
      | false =>
          by_cases opens : c = indicator
          · subst opens
            obtain ⟨body, tail, rfl, inside, ending⟩ := exists_line text
            cases tail with
            | nil =>
                refine ⟨c :: (body ++ []), [], (List.append_nil _).symm, .ended ?_⟩
                rw [List.append_nil]
                exact .cutOff .nil inside
            | cons d rest =>
                have line := Layout.comment inside (ending d rest rfl) (Layout.nil : Layout c [])
                have found := prepend line (exists_layoutBefore c rest)
                rwa [List.cons_append, List.append_assoc] at found
          · exact ⟨[], c :: text, rfl, .solid .nil blank opens⟩
termination_by text => text.length

/-- The longest layout is what is counted, and so there is only one. -/
theorem IsLongestLayout.length_eq {indicator : Char} (solid : isBlank indicator = false)
    {gap text : List Char} (longest : IsLongestLayout indicator gap text) :
    gap.length = layoutLength indicator text := by
  obtain ⟨first, rest, rfl, stops⟩ := exists_layoutBefore indicator text
  have other := stops.isLongestLayout solid
  rw [layoutLength_layoutBefore solid stops]
  exact Nat.le_antisymm (other.2 gap longest.1) (longest.2 first other.1)

/-- Layout that ends with the source is layout if its last line gets an end. -/
theorem finalLayout_iff {indicator : Char} (solid : isBlank indicator = false) {gap : List Char} :
    FinalLayout indicator gap ↔ Layout indicator (gap ++ ['\n']) := by
  have feed : isBlank '\n' = true := by decide
  constructor
  · intro final
    cases final with
    | complete layout => exact layout.append (.blank feed .nil)
    | cutOff layout inside =>
        rw [List.append_assoc]
        exact layout.append (.comment inside (by decide) .nil)
  · intro layout
    obtain ⟨first, rest, rfl, stops⟩ := exists_layoutBefore indicator gap
    cases rest with
    | nil =>
        rw [List.append_nil]
        exact stops.final
    | cons c rest =>
        -- With an end to its last line all of the text is layout, so none of it can stop that.
        cases stops with
        | solid more notBlank other =>
            have ends : LayoutBefore indicator (first ++ c :: rest ++ ['\n']) [] :=
              .ended (.complete layout)
            have goesOn : LayoutBefore indicator first (c :: (rest ++ ['\n'])) :=
              .solid more notBlank other
            obtain ⟨-, none⟩ := ends.unique solid goesOn (by simp)
            cases none

end CobolSource
