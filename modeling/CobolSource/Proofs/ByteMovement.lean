/-
# Proofs.ByteMovement — the byte cursor never cuts unsoundly, and its loops end

Each movement of the byte cursor is known when the source is: `before` has been read, and `after`
comes next (`ByteCursor.past`). Then the movement gives a result, which is told in characters, and
what it cut on the way was sound. That is `Logged.Gives`, and there is one such lemma for each
movement. They are put together by `Gives.bind`.

A cursor that stands between two characters stands there still after any movement, so the induction
on what is ahead carries each loop through: the test passes over a character and the rest is
shorter, or the loop ends.
-/
import CobolSource.Proofs.ByteLexing
import CobolSource.Proofs.LexemeLanguage
import CobolSource.Proofs.Look

namespace CobolSource

set_option autoImplicit false

/-! ## What a log can be said to hold -/

namespace Logged

variable {source : String} {α β : Type}

/-- The computation ends with `value` and does not break off. On the way it logs `events`, and cuts
of `source` that are all sound. -/
def Gives (source : String) (logged : Logged α) (value : α) (events : List Event) : Prop :=
  ∀ log, ∃ cuts, (∀ cut ∈ cuts, cut.Sound source) ∧
    logged.run log = some (value, ⟨log.cuts ++ cuts, log.events ++ events⟩)

theorem gives_pure (value : α) : Gives source (pure value) value [] := by
  intro log
  refine ⟨[], nofun, ?_⟩
  rw [List.append_nil, List.append_nil]
  rfl

theorem Gives.append {first : Logged α} {next : α → Logged β} {a : α} {b : β}
    {earlier later : List Event} (one : first.Gives source a earlier)
    (other : (next a).Gives source b later) :
    (first >>= next).Gives source b (earlier ++ later) := by
  intro log
  obtain ⟨cuts, sound, ran⟩ := one log
  obtain ⟨more, soundToo, ranOn⟩ := other ⟨log.cuts ++ cuts, log.events ++ earlier⟩
  refine ⟨cuts ++ more, List.forall_mem_append.2 ⟨sound, soundToo⟩, ?_⟩
  rw [StateT.run_bind, ran, ← List.append_assoc, ← List.append_assoc]
  exact ranOn

/-- A first part that tells the observer nothing. -/
theorem Gives.bind {first : Logged α} {next : α → Logged β} {a : α} {b : β} {events : List Event}
    (one : first.Gives source a []) (other : (next a).Gives source b events) :
    (first >>= next).Gives source b events :=
  one.append other

/-- A second part that tells the observer nothing. -/
theorem Gives.bind_silent {first : Logged α} {next : α → Logged β} {a : α} {b : β}
    {events : List Event} (one : first.Gives source a events)
    (other : (next a).Gives source b []) : (first >>= next).Gives source b events := by
  have both := one.append other
  rwa [List.append_nil] at both

theorem gives_emit (event : Event) : (emit event).Gives source () [event] := by
  intro log
  refine ⟨[], nofun, ?_⟩
  rw [List.append_nil]
  rfl

/-- A cut that has an answer is sound. -/
theorem gives_cut {start stop : Nat} {part : List Char}
    (answer : textBetween? source start stop = some part) :
    (cut source start stop).Gives source part [] := by
  have sound : Cut.Sound source ⟨start, stop⟩ := by
    unfold textBetween? at answer
    split at answer
    · rename_i fits
      obtain ⟨ordered, startValid, stopValid⟩ := fits
      rw [String.Pos.Raw.isValid_eq_true_iff] at startValid stopValid
      exact ⟨ordered, stopValid.le_rawEndPos, startValid, stopValid⟩
    · cases answer
  intro log
  refine ⟨[⟨start, stop⟩], by simpa using sound, ?_⟩
  rw [List.append_nil, cut, answer]
  rfl

end Logged

/-! ## The cursor -/

namespace ByteCursor

open Logged

variable {source : String} {before after : List Char}

/-- The byte cursor that has read `before`. -/
def past (source : String) (before : List Char) : ByteCursor :=
  ⟨source, .afterText {} before⟩

@[simp] theorem offset_past (source : String) (before : List Char) :
    (past source before).place.offset = byteCount before :=
  offset_afterText_start before

theorem bytes_eq_past (split : source.toList = before ++ after) :
    (Cursor.between before after).bytes = past source before := by
  rw [Cursor.bytes_between, ← split, String.ofList_toList]
  rfl

theorem atEnd_past (split : source.toList = before ++ after) :
    (past source before).atEnd = after.isEmpty := by
  rw [← bytes_eq_past split, Cursor.atEnd_bytes]

theorem gives_rest (split : source.toList = before ++ after) :
    (past source before).rest.Gives source after [] := by
  apply gives_cut
  have cut := Cursor.rest?_bytes before after
  rwa [bytes_eq_past split] at cut

/-- A part of the source is what is cut out between where it starts and where it stops. -/
theorem gives_cut_part {far part : List Char} (split : source.toList = far ++ part ++ after) :
    (cut source (byteCount far) (byteCount (far ++ part))).Gives source part [] := by
  apply gives_cut
  have cut := textBetween?_append far part after
  rwa [← split, String.ofList_toList] at cut

theorem gives_cutFrom {far part : List Char} (split : source.toList = far ++ part ++ after) :
    ((past source (far ++ part)).cutFrom (byteCount far)).Gives source part [] := by
  rw [cutFrom, offset_past]
  exact gives_cut_part split

theorem gives_look (split : source.toList = before ++ after) :
    (past source before).look.Gives source after.head? [] := by
  have current := Cursor.current?_bytes before after
  rw [bytes_eq_past split, current?] at current
  have rest := Cursor.rest?_bytes before after
  rw [bytes_eq_past split] at rest
  rw [look]
  split
  · rename_i none
    rw [none] at current
    rw [← current]
    exact gives_pure _
  · rename_i byte found
    rw [found] at current
    dsimp only at current
    split
    · rename_i ascii
      rw [← current, if_pos ascii]
      exact gives_pure _
    · exact (gives_rest split).bind (gives_pure _)

theorem gives_lookPast (split : source.toList = before ++ after) (n : Nat) :
    ((past source before).lookPast n).Gives source after[n]? [] := by
  cases n with
  | zero =>
      rw [← List.head?_eq_getElem?]
      exact gives_look split
  | succ n => exact (gives_rest split).bind (gives_pure _)

theorem gives_step {c : Char} {rest : List Char} (split : source.toList = before ++ c :: rest) :
    (past source before).step.Gives source (some c, past source (before ++ [c])) [] := by
  have moved : past source (before ++ [c]) =
      { past source before with place := (past source before).place.after c } := by
    rw [past, past, Place.afterText_append]
    rfl
  rw [moved]
  exact (gives_look split).bind (gives_pure _)

theorem gives_stepOver {c : Char} {rest : List Char}
    (split : source.toList = before ++ c :: rest) :
    ((past source before).stepOver c).Gives source (true, past source (before ++ [c])) [] := by
  apply (gives_look split).bind
  rw [List.head?_cons, if_pos rfl]
  exact (gives_step split).bind (gives_pure _)

theorem gives_stepOver_other {c : Char} (split : source.toList = before ++ after)
    (other : after.head? ≠ some c) :
    ((past source before).stepOver c).Gives source (false, past source before) [] := by
  apply (gives_look split).bind
  rw [if_neg other]
  exact gives_pure _

theorem gives_stepWhile (split : source.toList = before ++ after) (test : Char → Bool) :
    ((past source before).stepWhile test).Gives source
      (past source (before ++ after.takeWhile test)) [] := by
  induction after generalizing before with
  | nil =>
      rw [stepWhile, List.takeWhile_nil, List.append_nil]
      exact (gives_look split).bind (gives_pure _)
  | cons c rest ih =>
      rw [stepWhile]
      apply (gives_look split).bind
      dsimp only [List.head?_cons]
      cases accepted : test c with
      | true =>
          rw [List.takeWhile_cons_of_pos accepted, List.append_cons]
          exact (gives_step split).bind (ih (split.trans (List.append_cons ..)))
      | false =>
          rw [List.takeWhile_cons_of_neg (by simp [accepted]), List.append_nil]
          exact gives_pure _

/-- Blanks are passed up to what is not one. -/
theorem gives_stepOverBlanks {gap rest : List Char}
    (split : source.toList = before ++ gap ++ rest) (blank : Blanks gap)
    (solid : ∀ c ∈ rest.head?, isBlank c = false) :
    ((past source before).stepWhile isBlank).Gives source (past source (before ++ gap)) [] := by
  have width : ((gap ++ rest).takeWhile isBlank).length = gap.length :=
    blankLength_blanks blank solid
  have toSolid := gives_stepWhile (split.trans (List.append_assoc ..)) isBlank
  rwa [← take_length_takeWhile, width, List.take_left] at toSolid

theorem gives_stepOverLineEnd (split : source.toList = before ++ after) :
    (past source before).stepOverLineEnd.Gives source
      (past source (before ++ after.take (lineEndLength after))) [] := by
  rw [stepOverLineEnd]
  by_cases carriage : after.head? = some '\r'
  · obtain ⟨rest, rfl⟩ := List.head?_eq_some_iff.1 carriage
    refine (gives_stepOver split).bind ?_
    replace split : source.toList = before ++ ['\r'] ++ rest := by simp [split]
    by_cases feed : rest.head? = some '\n'
    · obtain ⟨more, rfl⟩ := List.head?_eq_some_iff.1 feed
      have both : before ++ ('\r' :: '\n' :: more).take (lineEndLength ('\r' :: '\n' :: more)) =
          before ++ ['\r'] ++ ['\n'] := by simp [lineEndLength]
      rw [both]
      exact (gives_stepOver split).bind (gives_pure _)
    · rw [lineEndLength_single (by decide) fun pair => feed pair.2]
      exact (gives_stepOver_other split feed).bind (gives_pure _)
  · refine (gives_stepOver_other split carriage).bind ?_
    by_cases feed : after.head? = some '\n'
    · obtain ⟨rest, rfl⟩ := List.head?_eq_some_iff.1 feed
      rw [lineEndLength_single (by decide) fun pair => absurd pair.1 (by decide)]
      exact (gives_stepOver split).bind (gives_pure _)
    · have inside : ∀ c ∈ after.head?, endsLine c = false := by
        intro c first
        rw [← Bool.not_eq_true]
        intro ends
        rcases eq_of_endsLine ends with rfl | rfl
        · exact carriage first
        · exact feed first
      rw [lineEndLength_none inside, List.take_zero, List.append_nil]
      exact (gives_stepOver_other split feed).bind (gives_pure _)

/-- A comment is passed to the end of its line. -/
theorem gives_stepOverComment {c : Char} {rest : List Char}
    (split : source.toList = before ++ c :: rest) :
    (past source before).stepOverComment.Gives source
      (past source (before ++ c :: rest.take (commentLength rest))) [] := by
  have opened : source.toList = before ++ [c] ++ rest := by simp [split]
  obtain ⟨body, taken⟩ : ∃ body, rest.takeWhile (fun c => !endsLine c) = body := ⟨_, rfl⟩
  obtain ⟨lineEnd, rfl⟩ : body <+: rest := taken ▸ List.takeWhile_prefix _
  have ends : source.toList = before ++ [c] ++ body ++ lineEnd := by
    rw [opened, List.append_assoc (before ++ [c])]
  have whole : before ++ c :: (body ++ lineEnd).take (commentLength (body ++ lineEnd)) =
      before ++ [c] ++ body ++ lineEnd.take (lineEndLength lineEnd) := by
    simp [commentLength, taken, List.take_add]
  have toEnd := gives_stepWhile opened fun c => !endsLine c
  rw [taken] at toEnd
  rw [whole]
  exact (gives_step split).bind (toEnd.bind (gives_stepOverLineEnd ends))

/-- The induction is on how much is ahead: what follows a comment is shorter than what it is in. -/
theorem gives_stepOverLayout (indicator : Char) {before after : List Char}
    (split : source.toList = before ++ after) :
    ((past source before).stepOverLayout indicator).Gives source
      (past source (before ++ after.take (layoutLength indicator after))) [] := by
  obtain ⟨gap, taken⟩ : ∃ gap, after.takeWhile isBlank = gap := ⟨_, rfl⟩
  obtain ⟨solid, rfl⟩ : gap <+: after := taken ▸ List.takeWhile_prefix _
  have blank : blankLength (gap ++ solid) = gap.length := congrArg List.length taken
  have toSolid := gives_stepWhile split isBlank
  rw [taken] at toSolid
  have stands : source.toList = before ++ gap ++ solid := by rw [split, List.append_assoc]
  rw [stepOverLayout, layoutLength_eq, blank, List.drop_left]
  refine toSolid.bind ((gives_look stands).bind ?_)
  cases solid with
  | nil =>
      rw [List.append_nil, List.take_length]
      exact gives_pure _
  | cons c rest =>
      dsimp only [List.head?_cons]
      by_cases opens : c = indicator
      · rw [if_pos opens, if_pos opens]
        have later : source.toList = before ++ gap ++ c :: rest.take (commentLength rest) ++
            rest.drop (commentLength rest) := by
          rw [List.append_assoc (before ++ gap), List.cons_append, List.take_append_drop, stands]
        have shorter : (rest.drop (commentLength rest)).length < (gap ++ c :: rest).length := by
          rw [List.length_drop, List.length_append, List.length_cons]
          omega
        have goesOn := gives_stepOverLayout indicator later
        have whole : before ++ (gap ++ c :: rest).take (gap.length + (1 + (commentLength rest +
              layoutLength indicator (rest.drop (commentLength rest))))) =
            before ++ gap ++ c :: rest.take (commentLength rest) ++
              (rest.drop (commentLength rest)).take
                (layoutLength indicator (rest.drop (commentLength rest))) := by
          simp [Nat.add_comm 1, List.take_add]
        rw [whole]
        exact (gives_stepOverComment stands).bind goesOn
      · rw [if_neg opens, if_neg opens, List.take_left]
        exact gives_pure _
termination_by after.length

/-- An operator is passed as far as it is wide. -/
theorem gives_stepOverOperator {c : Char} {rest : List Char}
    (split : source.toList = before ++ c :: rest) :
    (past source before).stepOverOperator.Gives source
      (past source (before ++ (c :: rest).take (operatorWidth (c :: rest)))) [] := by
  have next : source.toList = before ++ [c] ++ rest := by simp [split]
  rw [stepOverOperator]
  refine (gives_step split).bind ?_
  dsimp only
  by_cases widens : c = '<' ∨ c = '>'
  · rw [if_pos (by simpa using widens)]
    by_cases equals : rest.head? = some '='
    · obtain ⟨more, rfl⟩ := List.head?_eq_some_iff.1 equals
      have both : before ++ (c :: '=' :: more).take 2 = before ++ [c] ++ ['='] := by simp
      rw [operatorWidth_pair ⟨widens, rfl⟩, both]
      exact (gives_stepOver next).bind (gives_pure _)
    · rw [operatorWidth_single fun both => equals both.2]
      exact (gives_stepOver_other next equals).bind (gives_pure _)
  · rw [if_neg (by simpa using widens), operatorWidth_single fun both => widens both.1]
    exact gives_pure _

theorem gives_atTerminator {c : Char} {rest : List Char}
    (split : source.toList = before ++ c :: rest) :
    ((past source before).atTerminator c).Gives source (startsWithTerminator (c :: rest)) [] := by
  rw [atTerminator]
  by_cases ends : c = period
  · have next : startsWithTerminator (c :: rest) = ((c :: rest)[1]?).all isBlank := by
      cases rest <;> simp [startsWithTerminator, ends]
    rw [if_pos ends, next]
    exact (gives_lookPast split 1).bind (gives_pure _)
  · have none : startsWithTerminator (c :: rest) = false := by
      cases rest <;> simp [startsWithTerminator, ends]
    rw [if_neg ends, none]
    exact gives_pure _

theorem gives_stepOverBody (split : source.toList = before ++ after) :
    ((past source before).stepOverBody (byteCount before)).Gives source
      (byteCount (before ++ after.take (bodyLength after)),
        past source (before ++ after.take (bodyLength after + 1))) [] := by
  induction after generalizing before with
  | nil =>
      rw [stepOverBody, List.take_nil, List.take_nil, List.append_nil]
      exact (gives_look split).bind (gives_pure _)
  | cons c rest ih =>
      have later : source.toList = before ++ [c] ++ rest := by simp [split]
      rw [stepOverBody]
      refine (gives_look split).bind ((gives_atTerminator split).bind ((gives_step split).bind ?_))
      dsimp only
      cases stops : startsWithTerminator (c :: rest) with
      | true =>
          rw [if_pos rfl, bodyLength, if_pos stops, List.take_zero, List.append_nil]
          exact gives_pure _
      | false =>
          have here : (past source (before ++ [c])).place.offset = byteCount (before ++ [c]) :=
            offset_afterText_start _
          have goesOn := ih later
          simp only [List.append_assoc, List.singleton_append] at goesOn
          rw [if_neg Bool.false_ne_true, bodyLength, if_neg (by simp [stops]), here]
          exact goesOn

/-- A phrase is passed with the blanks that trail it, which are still cut out with it, and with the
period that ends it. -/
theorem gives_stepOverBody_phraseBefore {phrase trail rest : List Char}
    (split : source.toList = before ++ (phrase ++ (trail ++ rest)))
    (next : PhraseBefore phrase trail rest) :
    ((past source before).stepOverBody (byteCount before)).Gives source
      (byteCount (before ++ (phrase ++ trail)),
        past source (before ++ phrase ++ trail ++ rest.take 1)) [] := by
  have stop : (phrase ++ (trail ++ rest)).take (bodyLength (phrase ++ (trail ++ rest))) =
      phrase ++ trail := by
    rw [next.bodyLength_phraseBefore, ← List.length_append, ← List.append_assoc, List.take_left]
  have passed : before ++ (phrase ++ (trail ++ rest)).take
      (bodyLength (phrase ++ (trail ++ rest)) + 1) = before ++ phrase ++ trail ++ rest.take 1 := by
    rw [next.bodyLength_phraseBefore, ← List.length_append, ← List.append_assoc phrase,
      List.take_length_add_append, ← List.append_assoc, ← List.append_assoc]
  have toStop := gives_stepOverBody split
  rwa [stop, passed] at toStop

end ByteCursor

end CobolSource
