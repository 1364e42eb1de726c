/-
# Proofs.Partition — a run of token scans loses nothing of its source

Scanning token after token, errors passed over, cuts the source into spans and the stretches between
them. `Partition` says what the cut must be like, in terms of the source alone: each span is a
stretch of it that is not empty and reads as the scan says (`Shown`), and what lies before, between
and after the spans is layout. `tokens_partition_source` says that the run makes such a cut, after
the mark that the first scan skips.

The step is `TokenScan.ended_or_shown`: a scan has met the end, or its span covers exactly what the
cursor passed after the layout. So each scan leaves the offset where the next stretch starts, and
`untilEnd_partition` is an induction over what is unread.
-/
import CobolSource.Proofs.TokenScan

namespace CobolSource

set_option autoImplicit false

/-! ## What a cut is like -/

/-- The source under a span is what the outcome says was there. -/
def Outcome.Shows (text : List Char) (span : Span) : Outcome → Prop
  | .token found => slice text span.start span.stop = found.written.toList
  | .error ⟨.unexpectedCharacter c, _⟩ => slice text span.start span.stop = [c]
  | .error ⟨.unclosedString, _⟩ =>
      (slice text span.start span.stop).head? = some quote ∧ span.stop = byteCount text
  | .phrase _ => False
  | .endOfInput => False

/-- A span that is a stretch of the source, and shows what was found there. -/
structure Shown (text : List Char) (outcome : Outcome) (span : Span) : Prop where
  nonempty : span.start < span.stop
  within : span.stop ≤ byteCount text
  start_boundary : IsBoundary text span.start
  stop_boundary : IsBoundary text span.stop
  shows : outcome.Shows text span

/-- The source from a byte on, cut by the spans of some scans: between them there is layout. -/
inductive Partition (indicator : Char) (text : List Char) : Nat → List Scan → Prop
  | last {offset : Nat} : FinalLayout indicator (slice text offset (byteCount text)) →
      Partition indicator text offset []
  | next {offset : Nat} {scan : Scan} {span : Span} {scans : List Scan} :
      offset ≤ span.start → Layout indicator (slice text offset span.start) →
      scan.span? = some span → Shown text scan.outcome span →
      Partition indicator text span.stop scans → Partition indicator text offset (scan :: scans)

namespace Partition

variable {indicator : Char} {text : List Char} {offset : Nat} {scans : List Scan}

/-- Every scan of a partition has a span, and none starts before the partition does. -/
theorem shown_of_mem (partition : Partition indicator text offset scans) {scan : Scan}
    (member : scan ∈ scans) :
    ∃ span, scan.span? = some span ∧ offset ≤ span.start ∧ Shown text scan.outcome span := by
  induction partition with
  | last => cases member
  | next starts _ handed shown _ ih =>
      rcases List.mem_cons.1 member with rfl | later
      · exact ⟨_, handed, starts, shown⟩
      · obtain ⟨span, has, after, shows⟩ := ih later
        have bound := shown.nonempty
        exact ⟨span, has, by omega, shows⟩

/-- Spans of a partition ascend, and no two of them overlap. -/
theorem spans_ascend (partition : Partition indicator text offset scans) :
    (scans.filterMap Scan.span?).Pairwise fun a b => a.start < b.start ∧ a.stop ≤ b.start := by
  induction partition with
  | last => exact .nil
  | next _ _ handed shown rest ih =>
      rw [List.filterMap_cons_some handed]
      refine .cons ?_ ih
      intro later member
      obtain ⟨scan, among, has⟩ := List.mem_filterMap.1 member
      obtain ⟨span, same, after, -⟩ := rest.shown_of_mem among
      cases has.symm.trans same
      exact ⟨Nat.lt_of_lt_of_le shown.nonempty after, after⟩

end Partition

/-! ## One scan -/

theorem shown_over (before : List Char) {part : List Char} (after : List Char)
    (nonempty : part ≠ []) {outcome : Outcome}
    (shows : outcome.Shows (before ++ part ++ after) (.over before part)) :
    Shown (before ++ part ++ after) outcome (.over before part) := by
  have stops : (Span.over before part).stop = byteCount (before ++ part) := by
    rw [Span.stop_over, byteCount_append]
  refine ⟨?_, ?_, ?_, ?_, shows⟩
  · rw [Span.start_over, Span.stop_over]
    exact Nat.lt_add_of_pos_right (byteCount_pos nonempty)
  · rw [stops, byteCount_append (before ++ part)]
    exact Nat.le_add_right _ _
  · rw [Span.start_over, List.append_assoc]
    exact isBoundary_append before _
  · rw [stops]
    exact isBoundary_append _ after

namespace Lexer

/-- A token scan has met the end, or its span covers what its cursor has passed. -/
theorem TokenScan.ended_or_shown {lexer : Lexer} {before rest : List Char} {scan : Scan}
    (scanned : TokenScan lexer before rest scan) :
    scan.outcome = .endOfInput ∧ rest = [] ∨
      ∃ part after, rest = part ++ after ∧ part ≠ [] ∧
        scan.span? = some (.over before part) ∧
        scan.lexer.cursor = .between (before ++ part) after ∧
        scan.outcome.Shows (before ++ part ++ after) (.over before part) := by
  cases scanned with
  | ended => exact .inl ⟨rfl, rfl⟩
  | token longest =>
      refine .inr ⟨_, _, rfl, longest.wellFormed.isLexeme.ne_nil, rfl, rfl, ?_⟩
      rw [produce, Outcome.Shows, Span.start_over, Span.stop_over, slice_append]
  | @unexpected c after _ _ =>
      refine .inr ⟨[c], after, rfl, List.cons_ne_nil _ _, rfl, rfl, ?_⟩
      rw [fail, Outcome.Shows, Span.start_over, Span.stop_over, slice_append]
  | @unclosed body _ =>
      refine .inr ⟨quote :: body, [], (List.append_nil _).symm, List.cons_ne_nil _ _, rfl, rfl,
        ?_, ?_⟩
      · rw [Span.start_over, Span.stop_over, slice_append]
        rfl
      · rw [List.append_nil, byteCount_append, Span.stop_over]

/-! ## The run -/

theorem untilEnd_partition {lexer : Lexer} {before unread : List Char}
    (stands : lexer.unmarked = .between before unread) :
    ∃ scans last, lexer.untilEnd .token = scans ++ [last] ∧ last.outcome = .endOfInput ∧
      Partition lexer.settings.commentIndicator (before ++ unread) (byteCount before) scans := by
  obtain ⟨gap, rest, split, layout, scanned⟩ := scanToken_spec stands
  rcases scanned.ended_or_shown with ⟨ended, rfl⟩ |
    ⟨part, after, cut, nonempty, handed, moved, shows⟩
  · refine ⟨[], lexer.scanToken, untilEnd_of_ended ended, ended, .last ?_⟩
    rw [split, List.append_nil, slice_append_end]
    exact layout.final
  · have shorter : after.length < unread.length := by
      have positive := List.length_pos_iff.2 nonempty
      rw [split, cut, List.length_append, List.length_append]
      omega
    obtain ⟨scans, last, run, ended, partition⟩ :=
      untilEnd_partition (unmarked_of_passed nonempty moved)
    have source : before ++ unread = before ++ gap ++ part ++ after := by
      rw [split, cut, ← List.append_assoc, ← List.append_assoc]
    have between : Layout lexer.settings.commentIndicator gap :=
      layout.layout (cut ▸ List.append_ne_nil_of_left_ne_nil nonempty after)
    refine ⟨lexer.scanToken :: scans, last, ?_, ended, ?_⟩
    · rw [List.cons_append, ← run]
      exact untilEnd_of_yields (Scan.yields_of_span? handed)
    · rw [source]
      refine .next ?_ ?_ handed (shown_over _ _ nonempty shows) ?_
      · rw [Span.start_over, byteCount_append]
        exact Nat.le_add_right _ _
      · rw [Span.start_over, byteCount_append, List.append_assoc (before ++ gap), slice_append]
        exact between
      · rw [Span.stop_over, ← byteCount_append]
        rwa [scanToken_settings] at partition
termination_by unread.length

/-- **A token run loses nothing.** From the start of a source, token scans made until one meets the
end, past any errors, partition what comes after the skipped mark: every other scan has a span, the
spans ascend without overlap, each is a non-empty stretch of the source between two boundaries that
shows what the scan yielded, and everything that lies in none of them is layout. -/
theorem tokens_partition_source {text : List Char} {settings : Settings} {start : Lexer}
    (made : withSettings text settings = .ok start) :
    ∃ scans last, start.untilEnd .token = scans ++ [last] ∧ last.outcome = .endOfInput ∧
      (∀ scan ∈ scans, ∃ span, scan.span? = some span ∧ Shown text scan.outcome span) ∧
      ((scans.filterMap Scan.span?).Pairwise fun a b => a.start < b.start ∧ a.stop ≤ b.start) ∧
      settings.skippedMark text <+: text ∧
      Partition settings.commentIndicator text (byteCount (settings.skippedMark text)) scans := by
  obtain ⟨unread, split, stands⟩ := unmarked_of_start (cursor_of_withSettings made)
  rw [settings_of_withSettings made] at split stands
  obtain ⟨scans, last, run, ended, partition⟩ := untilEnd_partition stands
  rw [← split, settings_of_withSettings made] at partition
  refine ⟨scans, last, run, ended, ?_, partition.spans_ascend, ⟨unread, split.symm⟩, partition⟩
  intro scan member
  obtain ⟨span, handed, -, shown⟩ := partition.shown_of_mem member
  exact ⟨span, handed, shown⟩

/-- A mark, a token, a comment, a character that starts nothing, and a string that stays open. -/
def faultyText : List Char :=
  "\uFEFFA-1*é\r\n§\"é".toList

theorem faultyText_partition :
    ((ofText faultyText).untilEnd .token).map (·.outcome) =
        [.token ⟨.name, "A-1"⟩, .error ⟨.unexpectedCharacter '§', ⟨11, 13, 2, 1⟩⟩,
          .error ⟨.unclosedString, ⟨13, 16, 2, 2⟩⟩, .endOfInput] ∧
      Partition '*' faultyText 3 ((ofText faultyText).untilEnd .token).dropLast := by
  obtain ⟨scans, last, run, -, -, -, -, partition⟩ :=
    tokens_partition_source (withSettings_of_valid faultyText Settings.valid_default)
  have yielded : ((ofText faultyText).untilEnd .token).dropLast = scans :=
    (congrArg List.dropLast run).trans List.dropLast_concat
  refine ⟨by decide, ?_⟩
  rw [yielded]
  exact partition

end Lexer

end CobolSource
