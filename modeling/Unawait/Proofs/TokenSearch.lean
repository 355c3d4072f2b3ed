import Mathlib
import Unawait.Proofs.SortedEntries
import Unawait.Proofs.TokenLookup

/-!
# Searching tokens

Spans in any order are searched by halving, and what is found contains the offset. Among
spans in order the one that contains the offset is found, and nothing is found only if
there is none. A stream that is made of any spans has the first one given of each start,
in the order of the starts. In it the first token from an offset on comes after as many
tokens as start before the offset, and the scans for a label find the next and the last
token that has it.
-/

namespace Unawait.Tokens

/-! ### Locating -/

section Locating

variable {spans : Array Span} {offset index : Nat}

theorem locateIn_eq_some_iff (inOrder : Span.InOrder spans.toList) :
    locateIn spans offset = some index ↔
      ∃ span, spans[index]? = some span ∧ span.contains offset = true := by
  have run := halving_locateIn spans offset
  constructor
  · exact run.contains_of_eq
  · rintro ⟨span, found, contains⟩
    obtain ⟨inside, -⟩ := Array.getElem?_eq_some_iff.mp found
    exact run.eq_of_contains inOrder found contains (Nat.zero_le index) inside

theorem locateIn_eq_none_iff (inOrder : Span.InOrder spans.toList) :
    locateIn spans offset = none ↔ ∀ span ∈ spans.toList, span.contains offset = false := by
  rw [Option.eq_none_iff_forall_ne_some]
  simp only [ne_eq, locateIn_eq_some_iff inOrder, List.mem_iff_getElem?, Array.getElem?_toList]
  constructor
  · rintro absent span ⟨index, found⟩
    by_contra contains
    exact absent index ⟨span, found, by simpa using contains⟩
  · rintro absent index ⟨span, found, contains⟩
    exact Bool.false_ne_true ((absent span ⟨index, found⟩).symm.trans contains)

end Locating

/-! ### Streams of any spans -/

section Streams

variable (source : Text) (spans : List Span)

/-- Sorted by their starts, spans do not go back. -/
theorem sorted_by_start :
    (Sorting.sort (fun first second => decide (first.start ≤ second.start)) spans).Pairwise
      fun first second => first.start = second.start ∨ first.start < second.start := by
  have sorted := @Sorting.pairwise_sort _
    (fun first second : Span => decide (first.start ≤ second.start))
    (fun first second => by simpa using le_total first.start second.start)
    (fun first second third less more => by
      simp only [decide_eq_true_eq] at less more ⊢
      exact less.trans more) spans
  exact sorted.imp fun less => eq_or_lt_of_le (by simpa using less)

theorem increasing_ofSpans : (ofSpans source spans).Increasing :=
  Sorting.pairwise_firstOfEach (sorted_by_start spans)

/-- A stream has the first span given of each start. -/
theorem mem_ofSpans {span : Span} : span ∈ (ofSpans source spans).spans.toList ↔
    spans.find? (fun other => other.start == span.start) = some span := by
  rw [← Sorting.find_sort]
  exact Sorting.mem_firstOfEach (sorted_by_start spans)

end Streams

/-! ### Scanning for labels -/

/-- The tokens with a label that start at or after an offset. -/
def labelledFrom (tokens : Tokens) (offset : Nat) (label : Text) : Set Nat :=
  {index | ∃ span, tokens.get? index = some span ∧ offset ≤ span.start ∧
    tokens.source.slice span.start span.stop = label}

/-- The tokens with a label that start before an offset. -/
def labelledBefore (tokens : Tokens) (offset : Nat) (label : Text) : Set Nat :=
  {index | ∃ span, tokens.get? index = some span ∧ span.start < offset ∧
    tokens.source.slice span.start span.stop = label}

namespace Increasing

variable {tokens : Tokens} {offset index : Nat} {label : Text}

theorem firstFrom_eq_countP (increasing : tokens.Increasing) (offset : Nat) :
    tokens.firstFrom offset = tokens.spans.toList.countP (·.start < offset) := by
  obtain ⟨inside, split⟩ := increasing.firstFrom_spec offset
  refine (Search.countP_eq (by simpa [size] using inside) fun index bound => ?_).symm
  rw [split index tokens.spans.toList[index] (by rw [get_eq, List.getElem?_eq_getElem bound]),
    decide_eq_true_eq]

theorem mem_labelledFrom (increasing : tokens.Increasing) :
    index ∈ tokens.labelledFrom offset label ↔
      tokens.firstFrom offset ≤ index ∧ index < tokens.size ∧ tokens.is index label = true := by
  obtain ⟨-, split⟩ := increasing.firstFrom_spec offset
  constructor
  · rintro ⟨span, found, after, labelled⟩
    have here := split index span found
    exact ⟨by omega, lt_size found, (is_iff found).mpr labelled⟩
  · rintro ⟨above, inside, labelled⟩
    obtain ⟨span, found⟩ := exists_get inside
    have here := split index span found
    exact ⟨span, found, by omega, (is_iff found).mp labelled⟩

theorem mem_labelledBefore (increasing : tokens.Increasing) :
    index ∈ tokens.labelledBefore offset label ↔
      index < tokens.firstFrom offset ∧ tokens.is index label = true := by
  obtain ⟨bound, split⟩ := increasing.firstFrom_spec offset
  constructor
  · rintro ⟨span, found, before, labelled⟩
    exact ⟨(split index span found).mpr before, (is_iff found).mpr labelled⟩
  · rintro ⟨below, labelled⟩
    obtain ⟨span, found⟩ := exists_get (below.trans_le bound)
    exact ⟨span, found, (split index span found).mp below, (is_iff found).mp labelled⟩

/-- The scan forward finds the next token with a label. -/
theorem findForward_eq_some_iff (increasing : tokens.Increasing) :
    tokens.findForward offset label = some index ↔
      IsLeast (tokens.labelledFrom offset label) index := by
  rw [IsLeast, mem_lowerBounds]
  simp only [increasing.mem_labelledFrom]
  constructor
  · intro found
    obtain ⟨above, below, labelled, none⟩ := scanForward_spec found
    refine ⟨⟨above, by omega, labelled⟩, ?_⟩
    rintro other ⟨low, -, named⟩
    by_contra early
    exact Bool.false_ne_true ((none other low (not_le.mp early)).symm.trans named)
  · rintro ⟨⟨above, inside, labelled⟩, least⟩
    refine scanForward_eq labelled above (by omega) fun other low high => ?_
    by_contra named
    have := least other ⟨low, high.trans inside, by simpa using named⟩
    omega

/-- The scan backward finds the last token with a label. -/
theorem findBackward_eq_some_iff (increasing : tokens.Increasing) :
    tokens.findBackward offset label = some index ↔
      IsGreatest (tokens.labelledBefore offset label) index := by
  rw [IsGreatest, mem_upperBounds]
  simp only [increasing.mem_labelledBefore]
  constructor
  · intro found
    obtain ⟨below, labelled, none⟩ := scanBackward_spec found
    refine ⟨⟨below, labelled⟩, ?_⟩
    rintro other ⟨high, named⟩
    by_contra late
    exact Bool.false_ne_true ((none other (not_le.mp late) high).symm.trans named)
  · rintro ⟨⟨below, labelled⟩, greatest⟩
    refine scanBackward_eq labelled below fun other low high => ?_
    by_contra named
    have := greatest other ⟨high, by simpa using named⟩
    omega

theorem findForward_eq_none_iff (increasing : tokens.Increasing) :
    tokens.findForward offset label = none ↔ tokens.labelledFrom offset label = ∅ := by
  rw [Option.eq_none_iff_forall_ne_some]
  simp only [ne_eq, increasing.findForward_eq_some_iff]
  constructor
  · intro absent
    by_contra some
    have least := Nat.sInf_mem (Set.nonempty_iff_ne_empty.mpr some)
    exact absent _ ⟨least, fun other member => Nat.sInf_le member⟩
  · intro empty index least
    simpa [empty] using least.1

theorem findBackward_eq_none_iff (increasing : tokens.Increasing) :
    tokens.findBackward offset label = none ↔ tokens.labelledBefore offset label = ∅ := by
  rw [Option.eq_none_iff_forall_ne_some]
  simp only [ne_eq, increasing.findBackward_eq_some_iff]
  have bounded : BddAbove (tokens.labelledBefore offset label) :=
    ⟨tokens.firstFrom offset, fun index member => (increasing.mem_labelledBefore.mp member).1.le⟩
  constructor
  · intro absent
    by_contra some
    have greatest := Nat.sSup_mem (Set.nonempty_iff_ne_empty.mpr some) bounded
    exact absent _ ⟨greatest, fun other member => le_csSup bounded member⟩
  · intro empty index greatest
    simpa [empty] using greatest.1

end Increasing

/-! ### All lookups -/

/-- The lookups among tokens. Halving any spans comes to an end, reads only spans that are there,
and what it finds contains the offset; among spans in order it finds the one that contains the
offset, and nothing exactly if none does. A stream of any spans has, in the order of their starts,
the first span given of each start. The first token from an offset on is the number of tokens that
start before it, a scan forward finds the least of the tokens with a label that start at or after
the offset, a scan backward the greatest of those that start before it, and nothing is found
exactly if there is no such token. -/
theorem token_lookups_exact (source : Text) (spans : List Span) :
    (∀ offset, Halving spans.toArray offset 0 spans.length (locateIn spans.toArray offset) ∧
      (∀ index, locateIn spans.toArray offset = some index →
        ∃ span, spans[index]? = some span ∧ span.start ≤ offset ∧ offset < span.stop) ∧
      (Span.InOrder spans →
        (∀ index, locateIn spans.toArray offset = some index ↔
          ∃ span, spans[index]? = some span ∧ span.start ≤ offset ∧ offset < span.stop) ∧
        (locateIn spans.toArray offset = none ↔
          ∀ span ∈ spans, ¬ (span.start ≤ offset ∧ offset < span.stop)))) ∧
    let tokens := ofSpans source spans
    tokens.spans.toList.Pairwise (fun first second => first.start < second.start) ∧
    (∀ span, span ∈ tokens.spans.toList ↔
      spans.find? (fun other => other.start == span.start) = some span) ∧
    ∀ offset, tokens.firstFrom offset = tokens.spans.toList.countP (·.start < offset) ∧
      ∀ label,
        (∀ index, tokens.findForward offset label = some index ↔
          IsLeast (tokens.labelledFrom offset label) index) ∧
        (tokens.findForward offset label = none ↔ tokens.labelledFrom offset label = ∅) ∧
        (∀ index, tokens.findBackward offset label = some index ↔
          IsGreatest (tokens.labelledBefore offset label) index) ∧
        (tokens.findBackward offset label = none ↔ tokens.labelledBefore offset label = ∅) := by
  have contains_iff (span : Span) (offset : Nat) :
      span.contains offset = true ↔ span.start ≤ offset ∧ offset < span.stop := by
    simp [Span.contains]
  have increasing := increasing_ofSpans source spans
  refine ⟨fun offset => ⟨halving_locateIn spans.toArray offset, ?_, fun inOrder => ⟨?_, ?_⟩⟩,
    increasing, fun span => mem_ofSpans source spans, fun offset =>
      ⟨increasing.firstFrom_eq_countP offset, fun label =>
        ⟨fun index => increasing.findForward_eq_some_iff, increasing.findForward_eq_none_iff,
          fun index => increasing.findBackward_eq_some_iff, increasing.findBackward_eq_none_iff⟩⟩⟩
  · intro index found
    obtain ⟨span, here, contains⟩ := (halving_locateIn spans.toArray offset).contains_of_eq found
    exact ⟨span, by simpa using here, (contains_iff span offset).mp contains⟩
  · intro index
    rw [locateIn_eq_some_iff inOrder]
    simp only [contains_iff, List.getElem?_toArray]
  · rw [locateIn_eq_none_iff inOrder]
    simp only [← contains_iff, Bool.not_eq_true]

/-- Behind an empty token, which starts where the next one does, and in front of a gap. -/
theorem token_lookups_exact_empty :
    Span.InOrder [⟨0, 1⟩, ⟨2, 2⟩, ⟨2, 4⟩, ⟨6, 7⟩] ∧
      locateIn #[⟨0, 1⟩, ⟨2, 2⟩, ⟨2, 4⟩, ⟨6, 7⟩] 3 = some 2 ∧
      locateIn #[⟨0, 1⟩, ⟨2, 2⟩, ⟨2, 4⟩, ⟨6, 7⟩] 4 = none := by
  have inOrder : Span.InOrder [⟨0, 1⟩, ⟨2, 2⟩, ⟨2, 4⟩, ⟨6, 7⟩] :=
    ⟨by decide, by decide, by decide⟩
  obtain ⟨located, -⟩ := token_lookups_exact [] [⟨0, 1⟩, ⟨2, 2⟩, ⟨2, 4⟩, ⟨6, 7⟩]
  obtain ⟨-, -, inside⟩ := located 3
  obtain ⟨-, -, outside⟩ := located 4
  exact ⟨inOrder, ((inside inOrder).1 2).mpr ⟨⟨2, 4⟩, rfl, by decide⟩,
    (outside inOrder).2.mpr (by decide)⟩

end Unawait.Tokens
