import Mathlib
import Unawait.Token.Stream

/-!
# Looking up tokens

A stream is in order when its tokens do not overlap and no two of them start at the
same offset. In such a stream an offset tells which token contains it, which token is
the first from it on, and which token with a label is the next or the last one seen
from it. The lookups, which halve windows and scan, give these tokens.
-/

namespace Unawait

namespace Search

/-- Halving finds where a predicate that holds up to some index begins to fail. -/
theorem narrow_spec {holds : Nat → Bool} {steps low high : Nat} (ordered : low ≤ high)
    (enough : high - low ≤ steps)
    (monotone : ∀ first second, first ≤ second → second < high → holds second → holds first) :
    low ≤ narrow holds steps low high ∧ narrow holds steps low high ≤ high ∧
      (∀ index, low ≤ index → index < narrow holds steps low high → holds index) ∧
      ∀ index, narrow holds steps low high ≤ index → index < high → holds index = false := by
  -- the predicate holds in front of the window and fails behind it, at every step
  induction steps generalizing low high with
  | zero =>
    obtain rfl : low = high := by omega
    simp only [narrow]
    exact ⟨le_rfl, le_rfl, fun index _ _ => by omega, fun index _ _ => by omega⟩
  | succ steps ih =>
    rw [narrow]
    split
    next window =>
      dsimp only
      split
      next held =>
        obtain ⟨above, below, before, after⟩ := @ih (low + (high - low) / 2 + 1) high (by omega)
          (by omega) monotone
        refine ⟨by omega, below, fun index first last => ?_, after⟩
        by_cases early : index ≤ low + (high - low) / 2
        · exact monotone index _ early (by omega) held
        · exact before index (by omega) last
      next failed =>
        obtain ⟨above, below, before, after⟩ := @ih low (low + (high - low) / 2) (by omega)
          (by omega) (fun first second order inside => monotone first second order (by omega))
        refine ⟨above, by omega, before, fun index first last => ?_⟩
        by_cases early : index < low + (high - low) / 2
        · exact after index first early
        · by_contra held
          exact failed (monotone _ index (by omega) last (by simpa using held))
    next window =>
      exact ⟨le_rfl, ordered, fun index _ _ => by omega, fun index _ _ => by omega⟩

/-- Where exactly the entries up to an index pass a test, that index is their number. -/
theorem countP_eq {α : Type} {entries : List α} {holds : α → Bool} {point : Nat}
    (inside : point ≤ entries.length)
    (split : ∀ index (bound : index < entries.length), holds entries[index] = true ↔ index < point) :
    entries.countP holds = point := by
  have taken : (entries.take point).countP holds = point := by
    rw [List.countP_eq_length.mpr, List.length_take, min_eq_left inside]
    intro entry member
    obtain ⟨index, bound, rfl⟩ := List.mem_take_iff_getElem.mp member
    exact (split index (by omega)).mpr (by omega)
  have dropped : (entries.drop point).countP holds = 0 := by
    rw [List.countP_eq_zero]
    intro entry member
    obtain ⟨index, bound, rfl⟩ := List.mem_drop_iff_getElem.mp member
    rw [split (point + index) (by omega)]
    omega
  rw [← List.take_append_drop point entries, List.countP_append, taken, dropped, add_zero]

end Search

/-! ### Halving -/

/-- Spans in the order of their starts, each of which ends where the next one starts or before. A
span may be empty. -/
structure Span.InOrder (spans : List Span) : Prop where
  forward : ∀ span ∈ spans, span.start ≤ span.stop
  sorted : spans.Pairwise fun first second => first.start ≤ second.start
  apart : spans.IsChain fun first second => first.stop ≤ second.start

/-- A span ends before all later ones. -/
theorem Span.InOrder.stop_le_start {spans : List Span} (inOrder : InOrder spans) {index other : Nat}
    {span later : Span} (found : spans[index]? = some span) (foundLater : spans[other]? = some later)
    (less : index < other) : span.stop ≤ later.start := by
  obtain ⟨inside, rfl⟩ := List.getElem?_eq_some_iff.mp found
  obtain ⟨insideLater, rfl⟩ := List.getElem?_eq_some_iff.mp foundLater
  have next := List.isChain_iff_getElem.mp inOrder.apart index (by omega)
  rcases Nat.eq_or_lt_of_le (Nat.succ_le_of_lt less) with rfl | further
  · exact next
  · exact next.trans (List.pairwise_iff_getElem.mp inOrder.sorted _ _ (by omega) insideLater further)

namespace Tokens

/-- A run of the search by halving for an offset, from a window of indices to its result. The span
in the middle of a window is there whenever it is read. -/
inductive Halving (spans : Array Span) (offset : Nat) : Nat → Nat → Option Nat → Prop
  | missed {low high : Nat} (empty : high ≤ low) : Halving spans offset low high none
  | hit {low high : Nat} {span : Span} (window : low < high)
      (read : spans[low + (high - low) / 2]? = some span) (contains : span.contains offset = true) :
      Halving spans offset low high (some (low + (high - low) / 2))
  | later {low high : Nat} {span : Span} {result : Option Nat} (window : low < high)
      (read : spans[low + (high - low) / 2]? = some span) (misses : span.contains offset = false)
      (past : span.stop ≤ offset)
      (rest : Halving spans offset (low + (high - low) / 2 + 1) high result) :
      Halving spans offset low high result
  | earlier {low high : Nat} {span : Span} {result : Option Nat} (window : low < high)
      (read : spans[low + (high - low) / 2]? = some span) (misses : span.contains offset = false)
      (early : offset < span.stop) (rest : Halving spans offset low (low + (high - low) / 2) result) :
      Halving spans offset low high result

section Halving

variable {spans : Array Span} {offset low high : Nat}

/-- As many steps as the window is wide suffice for a run. -/
theorem halving_locateBetween {steps : Nat} (inside : high ≤ spans.size) (enough : high - low ≤ steps) :
    Halving spans offset low high (locateBetween spans offset steps low high) := by
  induction steps generalizing low high with
  | zero => exact .missed (by omega)
  | succ steps ih =>
    rw [locateBetween]
    split
    next window =>
      have read : spans[low + (high - low) / 2]? = some (spans.getD (low + (high - low) / 2) ⟨0, 0⟩) := by
        have bound : low + (high - low) / 2 < spans.size := by omega
        simp [bound]
      dsimp only
      split
      next contains => exact .hit window read contains
      next misses =>
        have misses := Bool.eq_false_of_not_eq_true misses
        split
        next past => exact .later window read misses past (ih inside (by omega))
        next early => exact .earlier window read misses (by omega) (ih (by omega) (by omega))
    next empty => exact .missed (by omega)

theorem halving_locateIn (spans : Array Span) (offset : Nat) :
    Halving spans offset 0 spans.size (locateIn spans offset) :=
  halving_locateBetween le_rfl (Nat.sub_le _ _)

/-- What a run finds contains the offset, whatever the spans are. -/
theorem Halving.contains_of_eq {result : Option Nat} {index : Nat}
    (run : Halving spans offset low high result) (found : result = some index) :
    ∃ span, spans[index]? = some span ∧ span.contains offset = true := by
  induction run with
  | missed _ => simp at found
  | hit _ read contains => exact ⟨_, Option.some.inj found ▸ read, contains⟩
  | later _ _ _ _ _ ih => exact ih found
  | earlier _ _ _ _ _ ih => exact ih found

/-- Among spans in order a run finds the span in its window that contains the offset. -/
theorem Halving.eq_of_contains {result : Option Nat} {index : Nat} {span : Span}
    (run : Halving spans offset low high result) (inOrder : Span.InOrder spans.toList)
    (found : spans[index]? = some span) (contains : span.contains offset = true)
    (above : low ≤ index) (below : index < high) : result = some index := by
  simp only [Span.contains, Bool.and_eq_true, decide_eq_true_eq] at contains
  have apart {first second : Nat} {early late : Span} (foundEarly : spans[first]? = some early)
      (foundLate : spans[second]? = some late) (less : first < second) : early.stop ≤ late.start :=
    inOrder.stop_le_start (by simpa using foundEarly) (by simpa using foundLate) less
  induction run with
  | missed empty => omega
  | @hit low high middle window read hit =>
    simp only [Span.contains, Bool.and_eq_true, decide_eq_true_eq] at hit
    rcases Nat.lt_trichotomy index (low + (high - low) / 2) with lower | same | higher
    · have := apart found read lower
      omega
    · rw [same]
    · have := apart read found higher
      omega
  | @later low high middle result window read misses past rest ih =>
    refine ih ?_ below
    by_contra lower
    -- the middle is neither the span nor behind it, since it would end behind the offset
    rcases Nat.eq_or_lt_of_le (Nat.le_of_lt_succ (not_le.mp lower)) with rfl | less
    · obtain rfl := Option.some.inj (found.symm.trans read)
      omega
    · have := apart found read less
      have := inOrder.forward middle (by simpa using Array.mem_of_getElem? read)
      omega
  | @earlier low high middle result window read misses early rest ih =>
    refine ih above ?_
    by_contra higher
    rcases Nat.eq_or_lt_of_le (not_lt.mp higher) with same | less
    · obtain rfl := Option.some.inj (found.symm.trans (same ▸ read))
      simp only [Span.contains, Bool.and_eq_false_iff, decide_eq_false_iff_not] at misses
      omega
    · have := apart read found less
      omega

end Halving

end Tokens

/-! ### Streams -/

namespace Tokens

/-- The tokens do not overlap, and their starts increase. -/
def Ordered (tokens : Tokens) : Prop :=
  (∀ span ∈ tokens.spans.toList, span.start ≤ span.stop) ∧
    tokens.spans.toList.Pairwise fun first second =>
      first.stop ≤ second.start ∧ first.start < second.start

instance (tokens : Tokens) : Decidable tokens.Ordered := inferInstanceAs (Decidable (_ ∧ _))

/-- A span is that of a token with a label. -/
def Has (tokens : Tokens) (span : Span) (label : Text) : Prop :=
  span ∈ tokens.spans.toList ∧ tokens.source.slice span.start span.stop = label

instance (tokens : Tokens) (span : Span) (label : Text) : Decidable (tokens.Has span label) :=
  inferInstanceAs (Decidable (_ ∧ _))

variable {tokens : Tokens} {index : Nat} {span : Span} {label : Text}

theorem get_eq (tokens : Tokens) (index : Nat) :
    tokens.get? index = tokens.spans.toList[index]? := by
  simp [get?]

theorem is_iff (found : tokens.get? index = some span) :
    tokens.is index label = true ↔ tokens.source.slice span.start span.stop = label := by
  simp [Tokens.is, Tokens.label, found]

theorem lt_size (found : tokens.get? index = some span) : index < tokens.size := by
  rw [get_eq] at found
  obtain ⟨inside, -⟩ := List.getElem?_eq_some_iff.mp found
  simpa [size] using inside

theorem exists_get (inside : index < tokens.size) : ∃ span, tokens.get? index = some span := by
  rw [size] at inside
  exact ⟨tokens.spans[index], by simp [get?, inside]⟩

/-- A token with a label has an index. -/
theorem Has.exists_index (has : tokens.Has span label) :
    ∃ index, tokens.get? index = some span ∧ tokens.is index label = true := by
  obtain ⟨member, labelled⟩ := has
  obtain ⟨index, found⟩ := List.mem_iff_getElem?.mp member
  rw [← get_eq] at found
  exact ⟨index, found, (is_iff found).mpr labelled⟩

theorem has_of_is (found : tokens.get? index = some span) (labelled : tokens.is index label = true) :
    tokens.Has span label :=
  ⟨List.mem_iff_getElem?.mpr ⟨index, (get_eq tokens index).symm.trans found⟩, (is_iff found).mp labelled⟩

/-! ### Streams whose starts increase -/

/-- The starts of the tokens increase. -/
def Increasing (tokens : Tokens) : Prop :=
  tokens.spans.toList.Pairwise fun first second => first.start < second.start

theorem Increasing.start_lt (increasing : tokens.Increasing) {other : Nat} {later : Span}
    (found : tokens.get? index = some span) (foundLater : tokens.get? other = some later)
    (less : index < other) : span.start < later.start := by
  rw [get_eq] at found foundLater
  obtain ⟨inside, rfl⟩ := List.getElem?_eq_some_iff.mp found
  obtain ⟨insideLater, rfl⟩ := List.getElem?_eq_some_iff.mp foundLater
  exact List.pairwise_iff_getElem.mp increasing index other inside insideLater less

/-- The first token from an offset on comes after exactly the tokens that start before it. -/
theorem Increasing.firstFrom_spec (increasing : tokens.Increasing) (offset : Nat) :
    tokens.firstFrom offset ≤ tokens.size ∧
      ∀ index span, tokens.get? index = some span →
        (index < tokens.firstFrom offset ↔ span.start < offset) := by
  have known {index : Nat} {span : Span} (found : tokens.get? index = some span) :
      tokens.spans.getD index ⟨0, 0⟩ = span := by
    rw [get?] at found
    simp [found]
  have monotone : ∀ first second, first ≤ second → second < tokens.size →
      decide ((tokens.spans.getD second ⟨0, 0⟩).start < offset) = true →
      decide ((tokens.spans.getD first ⟨0, 0⟩).start < offset) = true := by
    intro first second order inside held
    rcases Nat.eq_or_lt_of_le order with rfl | less
    · exact held
    · obtain ⟨firstSpan, foundFirst⟩ := exists_get (show first < tokens.size by omega)
      obtain ⟨secondSpan, foundSecond⟩ := exists_get inside
      have starts := increasing.start_lt foundFirst foundSecond less
      rw [known foundSecond, decide_eq_true_eq] at held
      rw [known foundFirst, decide_eq_true_eq]
      omega
  obtain ⟨-, below, before, after⟩ := Search.narrow_spec (Nat.zero_le tokens.size) le_rfl monotone
  refine ⟨below, fun index span found => ?_⟩
  constructor
  · intro less
    have held := before index (Nat.zero_le index) less
    rwa [known found, decide_eq_true_eq] at held
  · intro less
    by_contra high
    have failed := after index (not_lt.mp high) (lt_size found)
    rw [known found, decide_eq_false_iff_not] at failed
    exact failed less

/-! ### Streams in order -/

namespace Ordered

theorem increasing (ordered : tokens.Ordered) : tokens.Increasing :=
  ordered.2.imp fun apart => apart.2

/-- An earlier token ends before a later one starts. -/
theorem before (ordered : tokens.Ordered) {other : Nat} {later : Span}
    (found : tokens.get? index = some span) (foundLater : tokens.get? other = some later)
    (less : index < other) : span.stop ≤ later.start ∧ span.start < later.start := by
  rw [get_eq] at found foundLater
  obtain ⟨inside, rfl⟩ := List.getElem?_eq_some_iff.mp found
  obtain ⟨insideLater, rfl⟩ := List.getElem?_eq_some_iff.mp foundLater
  exact List.pairwise_iff_getElem.mp ordered.2 index other inside insideLater less

theorem index_lt (ordered : tokens.Ordered) {other : Nat} {later : Span}
    (found : tokens.get? index = some span) (foundLater : tokens.get? other = some later)
    (less : span.start < later.start) : index < other := by
  rcases Nat.lt_trichotomy index other with lower | rfl | higher
  · exact lower
  · obtain rfl : span = later := Option.some.inj (found.symm.trans foundLater)
    omega
  · have := (ordered.before foundLater found higher).2
    omega

/-- A token has one index. -/
theorem index_unique (ordered : tokens.Ordered) {other : Nat}
    (found : tokens.get? index = some span) (again : tokens.get? other = some span) :
    index = other := by
  rcases Nat.lt_trichotomy index other with lower | same | higher
  · have := (ordered.before found again lower).2
    omega
  · exact same
  · have := (ordered.before again found higher).2
    omega

/-- The first token from an offset on comes after exactly the tokens that start before it. -/
theorem firstFrom_spec (ordered : tokens.Ordered) (offset : Nat) :
    tokens.firstFrom offset ≤ tokens.size ∧
      ∀ index span, tokens.get? index = some span →
        (index < tokens.firstFrom offset ↔ span.start < offset) :=
  ordered.increasing.firstFrom_spec offset

theorem lt_firstFrom (ordered : tokens.Ordered) (offset : Nat)
    (found : tokens.get? index = some span) :
    index < tokens.firstFrom offset ↔ span.start < offset :=
  (ordered.firstFrom_spec offset).2 index span found

/-- A token is the first one from its own start on. -/
theorem firstFrom_eq (ordered : tokens.Ordered) (found : tokens.get? index = some span) :
    tokens.firstFrom span.start = index := by
  have here := ordered.lt_firstFrom span.start found
  by_contra other
  have less : tokens.firstFrom span.start < index := by omega
  obtain ⟨first, foundFirst⟩ := exists_get (less.trans (lt_size found))
  have starts := (ordered.before foundFirst found less).2
  have impossible := (ordered.lt_firstFrom span.start foundFirst).mpr starts
  omega

theorem inOrder (ordered : tokens.Ordered) : Span.InOrder tokens.spans.toList where
  forward := ordered.1
  sorted := ordered.2.imp fun apart => apart.2.le
  apart := (ordered.2.imp fun apart => apart.1).isChain

/-- A token that contains an offset is located by it. -/
theorem locate_eq (ordered : tokens.Ordered) (found : tokens.get? index = some span) {offset : Nat}
    (contains : span.contains offset = true) : tokens.locate offset = some index :=
  (halving_locateIn tokens.spans offset).eq_of_contains ordered.inOrder found contains
    (Nat.zero_le index) (lt_size found)

end Ordered

/-! ### Labels -/

theorem scanForward_eq {remaining first target : Nat} (labelled : tokens.is target label = true)
    (above : first ≤ target) (below : target < first + remaining)
    (none : ∀ index, first ≤ index → index < target → tokens.is index label = false) :
    tokens.scanForward label remaining first = some target := by
  induction remaining generalizing first with
  | zero => omega
  | succ remaining ih =>
    rw [scanForward]
    rcases Nat.eq_or_lt_of_le above with rfl | later
    · rw [if_pos labelled]
    · rw [if_neg (by simp [none first le_rfl later])]
      exact ih later (by omega) fun index low high => none index (by omega) high

theorem scanForward_spec {remaining first target : Nat}
    (found : tokens.scanForward label remaining first = some target) :
    first ≤ target ∧ target < first + remaining ∧ tokens.is target label = true ∧
      ∀ index, first ≤ index → index < target → tokens.is index label = false := by
  induction remaining generalizing first with
  | zero => simp [scanForward] at found
  | succ remaining ih =>
    rw [scanForward] at found
    split at found
    next labelled =>
      obtain rfl := Option.some.inj found
      exact ⟨le_rfl, by omega, labelled, by omega⟩
    next other =>
      obtain ⟨above, below, labelled, none⟩ := ih found
      refine ⟨by omega, by omega, labelled, fun index low high => ?_⟩
      rcases Nat.eq_or_lt_of_le low with rfl | later
      · simpa using other
      · exact none index later high

theorem scanBackward_eq {bound target : Nat} (labelled : tokens.is target label = true)
    (below : target < bound)
    (none : ∀ index, target < index → index < bound → tokens.is index label = false) :
    tokens.scanBackward label bound = some target := by
  induction bound with
  | zero => omega
  | succ bound ih =>
    rw [scanBackward]
    rcases Nat.eq_or_lt_of_le (Nat.le_of_lt_succ below) with rfl | later
    · rw [if_pos labelled]
    · rw [if_neg (by simp [none bound later (by omega)])]
      exact ih later fun index low high => none index low (by omega)

theorem scanBackward_spec {bound target : Nat}
    (found : tokens.scanBackward label bound = some target) :
    target < bound ∧ tokens.is target label = true ∧
      ∀ index, target < index → index < bound → tokens.is index label = false := by
  induction bound with
  | zero => simp [scanBackward] at found
  | succ bound ih =>
    rw [scanBackward] at found
    split at found
    next labelled =>
      obtain rfl := Option.some.inj found
      exact ⟨Nat.lt_succ_self _, labelled, by omega⟩
    next other =>
      obtain ⟨below, labelled, none⟩ := ih found
      refine ⟨by omega, labelled, fun index low high => ?_⟩
      rcases Nat.eq_or_lt_of_le (Nat.le_of_lt_succ high) with rfl | earlier
      · simpa using other
      · exact none index low earlier

/-- The first token with a label that starts at or after an offset. -/
def FirstFrom (tokens : Tokens) (offset : Nat) (label : Text) (span : Span) : Prop :=
  tokens.Has span label ∧ offset ≤ span.start ∧
    ∀ other ∈ tokens.spans.toList, offset ≤ other.start → other.start < span.start →
      ¬ tokens.Has other label

instance (tokens : Tokens) (offset : Nat) (label : Text) (span : Span) :
    Decidable (tokens.FirstFrom offset label span) := inferInstanceAs (Decidable (_ ∧ _ ∧ _))

/-- The last token with a label that starts before an offset. -/
def LastBefore (tokens : Tokens) (offset : Nat) (label : Text) (span : Span) : Prop :=
  tokens.Has span label ∧ span.start < offset ∧
    ∀ other ∈ tokens.spans.toList, other.start < offset → span.start < other.start →
      ¬ tokens.Has other label

instance (tokens : Tokens) (offset : Nat) (label : Text) (span : Span) :
    Decidable (tokens.LastBefore offset label span) := inferInstanceAs (Decidable (_ ∧ _ ∧ _))

/-- Two tokens stand side by side. -/
def Adjacent (tokens : Tokens) (first second : Span) : Prop :=
  [first, second] <:+: tokens.spans.toList

instance (tokens : Tokens) (first second : Span) : Decidable (tokens.Adjacent first second) :=
  inferInstanceAs (Decidable (_ <:+: _))

theorem FirstFrom.findForward_eq {offset : Nat} (first : tokens.FirstFrom offset label span)
    (ordered : tokens.Ordered) :
    ∃ index, tokens.findForward offset label = some index ∧ tokens.get? index = some span ∧
      tokens.is index label = true := by
  obtain ⟨has, after, none⟩ := first
  obtain ⟨index, found, labelled⟩ := has.exists_index
  have above : tokens.firstFrom offset ≤ index := by
    have := ordered.lt_firstFrom offset found
    omega
  have inside := lt_size found
  refine ⟨index, scanForward_eq labelled above (by omega) ?_, found, labelled⟩
  intro other low high
  obtain ⟨earlier, foundEarlier⟩ := exists_get (high.trans inside)
  have starts := (ordered.before foundEarlier found high).2
  have reached := ordered.lt_firstFrom offset foundEarlier
  by_contra named
  have has := has_of_is foundEarlier (by simpa using named)
  exact none earlier has.1 (by omega) starts has

/-- What is found from an offset on is a token with the label, and the first one if the tokens are
in order. -/
theorem has_of_findForward {offset : Nat} (found : tokens.findForward offset label = some index) :
    ∃ span, tokens.get? index = some span ∧ tokens.Has span label ∧
      (tokens.Ordered → tokens.FirstFrom offset label span) := by
  obtain ⟨above, below, labelled, none⟩ := scanForward_spec found
  obtain ⟨span, here⟩ := exists_get (show index < tokens.size by omega)
  have has := has_of_is here labelled
  refine ⟨span, here, has, fun ordered => ⟨has, ?_, ?_⟩⟩
  · have reached := ordered.lt_firstFrom offset here
    omega
  · rintro other - after before again
    obtain ⟨earlier, foundEarlier, named⟩ := again.exists_index
    have reached := ordered.lt_firstFrom offset foundEarlier
    rw [none earlier (by omega) (ordered.index_lt foundEarlier here before)] at named
    simp at named

theorem LastBefore.findBackward_eq {offset : Nat} (last : tokens.LastBefore offset label span)
    (ordered : tokens.Ordered) :
    ∃ index, tokens.findBackward offset label = some index ∧ tokens.get? index = some span ∧
      tokens.is index label = true := by
  obtain ⟨has, before, none⟩ := last
  obtain ⟨index, found, labelled⟩ := has.exists_index
  have below := (ordered.lt_firstFrom offset found).mpr before
  refine ⟨index, scanBackward_eq labelled below ?_, found, labelled⟩
  intro other low high
  obtain ⟨later, foundLater⟩ := exists_get (high.trans_le (ordered.firstFrom_spec offset).1)
  have starts := (ordered.before found foundLater low).2
  by_contra named
  have has := has_of_is foundLater (by simpa using named)
  exact none later has.1 ((ordered.lt_firstFrom offset foundLater).mp high) starts has

/-- The token after a token is at the next index. -/
theorem Adjacent.get_eq {second : Span} (adjacent : tokens.Adjacent span second)
    (ordered : tokens.Ordered) (found : tokens.get? index = some span) :
    tokens.get? (index + 1) = some second := by
  obtain ⟨before, after, whole⟩ := adjacent
  have here : tokens.get? before.length = some span := by
    rw [Tokens.get_eq, ← whole]
    simp
  have next : tokens.get? (before.length + 1) = some second := by
    rw [Tokens.get_eq, ← whole]
    simp
  rwa [ordered.index_unique found here]

/-- A token with a label that stands right after one with another label is the first with its
label from there on. -/
theorem Adjacent.firstFrom {second : Span} {other : Text} (adjacent : tokens.Adjacent span second)
    (ordered : tokens.Ordered) (has : tokens.Has span other) (next : tokens.Has second label)
    (differs : other ≠ label) : tokens.FirstFrom span.start label second := by
  obtain ⟨index, found, -⟩ := has.exists_index
  have after := adjacent.get_eq ordered found
  refine ⟨next, (ordered.before found after (Nat.lt_succ_self index)).2.le, ?_⟩
  intro between _ low high named
  obtain ⟨place, foundBetween, -⟩ := named.exists_index
  have below := ordered.index_lt foundBetween after high
  have above : index ≤ place := by
    by_contra less
    have := (ordered.before foundBetween found (not_le.mp less)).2
    omega
  obtain rfl : place = index := by omega
  obtain rfl : span = between := Option.some.inj (found.symm.trans foundBetween)
  exact differs (has.2.symm.trans named.2)

end Tokens

end Unawait
