import Mathlib
import Unawait.Proofs.Acceptance
import Unawait.Proofs.EditRendering

/-!
# What a history shows of a region

A region is a range of the source. Most calls have nothing to do with most regions,
and a call that is apart from a region leaves what the region shows as it is. So what
a region shows in the end can be computed from the few calls that touch it, in the
order in which they are made: a range that no call has touched is replaced, a text is
put at one of the two ends, a range in the middle is moved to another place in the
middle.

A region is settled when all moves that touch it stay strictly inside it. Then its
first and its last byte are where they were, and a text put there ends up at the end
of what the region shows.
-/

namespace Unawait.Edit

/-- A call that does not touch a region. -/
def Operation.Apart (low high : Nat) : Operation → Prop
  | overwrite start stop _ => stop ≤ low ∨ high ≤ start
  | remove start stop => stop ≤ low ∨ high ≤ start
  | insertBefore offset _ => offset ≤ low ∨ high < offset
  | insertAfter offset _ => offset < low ∨ high ≤ offset
  | moveRange start stop destination =>
    start < stop ∧ (stop ≤ low ∨ high ≤ start) ∧ (destination < low ∨ high ≤ destination)
  | append _ => True
  | mark _ => True

namespace Operation

variable {low high start stop : Nat} {operation : Operation}

theorem Within.apart (within : operation.Within low high) (separate : high ≤ start ∨ stop ≤ low) :
    operation.Apart start stop := by
  cases operation <;> simp only [Within, Apart] at * <;> omega

theorem Apart.mono (apart : operation.Apart low high) (first : low ≤ start)
    (last : stop ≤ high) : operation.Apart start stop := by
  cases operation <;> simp only [Apart] at * <;> omega

variable {index : Nat}

theorem Apart.after_eq (apart : operation.Apart low high) (first : low ≤ index)
    (last : index < high) : operation.after index = [] := by
  cases operation <;> simp only [Apart, after] at *
  rw [if_neg (by omega)]

theorem Apart.before_eq (apart : operation.Apart low high) (first : low ≤ index)
    (last : index < high) : operation.before (index + 1) = [] := by
  cases operation <;> simp only [Apart, before] at *
  rw [if_neg (by omega)]

theorem Apart.replacementAt_eq (apart : operation.Apart low high) (first : low ≤ index)
    (last : index < high) : History.replacementAt? [operation] index = none := by
  cases operation <;> simp [Apart, History.replacementAt?, replaced?, Span.contains] at *
  all_goals omega

end Operation

/-- A move that neither takes anything from a region nor goes there. -/
def Move.Apart (low high : Nat) (move : Move) : Prop :=
  (move.stop ≤ low ∨ high ≤ move.start) ∧ (move.destination < low ∨ high ≤ move.destination)

/-- A move from strictly inside a region to strictly inside it. -/
def Move.Inside (low high : Nat) (move : Move) : Prop :=
  low < move.start ∧ move.stop < high ∧ low < move.destination ∧ move.destination < high

namespace History

/-- What a history shows of a region. -/
def shown (source : Text) (history : History) (low high : Nat) : Bytes :=
  (List.range' low (high - low)).flatMap (history.place source)

variable {source : Text} {history : History} {low high : Nat} {operation : Operation}

/-- A call apart from a region leaves the cells of the region as they are. -/
theorem cell_of_apart (apart : operation.Apart low high) {index : Nat} (first : low ≤ index)
    (last : index < high) :
    cell source (history ++ [operation]) index = cell source history index := by
  simp [cell, body, apart.after_eq first last, apart.before_eq first last,
    apart.replacementAt_eq first last]

theorem shown_append {middle : Nat} (first : low ≤ middle) (last : middle ≤ high) :
    history.shown source low high =
      history.shown source low middle ++ history.shown source middle high := by
  rw [shown, shown, shown, ← List.flatMap_append, ← range_split first last]

theorem shown_congr {other : History}
    (same : ∀ index, low ≤ index → index < high →
      place source other index = place source history index) :
    other.shown source low high = history.shown source low high := by
  apply List.flatMap_congr
  intro index member
  obtain ⟨above, below⟩ := List.mem_range'_1.mp member
  exact same index above (by omega)

theorem cells_congr {other : History}
    (same : ∀ index, low ≤ index → index < high →
      cell source other index = cell source history index) :
    other.cells source low high = history.cells source low high := by
  apply List.flatMap_congr
  intro index member
  obtain ⟨above, below⟩ := List.mem_range'_1.mp member
  exact same index above (by omega)

/-- A move changes no cell. -/
theorem cells_move (start stop destination first last : Nat) :
    cells source (history ++ [.moveRange start stop destination]) first last =
      history.cells source first last :=
  cells_congr fun index _ _ => by
    simp [cell, body, Operation.after, Operation.before, replacementAt?, Operation.replaced?]

/-- What a move does to the places: the range is given at its destination, and no longer
where it was. -/
theorem place_move (start stop destination index : Nat) :
    place source (history ++ [.moveRange start stop destination]) index =
      history.arriving source index
        ++ (if destination = index then history.cells source start stop else [])
        ++ if start ≤ index ∧ index < stop ∨ history.isMoved index then []
          else history.cell source index := by
  have arriving : arriving source (history ++ [.moveRange start stop destination]) index =
      history.arriving source index
        ++ if destination = index then history.cells source start stop else [] := by
    simp only [History.arriving, cells_move, moves_append, moves_singleton, Operation.moved?,
      Option.toList, List.filter_append, List.flatMap_append, List.filter_singleton]
    congr 1
    by_cases there : destination = index
    · simp [there]
    · have other : (destination == index) = false := by simpa using there
      simp [there, other]
  have moved : isMoved (history ++ [.moveRange start stop destination]) index =
      (decide (start ≤ index ∧ index < stop) || history.isMoved index) := by
    simp [isMoved, Operation.moved?, Bool.or_comm]
  have cell : cell source (history ++ [.moveRange start stop destination]) index =
      history.cell source index := by
    simp [cell, body, Operation.after, Operation.before, replacementAt?, Operation.replaced?]
  rw [place, arriving, moved, cell]
  simp

/-- No call of a history touches a region. -/
def Untouched (history : History) (low high : Nat) : Prop :=
  ∀ operation ∈ history, operation.Apart low high

namespace Untouched

variable {index : Nat}

theorem textAfter_eq (untouched : history.Untouched low high) (above : low ≤ index)
    (below : index < high) : history.textAfter index = [] :=
  List.flatMap_eq_nil_iff.mpr fun operation member =>
    (untouched operation (List.mem_reverse.mp member)).after_eq above below

theorem textBefore_eq (untouched : history.Untouched low high) (above : low ≤ index)
    (below : index < high) : history.textBefore (index + 1) = [] :=
  List.flatMap_eq_nil_iff.mpr fun operation member =>
    (untouched operation member).before_eq above below

theorem replacementAt_eq (untouched : history.Untouched low high) (above : low ≤ index)
    (below : index < high) : history.replacementAt? index = none := by
  induction history with
  | nil => rfl
  | cons operation rest ih =>
    have here := (untouched operation (by simp)).replacementAt_eq above below
    have later := ih fun other member => untouched other (by simp [member])
    rw [← List.singleton_append, replacementAt_append, here, later]
    rfl

theorem moves_apart (untouched : history.Untouched low high) {move : Move}
    (made : move ∈ history.moves) : move.start < move.stop ∧ move.Apart low high := by
  obtain ⟨operation, member, moved⟩ := List.mem_filterMap.mp made
  have apart := untouched operation member
  cases operation with
  | moveRange start stop destination =>
    obtain rfl : (⟨start, stop, destination⟩ : Move) = move := by
      simpa [Operation.moved?] using moved
    exact apart
  | _ => simp [Operation.moved?] at moved

end Untouched

/-- A region that no move touches shows its cells. -/
theorem shown_eq_cells (still : ∀ move ∈ history.moves, move.start < move.stop ∧ move.Apart low high) :
    history.shown source low high = history.cells source low high := by
  apply List.flatMap_congr
  intro index member
  obtain ⟨above, below⟩ := List.mem_range'_1.mp member
  have alone : history.arriving source index = [] := arriving_eq_nil fun move made => by
    obtain ⟨-, -, gone⟩ := still move made
    omega
  have kept : history.isMoved index = false := isMoved_eq_false.mpr fun move made => by
    obtain ⟨-, taken, -⟩ := still move made
    omega
  simp [place, alone, kept]

end History

/-- A region is settled: it shows a text, and the moves that touch it stay inside. -/
structure Settled (source : Text) (history : History) (low high : Nat) (text : Bytes) : Prop where
  shown_eq : history.shown source low high = text
  moves : ∀ move ∈ history.moves,
    move.start < move.stop ∧ (move.Apart low high ∨ move.Inside low high)

namespace Settled

variable {source : Text} {history : History} {low middle high : Nat} {text first second : Bytes}

/-- Two settled regions side by side are one. -/
theorem append (before : Settled source history low middle first)
    (after : Settled source history middle high second) (ordered : low ≤ middle)
    (forward : middle ≤ high) : Settled source history low high (first ++ second) := by
  constructor
  · rw [History.shown_append ordered forward, before.shown_eq, after.shown_eq]
  · intro move made
    obtain ⟨nonempty, here⟩ := before.moves move made
    obtain ⟨-, there⟩ := after.moves move made
    simp only [Move.Apart, Move.Inside] at *
    omega

/-- What is moved to a byte of a settled region comes from the region. -/
theorem inside_of_destination (settled : Settled source history low high text) {move : Move}
    (made : move ∈ history.moves) (above : low ≤ move.destination)
    (below : move.destination < high) : move.Inside low high := by
  obtain ⟨-, apart | inside⟩ := settled.moves move made
  · simp only [Move.Apart] at apart
    omega
  · exact inside

/-- What arrives in a settled region stays the same when the cells strictly inside do. -/
theorem arriving_congr (settled : Settled source history low high text) {other : History}
    (cells : ∀ index, low < index → index < high - 1 →
      other.cell source index = history.cell source index)
    (moves : other.moves = history.moves) {index : Nat} (above : low ≤ index) (below : index < high) :
    other.arriving source index = history.arriving source index := by
  rw [History.arriving, History.arriving, moves]
  apply List.flatMap_congr
  intro move arrived
  obtain ⟨made, there⟩ := List.mem_filter.mp arrived
  obtain rfl : move.destination = index := by simpa using there
  have inside := settled.inside_of_destination made above below
  simp only [Move.Inside] at inside
  exact History.cells_congr fun index above below => cells index (by omega) (by omega)

/-- A region shows the same in two histories with the same cells there and the same moves. -/
theorem congr_cells (settled : Settled source history low high text) {other : History}
    (cells : ∀ index, low ≤ index → index < high →
      other.cell source index = history.cell source index)
    (moves : other.moves = history.moves) : Settled source other low high text := by
  refine ⟨?_, moves ▸ settled.moves⟩
  rw [← settled.shown_eq]
  apply History.shown_congr
  intro index above below
  have arriving := settled.arriving_congr
    (fun index above below => cells index (by omega) (by omega)) moves above below
  rw [History.place, History.place, arriving, cells index above below, History.isMoved,
    History.isMoved, moves]

/-- A call that moves nothing and is apart from a region leaves it settled. -/
theorem frame_of_unmoved (settled : Settled source history low high text) {operation : Operation}
    (apart : operation.Apart low high) (unmoved : operation.moved? = none) :
    Settled source (history ++ [operation]) low high text := by
  apply settled.congr_cells
  · intro index above below
    exact History.cell_of_apart apart above below
  · simp [unmoved]

/-- A move that is apart from a region leaves it settled. -/
theorem frame_of_move (settled : Settled source history low high text)
    {start stop destination : Nat}
    (apart : (Operation.moveRange start stop destination).Apart low high) :
    Settled source (history ++ [.moveRange start stop destination]) low high text := by
  obtain ⟨nonempty, taken, gone⟩ := apart
  constructor
  · rw [← settled.shown_eq]
    apply History.shown_congr
    intro index above below
    have elsewhere : destination ≠ index := by omega
    have kept : ¬ (start ≤ index ∧ index < stop) := by omega
    rw [History.place_move, if_neg elsewhere, History.place, List.append_nil]
    simp only [kept, false_or]
  · intro move made
    simp only [History.moves_append, History.moves_singleton, Operation.moved?, Option.toList,
      List.mem_append, List.mem_singleton] at made
    rcases made with earlier | rfl
    · exact settled.moves move earlier
    · exact ⟨nonempty, .inl ⟨taken, gone⟩⟩

/-- Calls that are apart from a region leave it settled. -/
theorem frame (settled : Settled source history low high text) {operations : List Operation}
    (apart : ∀ operation ∈ operations, operation.Apart low high) :
    Settled source (history ++ operations) low high text := by
  induction operations generalizing history with
  | nil => simpa using settled
  | cons operation rest ih =>
    have here := apart operation (by simp)
    have next : Settled source (history ++ [operation]) low high text := by
      cases operation with
      | moveRange start stop destination => exact settled.frame_of_move here
      | _ => exact settled.frame_of_unmoved here rfl
    have later := ih next fun other member => apart other (by simp [member])
    simpa using later

/-- Nothing was moved to the start of a settled region. -/
theorem arriving_low (settled : Settled source history low high text) (nonempty : low < high) :
    history.arriving source low = [] :=
  History.arriving_eq_nil fun move made there => by
    have inside := settled.inside_of_destination made there.ge (there ▸ nonempty)
    simp only [Move.Inside] at inside
    omega

/-- The first and the last byte of a settled region are where they were. -/
theorem isMoved_edge (settled : Settled source history low high text) (nonempty : low < high)
    {index : Nat} (edge : index = low ∨ index = high - 1) : history.isMoved index = false := by
  refine History.isMoved_eq_false.mpr fun move made => ?_
  obtain ⟨-, touched⟩ := settled.moves move made
  simp only [Move.Apart, Move.Inside] at touched
  omega

/-- A text put behind the last byte of a settled region ends what the region shows. -/
theorem insertBefore (settled : Settled source history low high text) (nonempty : low < high)
    (added : Text) :
    Settled source (history ++ [.insertBefore high added]) low high (text ++ added.encode) := by
  have moves : History.moves (history ++ [.insertBefore high added]) = history.moves := by
    simp [Operation.moved?]
  have cells (index : Nat) (below : index < high - 1) :
      History.cell source (history ++ [.insertBefore high added]) index =
        history.cell source index := by
    have apart : (Operation.insertBefore high added).Apart index (index + 1) := by
      simp only [Operation.Apart]
      omega
    exact History.cell_of_apart apart le_rfl (Nat.lt_succ_self index)
  have last : History.cell source (history ++ [.insertBefore high added]) (high - 1) =
      history.cell source (high - 1) ++ added.encode := by
    have here : high - 1 + 1 = high := by omega
    simp [History.cell, History.body, Operation.after, Operation.before, History.replacementAt?,
      Operation.replaced?, here]
  have same (index : Nat) : History.isMoved (history ++ [.insertBefore high added]) index =
      history.isMoved index := by
    rw [History.isMoved, History.isMoved, moves]
  refine ⟨?_, moves ▸ settled.moves⟩
  have arriving {index : Nat} (above : low ≤ index) (below : index < high) :=
    settled.arriving_congr (fun index _ => cells index) moves above below
  rw [← settled.shown_eq, History.shown_append (show low ≤ high - 1 by omega) (Nat.sub_le high 1),
    @History.shown_append source history low high (high - 1) (by omega) (Nat.sub_le high 1)]
  have earlier : History.shown source (history ++ [.insertBefore high added]) low (high - 1) =
      history.shown source low (high - 1) := by
    apply History.shown_congr
    intro index above below
    rw [History.place, History.place, arriving above (by omega), same, cells index below]
  have one : high - (high - 1) = 1 := by omega
  rw [earlier, List.append_assoc]
  simp [History.shown, one, History.place, arriving (show low ≤ high - 1 by omega)
    (show high - 1 < high by omega), same, settled.isMoved_edge nonempty (.inr rfl), last]

/-- A text put before the first byte of a settled region begins what the region shows. -/
theorem insertAfter (settled : Settled source history low high text) (nonempty : low < high)
    (added : Text) :
    Settled source (history ++ [.insertAfter low added]) low high (added.encode ++ text) := by
  have moves : History.moves (history ++ [.insertAfter low added]) = history.moves := by
    simp [Operation.moved?]
  have cells (index : Nat) (above : low < index) :
      History.cell source (history ++ [.insertAfter low added]) index =
        history.cell source index := by
    have apart : (Operation.insertAfter low added).Apart index (index + 1) := by
      simp only [Operation.Apart]
      omega
    exact History.cell_of_apart apart le_rfl (Nat.lt_succ_self index)
  have first : History.cell source (history ++ [.insertAfter low added]) low =
      added.encode ++ history.cell source low := by
    simp [History.cell, History.body, Operation.after, Operation.before, History.replacementAt?,
      Operation.replaced?]
  have same (index : Nat) : History.isMoved (history ++ [.insertAfter low added]) index =
      history.isMoved index := by
    rw [History.isMoved, History.isMoved, moves]
  refine ⟨?_, moves ▸ settled.moves⟩
  have arriving {index : Nat} (above : low ≤ index) (below : index < high) :=
    settled.arriving_congr (fun index above _ => cells index above) moves above below
  rw [← settled.shown_eq, History.shown_append (Nat.le_succ low) nonempty,
    @History.shown_append source history low high (low + 1) (Nat.le_succ low) nonempty]
  have later : History.shown source (history ++ [.insertAfter low added]) (low + 1) high =
      history.shown source (low + 1) high := by
    apply History.shown_congr
    intro index above below
    rw [History.place, History.place, arriving (by omega) below, same, cells index above]
  rw [later, ← List.append_assoc]
  simp [History.shown, History.place, arriving le_rfl nonempty, settled.arriving_low nonempty, same,
    settled.isMoved_edge nonempty (.inl rfl), first]

/-! ### Replacing and moving -/

/-- A byte that no call touches shows itself. -/
theorem of_untouched {index : Nat} (untouched : history.Untouched index (index + 1)) :
    Settled source history index (index + 1) source.encode[index]?.toList := by
  constructor
  · rw [History.shown_eq_cells fun move made => untouched.moves_apart made]
    simp [History.cells, History.cell, History.body, untouched.textAfter_eq, untouched.textBefore_eq,
      untouched.replacementAt_eq]
  · intro move made
    obtain ⟨nonempty, apart⟩ := untouched.moves_apart made
    exact ⟨nonempty, .inl apart⟩

/-- A region that no call touches and that is replaced as a whole shows its replacement. -/
theorem of_replaced (untouched : history.Untouched low high) (nonempty : low < high)
    {operation : Operation} {replacement : Text}
    (replaces : operation.replaced? = some (⟨low, high⟩, replacement)) :
    Settled source (history ++ [operation]) low high replacement.encode := by
  have unmoved : operation.moved? = none := by
    cases operation <;> simp [Operation.replaced?, Operation.moved?] at *
  have silent (offset : Nat) : operation.after offset = [] ∧ operation.before offset = [] := by
    cases operation <;> simp [Operation.replaced?, Operation.after, Operation.before] at *
  have moves : History.moves (history ++ [operation]) = history.moves := by simp [unmoved]
  have still : ∀ move ∈ History.moves (history ++ [operation]),
      move.start < move.stop ∧ move.Apart low high := by
    rw [moves]
    exact fun move made => untouched.moves_apart made
  have cell (index : Nat) (above : low ≤ index) (below : index < high) :
      History.cell source (history ++ [operation]) index =
        if index = low then replacement.encode else [] := by
    have contained : (⟨low, high⟩ : Span).contains index = true := by
      simp [Span.contains, above, below]
    have found : History.replacementAt? [operation] index = some (⟨low, high⟩, replacement) := by
      simp [History.replacementAt?, replaces, contained]
    simp [History.cell, History.body, silent, untouched.textAfter_eq above below,
      untouched.textBefore_eq above below, untouched.replacementAt_eq above below, found]
  constructor
  · rw [History.shown_eq_cells still, History.cells,
      show high - low = (high - low - 1) + 1 by omega, List.range'_succ, List.flatMap_cons,
      cell low le_rfl nonempty, if_pos rfl]
    have rest : (List.range' (low + 1) (high - low - 1)).flatMap
        (History.cell source (history ++ [operation])) = [] := by
      apply List.flatMap_eq_nil_iff.mpr
      intro index member
      obtain ⟨above, below⟩ := List.mem_range'_1.mp member
      rw [cell index (by omega) (by omega), if_neg (by omega)]
    rw [rest, List.append_nil]
  · intro move made
    obtain ⟨ordered, apart⟩ := still move made
    exact ⟨ordered, .inl apart⟩

/-- A range in the middle of a region that no earlier move touches is moved further back. -/
theorem move {start stop destination : Nat} {before taken passed after : Bytes}
    (first : Settled source history low start before)
    (second : Settled source history start stop taken)
    (third : Settled source history stop destination passed)
    (fourth : Settled source history destination high after)
    (still : ∀ move ∈ history.moves, move.Apart start stop) (inside : low < start)
    (nonempty : start < stop) (ordered : stop ≤ destination) (outside : destination < high) :
    Settled source (history ++ [.moveRange start stop destination]) low high
      (before ++ passed ++ taken ++ after) := by
  have whole := ((first.append second (by omega) (by omega)).append third (by omega)
    ordered).append fourth (by omega) (by omega)
  have kept : ∀ move ∈ history.moves, move.start < move.stop ∧ move.Apart start stop :=
    fun move made => ⟨(whole.moves move made).1, still move made⟩
  -- other places than the destination and those of the range are as before
  have elsewhere {first last : Nat} (above : ∀ index, first ≤ index → index < last →
      destination ≠ index ∧ ¬ (start ≤ index ∧ index < stop)) :
      History.shown source (history ++ [.moveRange start stop destination]) first last =
        history.shown source first last := by
    apply History.shown_congr
    intro index low high
    obtain ⟨other, apart⟩ := above index low high
    rw [History.place_move, if_neg other, History.place, List.append_nil]
    simp only [apart, false_or]
  -- nothing was moved into the range earlier, so nothing is given there any more
  have emptied : History.shown source (history ++ [.moveRange start stop destination]) start stop =
      [] := by
    apply List.flatMap_eq_nil_iff.mpr
    intro index member
    obtain ⟨above, below⟩ := List.mem_range'_1.mp member
    have alone : history.arriving source index = [] := History.arriving_eq_nil fun move made => by
      obtain ⟨-, gone⟩ := still move made
      omega
    rw [History.place_move, alone, if_neg (by omega), if_pos (.inl ⟨above, by omega⟩)]
    rfl
  -- the destination had only its own cell, and the range comes in front of it
  have arrived : History.shown source (history ++ [.moveRange start stop destination])
      destination high = taken ++ after := by
    have rest : History.shown source (history ++ [.moveRange start stop destination])
        (destination + 1) high = history.shown source (destination + 1) high :=
      elsewhere fun index above below => by omega
    rw [History.shown_append (Nat.le_succ destination) outside, rest, ← fourth.shown_eq,
      @History.shown_append source history destination high (destination + 1) (Nat.le_succ _) outside,
      ← List.append_assoc]
    congr 1
    have own : ¬ (start ≤ destination ∧ destination < stop ∨ history.isMoved destination) := by
      simp [fourth.isMoved_edge outside (.inl rfl)]
      omega
    have before : history.place source destination = history.cell source destination := by
      simp [History.place, fourth.arriving_low outside, fourth.isMoved_edge outside (.inl rfl)]
    have now : History.place source (history ++ [.moveRange start stop destination]) destination =
        history.cells source start stop ++ history.cell source destination := by
      rw [History.place_move, if_pos rfl, if_neg own, fourth.arriving_low outside, List.nil_append]
    rw [← second.shown_eq, History.shown_eq_cells kept]
    simp [History.shown, before, now]
  constructor
  · rw [History.shown_append (show low ≤ start by omega) (show start ≤ high by omega),
      History.shown_append nonempty.le (show stop ≤ high by omega),
      History.shown_append ordered outside.le, elsewhere (fun index above below => by omega),
      emptied, elsewhere (fun index above below => by omega), arrived, first.shown_eq,
      third.shown_eq]
    simp
  · intro move made
    simp only [History.moves_append, History.moves_singleton, Operation.moved?, Option.toList,
      List.mem_append, List.mem_singleton] at made
    rcases made with earlier | rfl
    · exact whole.moves move earlier
    · refine ⟨nonempty, .inr ?_⟩
      simp only [Move.Inside]
      omega

/-- Ranges may as well be replaced after calls that replace nothing. -/
theorem delay {replacing keeping rest : List Operation}
    (settled : Settled source (history ++ (replacing ++ (keeping ++ rest))) low high text)
    (replaces : ∀ operation ∈ replacing, operation.replaced?.isSome = true)
    (keeps : ∀ operation ∈ keeping, operation.replaced? = none) :
    Settled source (history ++ (keeping ++ (replacing ++ rest))) low high text := by
  have silent : ∀ operation ∈ replacing, operation.moved? = none ∧
      ∀ offset, operation.after offset = [] ∧ operation.before offset = [] := by
    intro operation member
    have found := replaces operation member
    cases operation <;> simp [Operation.replaced?, Operation.moved?, Operation.after,
      Operation.before] at *
  have moves : History.moves replacing = [] :=
    List.filterMap_eq_nil_iff.mpr fun operation member => (silent operation member).1
  have after (offset : Nat) : History.textAfter replacing offset = [] :=
    List.flatMap_eq_nil_iff.mpr fun operation member =>
      ((silent operation (List.mem_reverse.mp member)).2 offset).1
  have before (offset : Nat) : History.textBefore replacing offset = [] :=
    List.flatMap_eq_nil_iff.mpr fun operation member => ((silent operation member).2 offset).2
  -- texts and moves of the two lists do not mix, and only one of them replaces
  have none (index : Nat) : History.replacementAt? keeping index = none := by
    rw [History.replacementAt?, History.replacements, List.filterMap_eq_nil_iff.mpr keeps]
    rfl
  apply settled.congr_cells
  · intro index _ _
    simp only [History.cell, History.body, History.textAfter_append, History.textBefore_append,
      History.replacementAt_append, after, before, none, Option.none_or, List.append_nil,
      List.nil_append]
  · simp only [History.moves_append, moves, List.nil_append]

end Settled

/-! ### Ranges that may be empty -/

/-- A range shows a text; an empty one shows nothing, whatever is moved across it. -/
def Shows (source : Text) (history : History) (low high : Nat) (text : Bytes) : Prop :=
  low ≤ high ∧ (low < high → Settled source history low high text) ∧ (low = high → text = [])

namespace Shows

variable {source : Text} {history : History} {low middle high : Nat} {text first second : Bytes}

theorem of_settled (settled : Settled source history low high text) (nonempty : low < high) :
    Shows source history low high text :=
  ⟨nonempty.le, fun _ => settled, by omega⟩

theorem append (before : Shows source history low middle first)
    (after : Shows source history middle high second) : Shows source history low high (first ++ second) := by
  obtain ⟨ordered, settled, none⟩ := before
  obtain ⟨forward, later, nothing⟩ := after
  refine ⟨by omega, fun nonempty => ?_, fun empty => ?_⟩
  · rcases Nat.lt_or_eq_of_le ordered with left | rfl
    · rcases Nat.lt_or_eq_of_le forward with right | rfl
      · exact (settled left).append (later right) ordered forward
      · simpa [nothing rfl] using settled left
    · simpa [none rfl] using later nonempty
  · simp [none (by omega), nothing (by omega)]

theorem frame (shows' : Shows source history low high text) {operations : List Operation}
    (apart : ∀ operation ∈ operations, operation.Apart low high) :
    Shows source (history ++ operations) low high text :=
  ⟨shows'.1, fun nonempty => (shows'.2.1 nonempty).frame apart, shows'.2.2⟩

theorem frame_append {earlier later : List Operation}
    (shows' : Shows source (history ++ earlier) low high text)
    (apart : ∀ operation ∈ later, operation.Apart low high) :
    Shows source (history ++ (earlier ++ later)) low high text := by
  rw [← List.append_assoc]
  exact shows'.frame apart

theorem insertBefore (shows' : Shows source history low high text) (nonempty : low < high)
    (added : Text) :
    Shows source (history ++ [.insertBefore high added]) low high (text ++ added.encode) :=
  of_settled ((shows'.2.1 nonempty).insertBefore nonempty added) nonempty

theorem insertAfter (shows' : Shows source history low high text) (nonempty : low < high)
    (added : Text) :
    Shows source (history ++ [.insertAfter low added]) low high (added.encode ++ text) :=
  of_settled ((shows'.2.1 nonempty).insertAfter nonempty added) nonempty

theorem of_replaced (untouched : history.Untouched low high) (nonempty : low < high)
    {operation : Operation} {replacement : Text}
    (replaces : operation.replaced? = some (⟨low, high⟩, replacement)) :
    Shows source (history ++ [operation]) low high replacement.encode :=
  of_settled (Settled.of_replaced untouched nonempty replaces) nonempty

end Shows

/-- What is shown of the whole source is the whole result if no call touches anything outside
it. -/
theorem rendering_of_shows {source : Text} {history : History} {text : Bytes}
    (whole : Shows source history 0 source.bytes text)
    (within : ∀ operation ∈ history, operation.Within 0 source.bytes) :
    history.rendering source = text := by
  have before : history.textBefore 0 = [] := by
    apply List.flatMap_eq_nil_iff.mpr
    intro operation member
    have here := within operation member
    cases operation <;> simp only [Operation.Within, Operation.before] at *
    rw [if_neg (by omega)]
  have after : history.textAfter source.bytes = [] := by
    apply List.flatMap_eq_nil_iff.mpr
    intro operation member
    have here := within operation (List.mem_reverse.mp member)
    cases operation <;> simp only [Operation.Within, Operation.after] at *
    rw [if_neg (by omega)]
  have appended : history.appended = [] := by
    apply List.flatMap_eq_nil_iff.mpr
    intro operation member
    have here := within operation member
    cases operation <;> simp only [Operation.Within, Operation.appended] at *
  have arriving : history.arriving source source.bytes = [] := by
    refine History.arriving_eq_nil fun move made => ?_
    obtain ⟨operation, member, moved⟩ := List.mem_filterMap.mp made
    have here := within operation member
    cases operation <;> simp only [Operation.Within, Operation.moved?, reduceCtorEq,
      Option.some.injEq] at *
    subst moved
    exact here.2.2.2.2.ne
  have shown : history.shown source 0 source.bytes = text := by
    rcases Nat.lt_or_eq_of_le whole.1 with nonempty | empty
    · exact (whole.2.1 nonempty).shown_eq
    · rw [whole.2.2 empty, ← empty]
      simp [History.shown]
  rw [History.shown, Nat.sub_zero, ← List.range_eq_range'] at shown
  simp [History.rendering, before, after, appended, arriving, shown]

end Unawait.Edit
