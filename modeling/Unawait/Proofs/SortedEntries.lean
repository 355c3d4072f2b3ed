import Mathlib
import Unawait.Sorting

/-!
# Sorted entries, one for each key

Sorting by insertion is the insertion sort of the library, so its result is a permutation
of what it was given and in order. Where the keys of a list do not decrease, entries with
the same key stand together; of each key the entry that was given first is kept, and the
keys that are left increase.
-/

namespace Unawait.Sorting

universe u
variable {α : Type u}

section Order

variable {before : α → α → Bool}

theorem insert_eq_orderedInsert (entry : α) (entries : List α) :
    insert before entry entries = entries.orderedInsert (before · · = true) entry := by
  induction entries with
  | nil => rfl
  | cons head rest ih => rw [insert, List.orderedInsert_cons, ih]

theorem sort_eq_insertionSort (entries : List α) :
    sort before entries = entries.insertionSort (before · · = true) := by
  induction entries with
  | nil => rfl
  | cons head rest ih => rw [sort, ih, insert_eq_orderedInsert, List.insertionSort_cons]

theorem mem_sort {entry : α} {entries : List α} : entry ∈ sort before entries ↔ entry ∈ entries := by
  rw [sort_eq_insertionSort]
  exact (List.perm_insertionSort _ entries).mem_iff

theorem pairwise_sort (total : ∀ first second, before first second ∨ before second first)
    (trans : ∀ first second third, before first second → before second third → before first third)
    (entries : List α) : (sort before entries).Pairwise (before · · = true) := by
  have : Std.Total (before · · = true) := ⟨total⟩
  have : IsTrans α (before · · = true) := ⟨trans⟩
  rw [sort_eq_insertionSort]
  exact List.pairwise_insertionSort _ entries

/-- What a search finds first in a sorted list is not behind anything else that passes. -/
theorem find_precedes {entries : List α} {relation : α → α → Prop} {test : α → Bool} {first other : α}
    (sorted : entries.Pairwise relation) (reflexive : ∀ entry, relation entry entry)
    (found : entries.find? test = some first) (member : other ∈ entries) (passes : test other) :
    relation first other := by
  obtain ⟨-, front, back, rfl, fails⟩ := List.find?_eq_some_iff_append.mp found
  rcases List.mem_append.mp member with earlier | member
  · simpa [passes] using fails other earlier
  · rcases List.mem_cons.mp member with rfl | later
    · exact reflexive other
    · exact (List.pairwise_cons.mp (List.pairwise_append.mp sorted).2.1).1 other later

end Order

section Stability

variable {κ : Type u} [LinearOrder κ] {key : α → κ}

/-- An entry is put in front of those with its key. -/
theorem find_insert (value : κ) (entry : α) (entries : List α) :
    (insert (fun first second => decide (key first ≤ key second)) entry entries).find?
      (fun other => key other == value) = (entry :: entries).find? fun other => key other == value := by
  induction entries with
  | nil => rfl
  | cons head rest ih =>
    rw [insert]
    split
    next => rfl
    next later =>
      have less : key head < key entry := by simpa using later
      rw [List.find?_cons, ih]
      -- what the entry passes has a smaller key, so that the two are not found for the same value
      by_cases same : key entry = value
      · have differs : (key head == value) = false := beq_false_of_ne (same ▸ less).ne
        simp [same, differs]
      · simp [List.find?_cons, same]

/-- Entries with the same key keep their order. -/
theorem find_sort (value : κ) (entries : List α) :
    (sort (fun first second => decide (key first ≤ key second)) entries).find?
      (fun other => key other == value) = entries.find? fun other => key other == value := by
  induction entries with
  | nil => rfl
  | cons head rest ih => rw [sort, find_insert, List.find?_cons, ih, List.find?_cons]

end Stability

section FirstOfEach

variable {κ : Type u} [BEq κ] {key : α → κ}

theorem firstOfEach_sublist (entries : List α) : (firstOfEach key entries).Sublist entries := by
  induction entries with
  | nil => exact .slnil
  | cons head rest ih =>
    rw [firstOfEach]
    cases kept : firstOfEach key rest with
    | nil => exact .cons_cons _ (List.nil_sublist rest)
    | cons next more =>
      rw [kept] at ih
      dsimp only
      split
      · exact .cons_cons _ ((List.sublist_cons_self next more).trans ih)
      · exact .cons_cons _ ih

variable [LawfulBEq κ] {less : κ → κ → Prop} [IsStrictOrder κ less]

/-- The keys of what is kept increase where those of all entries do not decrease. -/
theorem pairwise_firstOfEach {entries : List α}
    (sorted : entries.Pairwise fun first second =>
      key first = key second ∨ less (key first) (key second)) :
    (firstOfEach key entries).Pairwise fun first second => less (key first) (key second) := by
  induction entries with
  | nil => exact .nil
  | cons head rest ih =>
    obtain ⟨least, sorted⟩ := List.pairwise_cons.mp sorted
    have increasing := ih sorted
    rw [firstOfEach]
    cases kept : firstOfEach key rest with
    | nil => exact List.pairwise_singleton _ head
    | cons next more =>
      rw [kept] at increasing
      obtain ⟨above, others⟩ := List.pairwise_cons.mp increasing
      dsimp only
      split
      case isTrue same =>
        rw [beq_iff_eq] at same
        exact List.pairwise_cons.mpr ⟨fun entry member => same ▸ above entry member, others⟩
      case isFalse differs =>
        have present : next ∈ rest := (firstOfEach_sublist rest).subset (kept ▸ List.mem_cons_self)
        have below : less (key head) (key next) :=
          (least next present).resolve_left fun same => differs (beq_iff_eq.mpr same)
        refine List.pairwise_cons.mpr ⟨fun entry member => ?_, increasing⟩
        rcases List.mem_cons.mp member with rfl | member
        · exact below
        · exact trans_of less below (above entry member)

/-- The first entry stays, and of what is kept behind it those with its key go. -/
theorem firstOfEach_cons {head : α} {rest : List α}
    (sorted : (head :: rest).Pairwise fun first second =>
      key first = key second ∨ less (key first) (key second)) :
    firstOfEach key (head :: rest) =
      head :: (firstOfEach key rest).filter fun entry => key entry != key head := by
  obtain ⟨least, sorted⟩ := List.pairwise_cons.mp sorted
  have increasing := pairwise_firstOfEach sorted
  rw [firstOfEach]
  cases kept : firstOfEach key rest with
  | nil => rfl
  | cons next more =>
    rw [kept] at increasing
    obtain ⟨above, -⟩ := List.pairwise_cons.mp increasing
    have present : next ∈ rest := (firstOfEach_sublist rest).subset (kept ▸ List.mem_cons_self)
    have apart : more.filter (fun entry => key entry != key head) = more := by
      rw [List.filter_eq_self]
      intro entry member
      have later : less (key head) (key entry) := by
        rcases least next present with same | below
        · exact same ▸ above entry member
        · exact trans_of less below (above entry member)
      simpa using (ne_of_irrefl later).symm
    dsimp only
    by_cases same : key head = key next
    · rw [if_pos (beq_iff_eq.mpr same), List.filter_cons_of_neg (by simp [same]), apart]
    · rw [if_neg (by simpa using same), List.filter_cons_of_pos (by simpa using Ne.symm same), apart]

/-- What is kept is what was given first of its key. -/
theorem mem_firstOfEach {entries : List α} {entry : α}
    (sorted : entries.Pairwise fun first second =>
      key first = key second ∨ less (key first) (key second)) :
    entry ∈ firstOfEach key entries ↔
      entries.find? (fun other => key other == key entry) = some entry := by
  induction entries with
  | nil => simp [firstOfEach]
  | cons head rest ih =>
    rw [firstOfEach_cons sorted, List.mem_cons, List.mem_filter, ih sorted.of_cons,
      List.find?_cons]
    by_cases same : key head = key entry
    · simp [same, eq_comm]
    · have differs : (key head == key entry) = false := by simpa using same
      have other : entry ≠ head := fun equal => same (by rw [equal])
      simp [differs, other, Ne.symm same]

end FirstOfEach

end Unawait.Sorting
