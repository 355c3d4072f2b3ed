import Mathlib
import Unawait.Disk

/-!
# Writing several files

A write fails where a file stands in the way of a folder or a folder in the way of the file.
A file that was just written can be in the way of the next one, but only if one of the two
places is inside the other. So files whose places are apart from each other can be written
one after another if each of them can be written at all, in any order and with any texts.
Afterwards each place has its own text and no other place has changed.
-/

namespace Unawait.Files

/-! ### One file -/

/-- The place at which a path is written. -/
def place? (files : Files) (path : Text) : Option (List Text) :=
  (files.pieces? path).bind (target [])

section Replaced

variable {entries : List (List Text × Option Text)} {place other : List Text} {text : Text}

/-- The entries with another text at a place. -/
def replaced (entries : List (List Text × Option Text)) (place : List Text) (text : Text) :
    List (List Text × Option Text) :=
  entries.map fun entry => if entry.1 == place then (place, some text) else entry

theorem replaced_cons (entry : List Text × Option Text) :
    replaced (entry :: entries) place text =
      (if entry.1 == place then (place, some text) else entry) :: replaced entries place text :=
  rfl

theorem find_replaced_of_ne (differs : other ≠ place) :
    (replaced entries place text).find? (·.1 == other) = entries.find? (·.1 == other) := by
  induction entries with
  | nil => rfl
  | cons entry rest ih =>
    rw [replaced_cons, List.find?_cons, List.find?_cons, ih]
    by_cases here : entry.1 = place
    · have apart : (place == other) = false := beq_eq_false_iff_ne.mpr differs.symm
      simp [here, apart]
    · simp [here]

theorem find_replaced_self (found : (entries.find? (·.1 == place)).isSome = true) :
    (replaced entries place text).find? (·.1 == place) = some (place, some text) := by
  induction entries with
  | nil => simp at found
  | cons entry rest ih =>
    rw [replaced_cons, List.find?_cons]
    by_cases here : entry.1 = place
    · simp [here]
    · simp only [List.find?_cons, beq_eq_false_iff_ne.mpr here] at found
      simp only [beq_eq_false_iff_ne.mpr here, Bool.false_eq_true, if_false, ih found]

theorem places_replaced (entries : List (List Text × Option Text)) (place : List Text)
    (text : Text) : (replaced entries place text).map Prod.fst = entries.map Prod.fst := by
  rw [replaced, List.map_map]
  apply List.map_congr_left
  intro entry _
  by_cases here : entry.1 = place <;> simp [here]

end Replaced

section Put

variable {files : Files} {place other : List Text} {text : Text}

theorem root_put (files : Files) (place : List Text) (text : Text) :
    (files.put place text).root = files.root := by
  unfold put
  split <;> rfl

theorem place_put (path : Text) : (files.put place text).place? path = files.place? path := by
  simp only [place?, pieces?, root_put]

/-- A file that was put is found at its place, and all others as before. -/
theorem find_put (files : Files) (place other : List Text) (text : Text) :
    (files.put place text).find? other =
      if other = place then some (some text) else files.find? other := by
  unfold put
  split
  next found =>
    change ((replaced files.entries place text).find? (·.1 == other)).map Prod.snd = _
    by_cases same : other = place
    · subst same
      rw [find?, Option.isSome_map] at found
      rw [find_replaced_self found, if_pos rfl]
      rfl
    · rw [find_replaced_of_ne same, if_neg same]
      rfl
  next absent =>
    have missing : files.entries.find? (·.1 == place) = none := by
      rwa [find?, Option.isSome_map, Bool.not_eq_true, Option.isSome_eq_false_iff,
        Option.isNone_iff_eq_none] at absent
    by_cases same : other = place
    · subst same
      simp [find?, List.find?_append, missing]
    · have differs : place ≠ other := fun equal => same equal.symm
      simp [find?, List.find?_append, same, differs]

/-- A folder that is there after a file was put was there before or is around the file. -/
theorem hasFolder_put (folder : (files.put place text).hasFolder other = true) :
    files.hasFolder other = true ∨ other <+: place := by
  unfold put at folder
  split at folder
  next =>
    left
    have same (entries : List (List Text × Option Text)) : (entries.any fun entry =>
        other.isPrefixOf entry.1 && other.length < entry.1.length) =
        (entries.map Prod.fst).any fun found =>
          other.isPrefixOf found && other.length < found.length := by
      rw [List.any_map]
      rfl
    change (other.isEmpty || (replaced files.entries place text).any _) = true at folder
    rw [same, places_replaced, ← same] at folder
    exact folder
  next =>
    simp only [hasFolder, List.any_append, List.any_cons, List.any_nil, Bool.or_false,
      Bool.or_eq_true, Bool.and_eq_true] at folder ⊢
    rcases folder with empty | before | ⟨around, -⟩
    · exact .inl (.inl empty)
    · exact .inl (.inr before)
    · exact .inr (List.isPrefixOf_iff_prefix.mp around)

theorem obstacle_eq_none_iff : files.obstacle? place = none ↔
    files.find? place.dropLast = none ∧ (∀ n < place.length, files.find? (place.take n) = none) ∧
      files.hasFolder place = false := by
  unfold obstacle?
  split
  next blocked =>
    simp only [reduceCtorEq, false_iff, not_and]
    intro free
    simp [free] at blocked
  next free =>
    split
    next blocked =>
      simp only [reduceCtorEq, false_iff, not_and]
      intro _ clear
      obtain ⟨n, inside, there⟩ := List.any_eq_true.mp blocked
      simp [clear n (List.mem_range.mp inside)] at there
    next clear =>
      have nothing : ∀ n < place.length, files.find? (place.take n) = none := by
        intro n inside
        by_contra there
        exact clear (List.any_eq_true.mpr ⟨n, List.mem_range.mpr inside,
          Option.isSome_iff_ne_none.mpr there⟩)
      have gone : files.find? place.dropLast = none := by simpa using free
      cases files.hasFolder place with
      | false => simpa [gone] using nothing
      | true => simp

/-- A file that was put is in the way of no place apart from its own. -/
theorem obstacle_put (free : files.obstacle? other = none) (outside : ¬ place <+: other)
    (around : ¬ other <+: place) : (files.put place text).obstacle? other = none := by
  obtain ⟨parent, ancestors, folder⟩ := obstacle_eq_none_iff.mp free
  have elsewhere {found : List Text} (above : found <+: other) : found ≠ place := by
    rintro rfl
    exact outside above
  refine obstacle_eq_none_iff.mpr ⟨?_, fun n inside => ?_, ?_⟩
  · rw [find_put, if_neg (elsewhere (List.dropLast_prefix other)), parent]
  · rw [find_put, if_neg (elsewhere (List.take_prefix n other)), ancestors n inside]
  · by_contra there
    rcases hasFolder_put (by simpa using there) with before | inside
    · simp [folder] at before
    · exact around inside

theorem write_of_free {path : Text} (named : files.place? path = some place)
    (free : files.obstacle? place = none) : files.write path text = .ok (files.put place text) := by
  rw [place?] at named
  simp only [write, named, free]

end Put

/-! ### Several files -/

/-- Paths that can be written one after another: each names a place where nothing is in the way,
and no place is inside another or the same. -/
structure Writable (files : Files) (paths : List Text) : Prop where
  free : ∀ path ∈ paths, ∃ place, files.place? path = some place ∧ files.obstacle? place = none
  apart : paths.Pairwise fun first second => ∀ place other, files.place? first = some place →
    files.place? second = some other → ¬ place <+: other ∧ ¬ other <+: place

theorem writable_of_places {files : Files} {paths : List Text} {places : List (List Text)}
    (named : paths.map files.place? = places.map some)
    (free : ∀ place ∈ places, files.obstacle? place = none)
    (apart : places.Pairwise fun place other => ¬ place <+: other ∧ ¬ other <+: place) :
    files.Writable paths := by
  constructor
  · intro path member
    have found : files.place? path ∈ places.map some := by
      rw [← named]
      exact List.mem_map_of_mem member
    obtain ⟨place, inside, same⟩ := List.mem_map.mp found
    exact ⟨place, same.symm, free place inside⟩
  · have pairs : (paths.map files.place?).Pairwise fun first second => ∀ place other,
        first = some place → second = some other → ¬ place <+: other ∧ ¬ other <+: place := by
      rw [named, List.pairwise_map]
      simpa using apart
    exact List.pairwise_map.mp pairs

theorem Writable.tail {files : Files} {path : Text} {rest : List Text} {place : List Text}
    (writable : files.Writable (path :: rest)) (named : files.place? path = some place)
    (text : Text) : (files.put place text).Writable rest := by
  obtain ⟨first, later⟩ := List.pairwise_cons.mp writable.apart
  refine ⟨fun next member => ?_, ?_⟩
  · obtain ⟨other, there, free⟩ := writable.free next (by simp [member])
    obtain ⟨outside, around⟩ := first next member place other named there
    exact ⟨other, (place_put next).trans there, obstacle_put free outside around⟩
  · simpa only [place_put] using later

/-- The files after texts were written to paths. -/
structure Wrote (before after : Files) (outputs : List (Text × Text)) : Prop where
  /-- Each text is at the place that its path names. -/
  texts : ∀ output ∈ outputs, ∀ place, before.place? output.1 = some place →
    after.find? place = some (some output.2)
  /-- Nothing else has changed. -/
  others : ∀ place, (∀ output ∈ outputs, before.place? output.1 ≠ some place) →
    after.find? place = before.find? place

theorem Wrote.nil (files : Files) : files.Wrote files [] :=
  ⟨by simp, fun _ _ => rfl⟩

/-- One more file in front of others that are apart from it. -/
theorem Wrote.cons {files after : Files} {output : Text × Text} {rest : List (Text × Text)}
    {place : List Text} (writable : files.Writable ((output :: rest).map Prod.fst))
    (named : files.place? output.1 = some place)
    (wrote : (files.put place output.2).Wrote after rest) : files.Wrote after (output :: rest) := by
  obtain ⟨first, -⟩ := List.pairwise_cons.mp writable.apart
  refine ⟨fun written member there thereNamed => ?_, fun there outside => ?_⟩
  · rcases List.mem_cons.mp member with rfl | later
    · obtain rfl : place = there := Option.some.inj (named.symm.trans thereNamed)
      rw [wrote.others place, find_put, if_pos rfl]
      intro other inside
      rw [place_put]
      intro same
      have apart := first other.1 (List.mem_map_of_mem inside) place place named same
      exact apart.1 (List.prefix_refl place)
    · exact wrote.texts written later there ((place_put written.1).trans thereNamed)
  · simp only [List.mem_cons, forall_eq_or_imp] at outside
    rw [wrote.others there, find_put, if_neg]
    · rintro rfl
      exact outside.1 named
    · simpa only [place_put] using outside.2

end Unawait.Files
