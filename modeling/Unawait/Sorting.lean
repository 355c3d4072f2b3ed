/-!
# Stable sorting by insertion

Entries that compare equal keep the order in which they were given. A list that
is already in order is sorted in a single pass, which is the usual case here.
-/

namespace Unawait.Sorting

universe u
variable {α : Type u}

/-- Put an entry before the first one that it may precede. -/
def insert (before : α → α → Bool) (entry : α) : List α → List α
  | [] => [entry]
  | head :: rest =>
    if before entry head then entry :: head :: rest else head :: insert before entry rest

/-- Sort by a relation that holds of equal entries both ways. -/
def sort (before : α → α → Bool) : List α → List α
  | [] => []
  | head :: rest => insert before head (sort before rest)

/-- Of neighbours with the same key only the first is kept. -/
def firstOfEach {κ : Type u} [BEq κ] (key : α → κ) : List α → List α
  | [] => []
  | head :: rest =>
    match firstOfEach key rest with
    | [] => [head]
    | next :: more => if key head == key next then head :: more else head :: next :: more

end Unawait.Sorting
