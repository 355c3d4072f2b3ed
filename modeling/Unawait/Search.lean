/-!
# Binary search

A predicate that holds up to some index and fails from there on is searched by
halving the window. The result is the first index of the window at which it
fails, or the end of the window.
-/

namespace Unawait.Search

/-- Halve the window between two indices as long as it is not empty. The first
argument bounds the number of steps; the width of the window always suffices. -/
def narrow (holds : Nat → Bool) : Nat → Nat → Nat → Nat
  | 0, low, _ => low
  | steps + 1, low, high =>
    if low < high then
      let middle := low + (high - low) / 2
      if holds middle then narrow holds steps (middle + 1) high
      else narrow holds steps low middle
    else low

/-- The first index below a bound at which the predicate fails, or the bound. -/
def partitionPoint (holds : Nat → Bool) (bound : Nat) : Nat := narrow holds bound 0 bound

end Unawait.Search
