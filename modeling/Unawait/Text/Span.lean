/-!
# Spans

Every node and every token covers a half-open range of byte offsets of the text
it was read from. A span says nothing about the text: damaged trees may hold
spans that end before they start or reach past the end of the text.
-/

namespace Unawait

/-- The offsets from `start` up to but not including `stop`. -/
structure Span where
  start : Nat
  stop : Nat
deriving DecidableEq, Inhabited

namespace Span

/-- Whether an offset is one of the span's. -/
def contains (span : Span) (offset : Nat) : Bool := span.start ≤ offset && offset < span.stop

end Span

end Unawait
