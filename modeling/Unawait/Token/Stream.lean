import Unawait.Text.Basic
import Unawait.Text.Span
import Unawait.Search
import Unawait.Sorting

/-!
# The tokens of a text

The tree does not record where the fixed particles of a construct stand, such as
`async`, `=>` or a parenthesis, so they are looked up among the tokens. A token
is known by its span alone and its label is the text that it covers.

A stream keeps its tokens in the order of their first offsets, one token for
each offset: of tokens that start together the first one given stays.
-/

namespace Unawait

/-- The tokens of a text in the order of their starts. -/
structure Tokens where
  source : Text
  spans : Array Span
deriving Inhabited

namespace Tokens

/-- Order the tokens by start and keep the first of each start. -/
def ofSpans (source : Text) (spans : List Span) : Tokens :=
  let sorted := Sorting.sort (fun a b => a.start ≤ b.start) spans
  ⟨source, (Sorting.firstOfEach Span.start sorted).toArray⟩

/-- The number of tokens. -/
def size (tokens : Tokens) : Nat := tokens.spans.size

/-- The span of a token. -/
def get? (tokens : Tokens) (index : Nat) : Option Span := tokens.spans[index]?

/-- The label of a token, empty for an index out of range and for a span that
does not cut the text. -/
def label (tokens : Tokens) (index : Nat) : Text :=
  match tokens.get? index with
  | some span => tokens.source.slice span.start span.stop
  | none => []

/-- Whether a token has a label. -/
def is (tokens : Tokens) (index : Nat) (label : Text) : Bool := tokens.label index == label

/-- Halve the window of indices until the token in the middle contains the
offset. A token that ends at or before the offset moves the lower end past it,
any other one the upper end to it. The first argument bounds the steps. -/
def locateBetween (spans : Array Span) (offset : Nat) : Nat → Nat → Nat → Option Nat
  | 0, _, _ => none
  | steps + 1, low, high =>
    if low < high then
      let middle := low + (high - low) / 2
      let span := spans.getD middle ⟨0, 0⟩
      if span.contains offset then some middle
      else if span.stop ≤ offset then locateBetween spans offset steps (middle + 1) high
      else locateBetween spans offset steps low middle
    else none

/-- Search spans in any order by halving. On spans in order without overlap the
answer is the one span that contains the offset. -/
def locateIn (spans : Array Span) (offset : Nat) : Option Nat :=
  locateBetween spans offset spans.size 0 spans.size

/-- The token that contains an offset, if it is not in a gap. -/
def locate (tokens : Tokens) (offset : Nat) : Option Nat := locateIn tokens.spans offset

/-- The first token that starts at or after an offset. -/
def firstFrom (tokens : Tokens) (offset : Nat) : Nat :=
  Search.partitionPoint (fun i => (tokens.spans.getD i ⟨0, 0⟩).start < offset) tokens.size

/-- The first of a number of consecutive tokens with a label. -/
def scanForward (tokens : Tokens) (label : Text) : Nat → Nat → Option Nat
  | 0, _ => none
  | remaining + 1, index =>
    if tokens.is index label then some index else scanForward tokens label remaining (index + 1)

/-- The first token with a label that starts at or after an offset. -/
def findForward (tokens : Tokens) (offset : Nat) (label : Text) : Option Nat :=
  let first := tokens.firstFrom offset
  tokens.scanForward label (tokens.size - first) first

/-- The last token with a label below an index. -/
def scanBackward (tokens : Tokens) (label : Text) : Nat → Option Nat
  | 0 => none
  | index + 1 => if tokens.is index label then some index else scanBackward tokens label index

/-- The last token with a label that starts before an offset. -/
def findBackward (tokens : Tokens) (offset : Nat) (label : Text) : Option Nat :=
  tokens.scanBackward label (tokens.firstFrom offset)

end Tokens

end Unawait
