import Mathlib
import Unawait.Proofs.TokenLookup
import Unawait.Proofs.Traversal

/-!
# Trees that fit their text

A tree fits its text when parts lie inside their nodes without sharing bytes, and the
particles of a construct are tokens where the grammar puts them, in bytes that belong
to the construct itself. Only what the rules look up or rely on is asked for: `await`
at the start of its expression, `async` in front of `function`, a key or the
parameters, the braces of a body, the brackets around a computed key, the parentheses
of a call through `super` and of a loop.

All of it can be computed.
-/

namespace Unawait

/-- Two ranges have no byte in common. -/
def Span.Disjoint (first second : Span) : Prop :=
  min first.stop second.stop ≤ max first.start second.start

instance (first second : Span) : Decidable (first.Disjoint second) :=
  inferInstanceAs (Decidable (_ ≤ _))

/-- Two of the ranges that belong to the items of a list, where any two have no byte in common. -/
theorem Span.disjoint_of_pairwise {α : Type} {spanOf : α → Span} {items : List α}
    (apart : items.Pairwise fun first second => (spanOf first).Disjoint (spanOf second))
    {first second : α} (here : first ∈ items) (there : second ∈ items) (differs : first ≠ second) :
    (spanOf first).Disjoint (spanOf second) := by
  have symmetric : Std.Symm fun first second : α => (spanOf first).Disjoint (spanOf second) := by
    constructor
    intro first second disjoint
    rw [Span.Disjoint, min_comm, max_comm]
    exact disjoint
  exact apart.forall here there differs

namespace Node

/-- Parts lie inside their node and have no byte in common. -/
def Nested (node : Node) : Prop :=
  node.start ≤ node.stop ∧
    (∀ part ∈ node.parts, node.start ≤ part.2.start ∧ part.2.stop ≤ node.stop) ∧
    node.parts.Pairwise fun first second => first.2.span.Disjoint second.2.span

instance (node : Node) : Decidable node.Nested := inferInstanceAs (Decidable (_ ∧ _ ∧ _))

/-- A range is made of a node's own bytes. -/
def Owns (node : Node) (span : Span) : Prop :=
  node.start ≤ span.start ∧ span.start < span.stop ∧ span.stop ≤ node.stop ∧
    ∀ part ∈ node.parts, part.2.span.Disjoint span

instance (node : Node) (span : Span) : Decidable (node.Owns span) :=
  inferInstanceAs (Decidable (_ ∧ _ ∧ _ ∧ _))

/-- An offset is strictly inside no part of a node. -/
def IsCut (node : Node) (offset : Nat) : Prop :=
  ∀ part ∈ node.parts, offset ≤ part.2.start ∨ part.2.stop ≤ offset

instance (node : Node) (offset : Nat) : Decidable (node.IsCut offset) :=
  inferInstanceAs (Decidable (∀ part ∈ node.parts, _))

/-- A token with a label is made of a node's own bytes. -/
def HasParticle (tokens : Tokens) (node : Node) (span : Span) (label : String) : Prop :=
  tokens.Has span label.toList ∧ node.Owns span

instance (tokens : Tokens) (node : Node) (span : Span) (label : String) :
    Decidable (node.HasParticle tokens span label) := inferInstanceAs (Decidable (_ ∧ _))

/-- The node in a field is one of the parts. -/
theorem mem_parts_of_child {node child : Node} {field : Field}
    (found : node.child? field = some child) : (field, child) ∈ node.parts := by
  rw [child?] at found
  cases slot : node.slot? field with
  | none => simp [slot] at found
  | some held =>
    rw [slot?] at slot
    have member := List.mem_of_find?_eq_some slot
    have same := List.find?_some slot
    cases held with
    | one name inner =>
      obtain rfl : inner = child := by simpa [slot?, slot] using found
      obtain rfl : name = field := by simpa [Slot.field] using same
      exact List.mem_flatMap.mpr ⟨_, member, by simp [Slot.parts]⟩
    | leaf name => simp [slot?, slot] at found
    | many name inner => simp [slot?, slot] at found

section Cuts

variable {node : Node} {span : Span} {part other : Field × Node}

theorem Owns.isCut_stop (owns : node.Owns span) : node.IsCut span.stop := by
  obtain ⟨-, nonempty, -, apart⟩ := owns
  intro part member
  have disjoint : min part.2.stop span.stop ≤ max part.2.start span.start := apart part member
  omega

theorem Owns.mono (owns : node.Owns span) {low high : Nat} (first : span.start ≤ low)
    (nonempty : low < high) (last : high ≤ span.stop) : node.Owns ⟨low, high⟩ := by
  obtain ⟨above, -, below, apart⟩ := owns
  refine ⟨by dsimp only; omega, nonempty, by dsimp only; omega, fun part member => ?_⟩
  have disjoint : min part.2.stop span.stop ≤ max part.2.start span.start := apart part member
  change min part.2.stop high ≤ max part.2.start low
  omega

theorem Nested.disjoint (nested : node.Nested) (member : part ∈ node.parts)
    (second : other ∈ node.parts) (differs : part ≠ other) :
    min part.2.stop other.2.stop ≤ max part.2.start other.2.start :=
  Span.disjoint_of_pairwise nested.2.2 member second differs

/-- The ends of a part that is not empty are strictly inside no part. -/
theorem Nested.isCut_part (nested : node.Nested) (member : part ∈ node.parts)
    (nonempty : part.2.start < part.2.stop) :
    node.IsCut part.2.start ∧ node.IsCut part.2.stop := by
  have both : ∀ other ∈ node.parts,
      (part.2.start ≤ other.2.start ∨ other.2.stop ≤ part.2.start) ∧
        (part.2.stop ≤ other.2.start ∨ other.2.stop ≤ part.2.stop) := by
    intro other second
    by_cases same : part = other
    · subst same
      omega
    · have disjoint := nested.disjoint member second same
      omega
  exact ⟨fun other second => (both other second).1, fun other second => (both other second).2⟩

end Cuts

end Node

namespace Shape

variable (tokens : Tokens) (node : Node)

/-- `await` is at the start. -/
def Await : Prop := node.HasParticle tokens ⟨node.start, node.start + 5⟩ "await"

/-- A computed key is strictly inside its member. -/
def Member : Prop :=
  node.start < node.stop ∧
    (node.flags.computed → ∃ property ∈ node.child? .property,
      node.start < property.start ∧ property.start < property.stop ∧ property.stop < node.stop)

/-- The value of an assignment to a member follows the member, with only the operator
between. -/
def Assignment : Prop :=
  ∀ left ∈ node.child? .left, left.is .superMember → ∀ right ∈ node.child? .right,
    node.Owns ⟨left.stop, right.start⟩ ∧ right.start < right.stop

/-- Where the parenthesis of a call is looked for. -/
def argumentsFrom (callee : Node) : Nat :=
  ((node.child? .typeArguments).map Node.stop).getD callee.stop

/-- A call of a member has one callee, its type arguments are not empty, and the first
parenthesis after both is its own. -/
def Call : Prop :=
  ∀ part ∈ node.parts, part.1 = .callee → part.2.is .superMember →
    (node.parts.filter fun other => other.1 == .callee).length = 1 ∧
      (∀ arguments ∈ node.child? .typeArguments, arguments.start < arguments.stop) ∧
      ∃ parenthesis ∈ tokens.spans.toList,
        tokens.FirstFrom (argumentsFrom node part.2) "(".toList parenthesis ∧
          node.Owns parenthesis

/-- A label around a loop over an async iterable begins with bytes of its own and has one
body. -/
def Label : Prop :=
  ∀ part ∈ node.parts, part.1 = .body → part.2.is .forOfStatement → part.2.flags.isAwait →
    (node.parts.filter fun other => other.1 == .body).length = 1 ∧
      node.Owns ⟨node.start, node.start + 1⟩

/-- A body is a block between braces. -/
def Braced : Prop :=
  node.is .blockStatement ∧ node.start + 2 ≤ node.stop ∧
    node.HasParticle tokens ⟨node.start, node.start + 1⟩ "\x7b" ∧
    node.HasParticle tokens ⟨node.stop - 1, node.stop⟩ "\x7d"

/-- `for`, `await` and a parenthesis begin a loop over an async iterable; target, iterable,
parenthesis and body follow. -/
def Loop : Prop :=
  ∀ left ∈ node.child? .left, ∀ right ∈ node.child? .right, ∀ body ∈ node.child? .body,
    (left.start < left.stop ∧ node.Owns ⟨left.stop, right.start⟩ ∧ right.start < right.stop ∧
        body.start < body.stop ∧ (body.is .blockStatement → Braced tokens body)) ∧
      node.HasParticle tokens ⟨node.start, node.start + 3⟩ "for" ∧
      ∃ keyword ∈ tokens.spans.toList, tokens.Adjacent ⟨node.start, node.start + 3⟩ keyword ∧
        tokens.Has keyword "await".toList ∧
        ∃ opening ∈ tokens.spans.toList, tokens.Adjacent keyword opening ∧
          tokens.Has opening "(".toList ∧ node.Owns ⟨keyword.start, opening.stop⟩ ∧
          opening.stop ≤ left.start ∧
          ∃ closing ∈ tokens.spans.toList, tokens.LastBefore body.start ")".toList closing ∧
            right.stop ≤ closing.start ∧ node.Owns ⟨right.stop, closing.stop⟩ ∧
            closing.stop ≤ body.start

/-- `async` and `function` begin an async function, the star of a generator follows. -/
def Function : Prop :=
  ∀ body ∈ node.child? .body, Braced tokens body ∧
    tokens.Has ⟨node.start, node.start + 5⟩ "async".toList ∧
    ∃ function ∈ tokens.spans.toList, tokens.Adjacent ⟨node.start, node.start + 5⟩ function ∧
      tokens.Has function "function".toList ∧ node.Owns ⟨node.start, function.stop⟩ ∧
      function.stop ≤ body.start ∧
      (node.flags.isGenerator → ∃ star ∈ tokens.spans.toList, tokens.Adjacent function star ∧
        node.HasParticle tokens star "*" ∧ star.stop ≤ body.start)

/-- `async`, and the star of a generator, stand in front of the key of an async method. -/
def Method : Prop :=
  ∀ body ∈ node.child? .body, Braced tokens body ∧
    ∃ key ∈ node.child? .key, key.start < key.stop ∧ key.start ≤ body.start ∧
      ∃ first ∈ tokens.spans.toList, first.start = key.start ∧
        ∃ keyword ∈ tokens.spans.toList, tokens.Has keyword "async".toList ∧
          node.Owns ⟨keyword.start, key.start⟩ ∧
          if node.flags.isGenerator then
            ∃ star ∈ tokens.spans.toList, tokens.Adjacent keyword star ∧
              tokens.Has star "*".toList ∧ tokens.Adjacent star first
          else tokens.Adjacent keyword first

/-- `async` begins an async arrow, and the last `=>` before a body that is no block is the
arrow's own. -/
def Arrow : Prop :=
  ∀ body ∈ node.child? .body,
    tokens.Has ⟨node.start, node.start + 5⟩ "async".toList ∧
    ∃ next ∈ tokens.spans.toList, tokens.Adjacent ⟨node.start, node.start + 5⟩ next ∧
      node.Owns ⟨node.start, next.start⟩ ∧ next.start ≤ body.start ∧
      if body.is .blockStatement then Braced tokens body
      else
        body.start < body.stop ∧
          ∃ arrow ∈ tokens.spans.toList, tokens.LastBefore body.start "=>".toList arrow ∧
            node.Owns arrow ∧ next.start ≤ arrow.start ∧ arrow.stop ≤ body.start

instance : Decidable (Await tokens node) := inferInstanceAs (Decidable (_ ∧ _))

instance : Decidable (Member node) := inferInstanceAs (Decidable (_ ∧ (_ → _)))

instance : Decidable (Assignment node) := inferInstanceAs (Decidable (∀ left ∈ _, _ → _))

instance : Decidable (Call tokens node) := inferInstanceAs (Decidable (∀ part ∈ _, _ → _ → _))

instance : Decidable (Label node) := inferInstanceAs (Decidable (∀ part ∈ _, _ → _ → _ → _))

instance : Decidable (Braced tokens node) := inferInstanceAs (Decidable (_ ∧ _ ∧ _ ∧ _))

instance : Decidable (Loop tokens node) :=
  inferInstanceAs (Decidable (∀ left ∈ _, ∀ right ∈ _, ∀ body ∈ _, _ ∧ _ ∧ _))

instance : Decidable (Function tokens node) := inferInstanceAs (Decidable (∀ body ∈ _, _ ∧ _ ∧ _))

instance : Decidable (Method tokens node) := inferInstanceAs (Decidable (∀ body ∈ _, _ ∧ _))

instance : Decidable (Arrow tokens node) := inferInstanceAs (Decidable (∀ body ∈ _, _ ∧ _))

/-- A member has no part but a computed key, and a changed member is the only part of its
update. -/
def Bare : Prop :=
  (node.is .superMember → node.parts.length = if node.flags.computed then 1 else 0) ∧
    (node.is .updateExpression → ∀ target ∈ node.child? .argument, target.is .superMember →
      node.parts.length = 1)

/-- The type arguments of a call of a member are a text without parts. -/
def Untyped : Prop :=
  node.is .callExpression → ∀ part ∈ node.parts, part.1 = .callee → part.2.is .superMember →
    ∀ arguments ∈ node.child? .typeArguments, arguments.is .expression ∧ arguments.parts = []

instance : Decidable (Bare node) := inferInstanceAs (Decidable ((_ → _) ∧ (_ → ∀ target ∈ _, _ → _)))

instance : Decidable (Untyped node) :=
  inferInstanceAs (Decidable (_ → ∀ part ∈ _, _ → _ → ∀ arguments ∈ _, _ ∧ _))

end Shape

/-- The particles of a node are where the grammar puts them. -/
def Node.shaped (tokens : Tokens) (node : Node) : Bool :=
  match node.kind with
  | .awaitExpression => decide (Shape.Await tokens node)
  | .superMember => decide (Shape.Member node)
  | .assignmentExpression => decide (Shape.Assignment node)
  | .callExpression => decide (Shape.Call tokens node)
  | .labeledStatement => decide (Shape.Label node)
  | .forOfStatement => !node.flags.isAwait || decide (Shape.Loop tokens node)
  | .functionDeclaration | .functionExpression =>
    !node.flags.isAsync || decide (Shape.Function tokens node)
  | .objectMethod | .classMethod => !node.flags.isAsync || decide (Shape.Method tokens node)
  | .arrowFunctionExpression => !node.flags.isAsync || decide (Shape.Arrow tokens node)
  | _ => true

/-- A tree fits its text. -/
def Node.wellFormed (tokens : Tokens) : Node → Bool :=
  Node.fold fun node parts =>
    decide node.Nested && node.shaped tokens && parts.all Prod.snd

theorem Node.wellFormed_iff (tokens : Tokens) (node : Node) :
    node.wellFormed tokens = true ↔
      node.Nested ∧ node.shaped tokens = true ∧
        ∀ part ∈ node.parts, part.2.wellFormed tokens = true := by
  rw [Node.wellFormed, Node.fold_eq]
  simp [and_assoc]

/-- The members and type arguments that a rule replaces as a whole are texts without parts. -/
def Node.disposable : Node → Bool :=
  Node.fold fun node parts =>
    decide (Shape.Bare node ∧ Shape.Untyped node) && parts.all Prod.snd

theorem Node.disposable_iff (node : Node) :
    node.disposable = true ↔ (Shape.Bare node ∧ Shape.Untyped node) ∧
      ∀ part ∈ node.parts, part.2.disposable = true := by
  rw [Node.disposable, Node.fold_eq]
  simp

end Unawait
