import Mathlib
import Unawait.Proofs.Conflicts
import Unawait.Proofs.Regions

/-!
# The translation of a tree

The translation of a tree is a function of the tree and its text, by recursion over the
tree. A node that is kept stands for its own bytes and the translations of its parts, in
the order of the source. A node that is rewritten stands for a text that is put together
from translated ranges of the node and the texts of its rule. Nothing is said of edits.

The nearest rewritten nodes below a node are patches: the bytes of each become its
translation, and the other bytes stay.
-/

namespace Unawait.Lowering

open Edit (Operation History Settled Shows)

/-- A range of the source that becomes another text. -/
structure Patch where
  span : Span
  text : Bytes

/-- What a byte of the source becomes. -/
def patched (source : Text) (patches : List Patch) (index : Nat) : Bytes :=
  match patches.find? fun patch => patch.span.contains index with
  | some patch => if index = patch.span.start then patch.text else []
  | none => source.encode[index]?.toList

/-- What a range of the source becomes. -/
def between (source : Text) (patches : List Patch) (low high : Nat) : Bytes :=
  (List.range' low (high - low)).flatMap (patched source patches)

/-! ### The texts of the rules -/

/-- The value of a member in its place. -/
def Use.wrap (text : Bytes) : Use → Bytes
  | .constructed => Text.encode "(".toList ++ text ++ Text.encode ")".toList
  | _ => text

/-- The target of a loop as a statement. -/
def loopTarget (number : Nat) (left : Node) (text : Bytes) : Bytes :=
  if left.is .variableDeclaration then text ++ (numbered number "=$s#.value;").encode
  else Text.encode "(".toList ++ text ++ (numbered number "=$s#.value);").encode

/-- The body of a loop with a statement at its top. -/
def loopBody (own : Nat → Nat → Bytes) (body : Node) (target : Bytes) : Bytes :=
  if body.is .blockStatement then
    own body.start (body.start + 1) ++ target ++ own (body.start + 1) body.stop
  else Text.encode "\x7b".toList ++ target ++ own body.start body.stop ++ Text.encode "\x7d".toList

/-- A range in which another one may be replaced. -/
def aroundStar (own : Nat → Nat → Bytes) (low high : Nat) : Option (Span × Text) → Bytes
  | some replaced => own low replaced.1.start ++ replaced.2.encode ++ own replaced.1.stop high
  | none => own low high

/-- A range in which another one may be dropped. -/
def aroundTypes (own : Nat → Nat → Bytes) (low high : Nat) : Option Span → Bytes
  | some types => own low types.start ++ own types.stop high
  | none => own low high

/-- The text of a rewritten node, from what its ranges become. -/
def Rewrite.text (own : Nat → Nat → Bytes) (node : Node) : Rewrite → Bytes
  | .keep => own node.start node.stop
  | .await opening closing => opening.encode ++ own (node.start + 5) node.stop ++ closing.encode
  | .name text use => use.wrap text.encode
  | .key property use =>
    use.wrap (Text.encode "$uper(".toList ++ own property.start property.stop
      ++ Text.encode ")".toList)
  | .assignName left right head tail =>
    own node.start left.start ++ head.encode ++ own right.start node.stop ++ tail.encode
  | .assignKey left property right =>
    own node.start left.start ++ Text.encode "$uperEq(".toList ++ own property.start property.stop
      ++ Text.encode ",".toList ++ own right.start node.stop ++ Text.encode ")".toList
  | .call binding =>
    aroundTypes own node.start binding.parenthesis.start binding.dropped ++ binding.text.encode
      ++ own binding.parenthesis.stop node.stop
  | .label => Text.encode "try\x7b".toList ++ own node.start node.stop
  | .loop number marker labelled particles left right body =>
    let target := loopTarget number left (own left.start left.stop)
    (if labelled.isSome then [] else Text.encode "try\x7b".toList)
      ++ own node.start particles.keyword.start ++ own particles.opening.start left.start
      ++ (loopHead number).encode ++ own right.start right.stop ++ (loopTest number marker).encode
      ++ own particles.closing.stop body.start ++ loopBody own body target ++ own body.stop node.stop
      ++ (loopCleanup number marker).encode
  | .function removed star body opening closing =>
    own node.start removed.start ++ aroundStar own removed.stop (body.start + 1) star
      ++ opening.encode
      ++ own (body.start + 1) (body.stop - 1) ++ closing.encode ++ own (body.stop - 1) node.stop
  | .arrowBlock removed body opening closing =>
    own node.start removed.start ++ own removed.stop body.start ++ opening.encode
      ++ own (body.start + 1) (body.stop - 1) ++ closing.encode ++ own body.stop node.stop
  | .arrowValue removed arrowStop body opening closing =>
    own node.start removed.start ++ own removed.stop arrowStop ++ opening.encode
      ++ own arrowStop body.start ++ Text.encode "return ".toList ++ own body.start body.stop
      ++ closing.encode ++ own body.stop node.stop

/-- The patches of a subtree: its own text where it is rewritten, else those of its parts. -/
def patches (reading : Reading) : Node → Place → List Patch :=
  placedFold fun node place parts =>
    let inner := parts.flatMap Prod.snd
    if (rewrite reading node place).isKeep then inner
    else [⟨node.span, (rewrite reading node place).text (between reading.source inner) node⟩]

/-- The patches of the parts of a node. -/
def patchesBelow (reading : Reading) (node : Node) (place : Place) : List Patch :=
  (places node place).flatMap fun placed => patches reading placed.1.2 placed.2

/-- What a node becomes. -/
def translation (reading : Reading) (inner : Node × Place) : Bytes :=
  (rewrite reading inner.1 inner.2).text
    (between reading.source (patchesBelow reading inner.1 inner.2)) inner.1

section Patches

variable {reading : Reading} {node : Node} {place : Place}

/-- The patch that a rewritten node is. -/
def asPatch (reading : Reading) (inner : Node × Place) : Patch :=
  ⟨inner.1.span, translation reading inner⟩

theorem patches_eq (reading : Reading) (node : Node) (place : Place) :
    patches reading node place = (frontier reading node place).map (asPatch reading) := by
  induction node using Node.parts_induction generalizing place with
  | _ node ih =>
    rw [patches, placedFold_eq, List.flatMap_map]
    cases kept : (rewrite reading node place).isKeep with
    | false =>
      rw [frontier_of_rewritten kept]
      rfl
    | true =>
      rw [frontier_of_keep kept, below, List.map_flatMap]
      apply List.flatMap_congr
      intro placed part
      exact ih placed.1 (mem_parts_of_places part) placed.2

theorem patchesBelow_eq (reading : Reading) (node : Node) (place : Place) :
    patchesBelow reading node place = (below reading node place).map (asPatch reading) := by
  rw [patchesBelow, below, List.map_flatMap]
  exact List.flatMap_congr fun placed _ => patches_eq reading placed.1.2 placed.2

end Patches

/-! ### Ranges of a source with patches -/

section Between

variable {source : Text} {patches : List Patch} {history : History} {low middle high : Nat}

theorem between_append (first : low ≤ middle) (last : middle ≤ high) :
    between source patches low high =
      between source patches low middle ++ between source patches middle high := by
  rw [between, between, between, ← List.flatMap_append, ← Edit.range_split first last]

@[simp] theorem between_self (offset : Nat) : between source patches offset offset = [] := by
  simp [between]

/-- Patches that are not empty and have no byte in common. -/
def Separate (patches : List Patch) : Prop :=
  (∀ patch ∈ patches, patch.span.start < patch.span.stop) ∧
    patches.Pairwise fun first second => first.span.Disjoint second.span

theorem Separate.eq_of_contains (separate : Separate patches) {first second : Patch}
    (here : first ∈ patches) (there : second ∈ patches) {index : Nat}
    (inFirst : first.span.contains index = true) (inSecond : second.span.contains index = true) :
    first = second := by
  by_contra differs
  have disjoint : min first.span.stop second.span.stop ≤ max first.span.start second.span.start :=
    Span.disjoint_of_pairwise separate.2 here there differs
  simp only [Span.contains, Bool.and_eq_true, decide_eq_true_eq] at inFirst inSecond
  omega

/-- The bytes of a patch become its text. -/
theorem between_patch (separate : Separate patches) {patch : Patch} (member : patch ∈ patches) :
    between source patches patch.span.start patch.span.stop = patch.text := by
  have nonempty := separate.1 patch member
  have each (index : Nat) (above : patch.span.start ≤ index) (below : index < patch.span.stop) :
      patched source patches index = if index = patch.span.start then patch.text else [] := by
    have inside : patch.span.contains index = true := by simp [Span.contains, above, below]
    have found : patches.find? (fun other => other.span.contains index) = some patch := by
      cases result : patches.find? fun other => other.span.contains index with
      | none => exact absurd inside (List.find?_eq_none.mp result patch member)
      | some other =>
        have inOther : other.span.contains index = true := by simpa using List.find?_some result
        rw [separate.eq_of_contains (List.mem_of_find?_eq_some result) member inOther inside]
    simp only [patched, found]
  rw [between, show patch.span.stop - patch.span.start = (patch.span.stop - patch.span.start - 1) + 1
    by omega, List.range'_succ, List.flatMap_cons, each _ le_rfl nonempty, if_pos rfl]
  have rest : (List.range' (patch.span.start + 1) (patch.span.stop - patch.span.start - 1)).flatMap
      (patched source patches) = [] := by
    apply List.flatMap_eq_nil_iff.mpr
    intro index inside
    obtain ⟨above, below⟩ := List.mem_range'_1.mp inside
    rw [each index (by omega) (by omega), if_neg (by omega)]
  rw [rest, List.append_nil]

/-- A range that cuts no patch shows what it becomes if its patches do and the rest is
untouched. -/
theorem shows_between (separate : Separate patches)
    (each : ∀ patch ∈ patches, low ≤ patch.span.start → patch.span.stop ≤ high →
      Settled source history patch.span.start patch.span.stop patch.text)
    (blank : ∀ index, low ≤ index → index < high →
      (∀ patch ∈ patches, patch.span.contains index = false) → history.Untouched index (index + 1))
    (first : ∀ patch ∈ patches, patch.span.stop ≤ low ∨ low ≤ patch.span.start)
    (last : ∀ patch ∈ patches, patch.span.stop ≤ high ∨ high ≤ patch.span.start)
    (ordered : low ≤ high) : Shows source history low high (between source patches low high) := by
  induction size : high - low using Nat.strong_induction_on generalizing low with
  | _ size ih =>
    subst size
    rcases Nat.lt_or_eq_of_le ordered with nonempty | rfl
    case inr => exact ⟨le_rfl, by omega, by simp⟩
    cases found : patches.find? fun patch => patch.span.contains low with
    | some patch =>
      have member := List.mem_of_find?_eq_some found
      have inside := List.find?_some found
      have full := separate.1 patch member
      simp only [Span.contains, Bool.and_eq_true, decide_eq_true_eq] at inside
      have begins : patch.span.start = low := by
        have := first patch member
        omega
      have ends : patch.span.stop ≤ high := by
        have := last patch member
        omega
      have rest : Shows source history patch.span.stop high
          (between source patches patch.span.stop high) := by
        refine ih (high - patch.span.stop) (by omega) (fun other there above => each other there
          (by omega)) (fun index above => blank index (by omega)) ?_ ends rfl
        intro other there
        by_cases same : other = patch
        · subst same
          exact .inl le_rfl
        by_contra across
        have overlap : other.span.contains (patch.span.stop - 1) = true := by
          have := first other there
          simp only [Span.contains, Bool.and_eq_true, decide_eq_true_eq]
          omega
        refine same (separate.eq_of_contains there member overlap ?_)
        simp only [Span.contains, Bool.and_eq_true, decide_eq_true_eq]
        omega
      rw [between_append (show low ≤ patch.span.stop by omega) ends]
      have own := @between_patch source patches separate patch member
      rw [begins] at own
      rw [own]
      have settled := each patch member (by omega) ends
      rw [begins] at settled
      exact (Shows.of_settled settled (by omega)).append rest
    | none =>
      have outside : ∀ patch ∈ patches, patch.span.contains low = false := by
        intro patch member
        simpa using List.find?_eq_none.mp found patch member
      have rest : Shows source history (low + 1) high (between source patches (low + 1) high) := by
        refine ih (high - (low + 1)) (by omega) (fun other there above => each other there
          (by omega)) (fun index above => blank index (by omega)) ?_ nonempty rfl
        intro patch member
        have apart := outside patch member
        have full := separate.1 patch member
        have cut := first patch member
        simp only [Span.contains, Bool.and_eq_false_iff, decide_eq_false_iff_not] at apart
        omega
      have here : Settled source history low (low + 1) (between source patches low (low + 1)) := by
        have own := @Settled.of_untouched source history low (blank low le_rfl nonempty outside)
        have same : between source patches low (low + 1) = source.encode[low]?.toList := by
          simp [between, patched, found]
        rw [same]
        exact own
      rw [between_append (Nat.le_succ low) nonempty]
      exact (Shows.of_settled here (Nat.lt_succ_self low)).append rest

end Between

end Unawait.Lowering
