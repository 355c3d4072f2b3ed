import Mathlib
import Unawait.Proofs.Conflicts

/-!
# Walks without conflicts

The rule for a node spares the rewritten nodes below, and these keep to themselves, apart
from calls for the node above. So the calls of two rules are compatible because one
spares the node that the other one stays within, and this carries over from the nearest
rewritten nodes below a node to the node, and to the whole tree.

From the beginning of a walk all calls are therefore inside the source, replace no empty
range and touch nothing that was replaced. A walk can fail because a construct has no
lowered form, or because a move is refused.
-/

namespace Unawait.Edit

/-- Marks are in conflict with nothing. -/
theorem conflictFree_of_filter {length : Nat} {operations : List Operation}
    (bounds : ∀ operation ∈ operations, operation.isMark = false → operation.InBounds length)
    (pairs : (operations.filter fun operation => !operation.isMark).Pairwise Operation.Compatible) :
    ConflictFree length operations := by
  refine ⟨fun operation member => ?_, ?_⟩
  · cases marks : operation.isMark with
    | false => exact bounds operation member marks
    | true => cases operation <;> simp_all [Operation.isMark, Operation.InBounds, Operation.cuts,
        Operation.replaced?]
  · refine (List.pairwise_filter.mp pairs).imp ?_
    intro first second both replacement replaced
    cases marks : second.isMark with
    | true => cases second <;> simp_all [Operation.isMark, Operation.Spares, Operation.cuts,
        Operation.replaced?]
    | false =>
      have keeps : first.isMark = false := by
        cases first <;> simp_all [Operation.isMark, Operation.replaced?]
      exact (both (by simp [keeps]) (by simp [marks])).1 replacement replaced

theorem ConflictFree.of_isPrefix {length : Nat} {operations all : List Operation}
    (free : ConflictFree length all) (begins : operations <+: all) :
    ConflictFree length operations :=
  ⟨fun operation member => free.1 operation (begins.subset member), free.2.sublist begins.sublist⟩

end Unawait.Edit

namespace Unawait.Lowering

open Edit (Operation ConflictFree)

/-! ### Texts without parts -/

section Disposable

variable {reading : Reading} {node : Node} {place : Place}

/-- A member has no part but a computed key. -/
theorem length_parts_of_disposable (disposable : node.disposable = true)
    (member : node.is .superMember = true) :
    node.parts.length = if node.flags.computed then 1 else 0 :=
  ((Node.disposable_iff _).mp disposable).1.1.1 member

theorem parts_of_named (disposable : node.disposable = true) (member : node.is .superMember = true)
    (named : node.flags.computed = false) : node.parts = [] := by
  have none := length_parts_of_disposable disposable member
  rw [named] at none
  exact List.length_eq_zero_iff.mp (by simpa using none)

theorem eq_property (disposable : node.disposable = true) (member : node.is .superMember = true)
    (computed : node.flags.computed = true) {property : Node}
    (part : (Field.property, property) ∈ node.parts) :
    ∀ inner ∈ node.parts, inner = (Field.property, property) := by
  have single := length_parts_of_disposable disposable member
  rw [if_pos computed] at single
  obtain ⟨only, whole⟩ := List.length_eq_one_iff.mp single
  intro inner inside
  rw [whole, List.mem_singleton] at inside part
  rw [inside, part]

/-- Nothing is rewritten in what is replaced by name. -/
theorem outside_of_name (disposable : node.disposable = true) {text : Text} {use : Use}
    (form : (Rewrite.name text use).Of node) (low high : Nat) :
    Outside reading node place low high := by
  obtain ⟨⟨⟨-, single⟩, -⟩, parts⟩ := (Node.disposable_iff _).mp disposable
  rcases form with ⟨member, named⟩ | ⟨update, target, child, member, named⟩
  · exact outside_of_parts_nil (parts_of_named disposable member named)
  · obtain ⟨only, whole⟩ := List.length_eq_one_iff.mp (single update target child member)
    intro inner inside
    obtain ⟨placed, part, here⟩ := mem_below.mp inside
    have held := mem_parts_of_places part
    have argument := Node.mem_parts_of_child child
    have bare := parts_of_named (parts _ argument) member named
    rw [whole, List.mem_singleton] at held argument
    have same : placed.1 = (.argument, target) := held.trans argument.symm
    have parent := (mem_placesFrom part).2
    rw [same] at here parent
    have kept : (rewrite reading target placed.2).isKeep = true :=
      kept_of_written member (by simp [parent, isWritten, update])
    rw [frontier_of_keep kept] at here
    exact outside_of_parts_nil bare inner here

variable (ordered : reading.tokens.Ordered) (fit : Fit reading node place)

include ordered fit

/-- A member that is replaced with its parent, in the bytes beside a computed key. -/
theorem outside_of_member {field : Field} {member : Node} {low high : Nat}
    (part : (field, member) ∈ node.parts) (super : member.is .superMember = true)
    (written : isWritten (some (node, field)) = true) (nonempty : member.start < member.stop)
    (above : member.start ≤ low) (under : high ≤ member.stop)
    (apart : ∀ inner ∈ member.parts, inner.2.stop ≤ low ∨ high ≤ inner.2.start) :
    Outside reading node place low high := by
  obtain ⟨placed, held, same⟩ := @exists_place node place _ part
  have parent := (mem_placesFrom held).2
  obtain ⟨⟨_, _⟩, at'⟩ := placed
  obtain ⟨rfl, rfl⟩ := Prod.mk.inj same
  have kept : (rewrite reading _ at').isKeep = true :=
    kept_of_written super (by rw [show at'.parent = _ from parent]; exact written)
  refine outside_of_kept ordered fit held nonempty above under ?_
  rw [frontier_of_keep kept]
  exact outside_of_parts ordered (fit.part held) fun inner inside _ => apart inner inside

/-- Type arguments that are dropped have no rewritten node in them. -/
theorem outside_of_types (disposable : node.disposable = true) {binding : Binding}
    (form : (Rewrite.call binding).Of node) {span : Span} (given : span ∈ binding.dropped)
    (full : span.start < span.stop) : Outside reading node place span.start span.stop := by
  obtain ⟨kind, ⟨callee, part, member⟩, types⟩ := form
  rw [types] at given
  obtain ⟨arguments, child, rfl⟩ := Option.map_eq_some_iff.mp given
  obtain ⟨text, none⟩ := ((Node.disposable_iff _).mp disposable).1.2 kind _ part rfl member
    arguments child
  obtain ⟨placed, held, same⟩ := @exists_place node place _ (Node.mem_parts_of_child child)
  have kept : (rewrite reading placed.1.2 placed.2).isKeep = true := by
    have named : placed.1.2.kind = .expression := by simpa [same, Node.is] using text
    simp [rewrite, Node.opensScope, Node.is, named, Kind.ownsReceiver, Rewrite.isKeep]
  refine outside_of_kept ordered fit held ?_ ?_ ?_ ?_
  · rw [same]
    exact full
  · rw [same]
    exact le_rfl
  · rw [same]
    exact le_rfl
  · rw [frontier_of_keep kept]
    exact outside_of_parts_nil (by rw [same]; exact none)

/-- What the rule for a node replaces has no rewritten node in it. -/
theorem outside_of_disposable (disposable : node.disposable = true) {edit : Operation}
    (made : edit ∈ (rewrite reading node place).edits node ++ (rewrite reading node place).hosted node)
    {own : Span × Text} (replaced : edit.replaced? = some own) :
    Outside reading node place own.1.start own.1.stop := by
  have parts := ((Node.disposable_iff _).mp disposable).2
  have fits := (fit.carries ordered).fits
  have form := rewrite_of reading node place
  have spared (clears : Clears reading node place edit) :
      Outside reading node place own.1.start own.1.stop :=
    fun inner member => ((clears inner member).2 own replaced).symm
  have clear (keeps : (rewrite reading node place).replacesParts = false)
      (here : edit ∈ (rewrite reading node place).edits node) : Clears reading node place edit :=
    edits_clear ordered fit (by simp [keeps]) here
  generalize rewrite reading node place = rule at made fits form clear
  cases rule with
  -- first the forms that replace parts: these parts are kept and have no parts themselves
  | name text use => exact outside_of_name disposable form _ _
  | key property use =>
    obtain ⟨part, above, nonempty, under, beside⟩ := fits
    have only := eq_property disposable form.1 form.2 part
    simp only [Rewrite.edits, Rewrite.hosted, List.append_nil, List.mem_cons] at made
    rcases made with rfl | rfl | made
    · obtain rfl := Option.some.inj replaced
      refine outside_of_parts ordered fit fun inner inside _ => ?_
      rw [only inner inside]
      exact .inr le_rfl
    · obtain rfl := Option.some.inj replaced
      refine outside_of_parts ordered fit fun inner inside _ => ?_
      rw [only inner inside]
      exact .inl le_rfl
    · exact spared (clears_use ordered fit beside made)
  | assignName left right head tail =>
    obtain ⟨part, -, nonempty, owns, -⟩ := fits
    obtain ⟨assigns, -, member, named⟩ := form
    have none := parts_of_named (parts _ part) member named
    have target : Outside reading node place left.start left.stop :=
      outside_of_member ordered fit part member (by simp [isWritten, assigns]) nonempty le_rfl le_rfl
        (by simp [none])
    simp only [Rewrite.edits, Rewrite.hosted, List.append_nil, List.mem_cons, List.not_mem_nil,
      or_false] at made
    rcases made with rfl | rfl
    · obtain rfl := Option.some.inj replaced
      exact target.join ordered fit (outside_of_owns ordered fit owns)
    · simp [Operation.replaced?] at replaced
  | assignKey left property right =>
    obtain ⟨child, -, -, part, above, nonempty, under, owns, -⟩ := fits
    obtain ⟨assigns, -, member, computed⟩ := form
    have leftPart := Node.mem_parts_of_child child
    have only := eq_property (parts _ leftPart) member computed part
    have written : isWritten (some (node, .left)) = true := by simp [isWritten, assigns]
    simp only [Rewrite.edits, Rewrite.hosted, List.append_nil, List.mem_cons, List.not_mem_nil,
      or_false] at made
    rcases made with rfl | rfl | rfl
    · obtain rfl := Option.some.inj replaced
      refine outside_of_member ordered fit leftPart member written (by omega) le_rfl
        (by dsimp only; omega) fun inner inside => ?_
      rw [only inner inside]
      exact .inr le_rfl
    · obtain rfl := Option.some.inj replaced
      have closing : Outside reading node place property.stop left.stop := by
        refine outside_of_member ordered fit leftPart member written (by omega) (by omega) le_rfl
          fun inner inside => ?_
        rw [only inner inside]
        exact .inl le_rfl
      exact closing.join ordered fit (outside_of_owns ordered fit owns)
    · simp [Operation.replaced?] at replaced
  | call binding =>
    obtain ⟨owns, dropped⟩ := fits
    simp only [Rewrite.edits, Rewrite.hosted, Binding.edits, List.nil_append, List.mem_append,
      List.mem_map, Option.mem_toList, List.mem_singleton] at made
    rcases made with ⟨span, given, rfl⟩ | rfl
    · obtain rfl := Option.some.inj replaced
      exact outside_of_types ordered fit disposable form given (dropped span given).1
    · obtain rfl := Option.some.inj replaced
      exact outside_of_owns ordered fit owns
  | label =>
    rw [show edit = _ from List.mem_singleton.mp made] at replaced
    simp [Operation.replaced?] at replaced
  | _ => exact spared (clear rfl (by simpa [Rewrite.hosted] using made))

/-- In a tree in which nothing that is replaced has parts, every rewritten node is visible. -/
theorem visible_of_disposable (disposable : node.disposable = true) : Visible reading node place := by
  induction node using Node.parts_induction generalizing place with
  | _ node ih =>
    refine (visible_iff _ _ _).mpr ⟨?_, fun placed part => ?_⟩
    · rintro inner member edit made own replaced ⟨above, under⟩
      obtain ⟨-, -, -, -, -, nonempty, -⟩ := inner_of_below ordered fit member
      have outside := outside_of_disposable ordered fit disposable made replaced inner member
      omega
    · exact ih placed.1 (mem_parts_of_places part) (fit.part part)
        (((Node.disposable_iff _).mp disposable).2 _ (mem_parts_of_places part))

end Disposable

/-! ### Calls without conflicts -/

section Calls

variable {reading : Reading} {node : Node} {place : Place}

/-- Calls in two distinct nodes below a node, each within its node or made for the node above,
are compatible. -/
theorem compatible_of_distinct (ordered : reading.tokens.Ordered) (fit : Fit reading node place)
    (visible : Visible reading node place) {first second : Node × Place}
    (firstBelow : first ∈ below reading node place) (secondBelow : second ∈ below reading node place)
    (distinct : Distinct reading first second) {edit other : Operation}
    (here : edit.Within first.1.start first.1.stop ∨ edit ∈ (rewrite reading first.1 first.2).guests)
    (there : other.Within second.1.start second.1.stop ∨
      other ∈ (rewrite reading second.1 second.2).guests) : edit.Compatible other := by
  have clears (inner : Node × Place) (member : inner ∈ below reading node place) (guest : Operation)
      (made : guest ∈ (rewrite reading inner.1 inner.2).guests) : Clears reading node place guest := by
    rw [guests_eq_hosted fit member (List.ne_nil_of_mem made)] at made
    exact hosted_clear ordered fit visible made
  obtain ⟨disjoint, single⟩ := distinct
  have apart : min first.1.stop second.1.stop ≤ max first.1.start second.1.start := disjoint
  obtain ⟨-, -, -, -, -, firstFull, -⟩ := inner_of_below ordered fit firstBelow
  obtain ⟨-, -, -, -, -, secondFull, -⟩ := inner_of_below ordered fit secondBelow
  rcases here with within | guest
  · rcases there with otherWithin | otherGuest
    · have beside : edit.Spares second.1.span := within.spares (by
        change first.1.stop ≤ second.1.start ∨ second.1.stop ≤ first.1.start
        omega)
      exact beside.compatible otherWithin
    · exact ((clears second secondBelow other otherGuest first firstBelow).compatible within).symm
  · rcases there with otherWithin | otherGuest
    · exact (clears first firstBelow edit guest second secondBelow).compatible otherWithin
    · rcases single with none | none
      · simp [none] at guest
      · simp [none] at otherGuest

/-- The calls made in a subtree are compatible. -/
theorem calls_compatible (ordered : reading.tokens.Ordered) (fit : Fit reading node place)
    (visible : Visible reading node place) :
    (calls reading (node, place)).Pairwise Operation.Compatible := by
  revert fit visible
  refine @below_induction reading (fun node place => Fit reading node place →
    Visible reading node place → (calls reading (node, place)).Pairwise Operation.Compatible) ?_
    node place
  intro node place ih fit visible
  have inside : ∀ inner ∈ below reading node place, ∀ edit ∈ calls reading inner,
      edit.Within inner.1.start inner.1.stop ∨ edit ∈ (rewrite reading inner.1 inner.2).guests := by
    intro inner member
    obtain ⟨-, -, -, fits, -, -, -⟩ := inner_of_below ordered fit member
    exact calls_within ordered fits
  rw [calls_eq ordered fit]
  refine List.pairwise_append.mpr ⟨?_, edits_pairwise ordered fit, ?_⟩
  · refine List.pairwise_flatMap.mpr ⟨fun inner member => ?_, ?_⟩
    · obtain ⟨-, -, -, fits, -, -, -⟩ := inner_of_below ordered fit member
      exact ih inner member fits
        (inherited (fun node place here => ((visible_iff _ _ _).mp here).2) visible member)
    · refine (frontier_pairwise ordered fit).2.imp_of_mem ?_
      intro first second here there distinct edit made other again
      exact compatible_of_distinct ordered fit visible here there distinct
        (inside first here edit made) (inside second there other again)
  · intro edit made own mine
    obtain ⟨inner, member, here⟩ := List.mem_flatMap.mp made
    rcases inside inner member edit here with within | guest
    · exact ((edits_clear ordered fit (fun _ => visible) mine inner member).compatible within).symm
    · -- only a node without calls of its own is a host
      rw [guests_eq_hosted fit member (List.ne_nil_of_mem guest)] at guest
      rcases hosted_or_edits (rewrite reading node place) node with none | none
      · simp [none] at guest
      · simp [none] at mine

/-- The calls that a walk makes if nothing fails have no conflicts. -/
theorem script_conflictFree {root : Node} {length : Nat} (ordered : reading.tokens.Ordered)
    (fit : Fit reading root {}) (visible : Visible reading root {}) (inSource : root.stop ≤ length)
    (sourceMap : Bool) : ConflictFree length (script reading sourceMap root {}) := by
  apply Edit.conflictFree_of_filter
  · intro edit member plain
    have made : edit ∈ calls reading (root, {}) := by
      have kept : edit ∈ (script reading sourceMap root {}).filter (fun edit => !edit.isMark) :=
        List.mem_filter.mpr ⟨member, by simp [plain]⟩
      rw [filter_script] at kept
      exact (List.mem_filter.mp kept).1
    have inside : edit.Within root.start root.stop := by
      simpa [guests_root] using calls_within ordered fit edit made
    exact ⟨fun offset cut => (inside.cuts offset cut).2.trans inSource,
      fun own replaced => (inside.replaced own replaced).2.1⟩
  · rw [filter_script]
    exact (calls_compatible ordered fit visible).filter _

/-- A visit fails only where a construct has no lowered form, unless an edit is refused. -/
theorem unsupported_of_failure {sourceMap : Bool} (ordered : reading.tokens.Ordered)
    (fit : Fit reading node place) {failure : Failure}
    (failed : (visitEffect reading sourceMap node place).failure = some failure) :
    ∃ construct line column, failure = .unsupported construct line column := by
  induction node using Node.parts_induction generalizing place with
  | _ node ih =>
    rcases failure_visitEffect failed with ⟨placed, part, inside⟩ | own
    · exact ih placed.1 (mem_parts_of_places part) (fit.part part) inside
    · exact (fit.carries ordered).failure failure own

end Calls

/-- In a tree that fits its text, and in which nothing that a rule replaces as a whole has
parts, the calls of a walk are inside the source, replace ranges that are not empty and have no
byte in common, and cut the source nowhere inside what was replaced. No particle is missed: a
walk fails because a construct has no lowered form or because a move is refused. -/
theorem walk_conflict_free (source : Text) (tokens : Tokens) (lines : Lines) (sourceMap : Bool)
    (root : Node) (ordered : tokens.Ordered) (wellFormed : root.wellFormed tokens = true)
    (disposable : root.disposable = true) (inSource : root.stop ≤ source.bytes) :
    let start := State.ofSource source tokens lines sourceMap
    let edits := (visitEffect start.reading sourceMap root {}).edits
    ConflictFree source.bytes edits ∧
    (∀ final, Walk.walk visitor root start = .ok () final →
      start.buffer.perform edits = .ok final.buffer) ∧
    ∀ failure stopped, Walk.walk visitor root start = .error failure stopped →
      (∃ construct line column, failure = .unsupported construct line column) ∨
        ∃ refusal, failure = .refused refusal ∧ refusal.isOfMove = true := by
  intro start edits
  have fit : Fit start.reading root {} := ⟨wellFormed, by simp [Seated]⟩
  have visible : Visible start.reading root {} := visible_of_disposable ordered fit disposable
  have free : ConflictFree source.bytes edits :=
    (script_conflictFree ordered fit visible inSource sourceMap).of_isPrefix (plays root {}).begins
  have walk : result (Walk.walk visitor root) start =
      (visitEffect start.reading sourceMap root {}).apply start >>= fun next =>
        .ok { next with scopes := scopesAfter root {} start.scopes } := result_walk root start rfl rfl
  refine ⟨free, fun final walked => ?_, fun failure stopped walked => ?_⟩
  · rw [result_of_ok walked] at walk
    cases applied : (visitEffect start.reading sourceMap root {}).apply start with
    | error failure =>
      rw [applied] at walk
      simp at walk
    | ok next =>
      obtain ⟨-, performed, -⟩ := Effect.apply_eq_ok applied
      rw [applied, ok_bind] at walk
      rw [Except.ok.inj walk]
      exact performed
  · rw [result_of_error walked] at walk
    have stops : (visitEffect start.reading sourceMap root {}).apply start = .error failure := by
      cases applied : (visitEffect start.reading sourceMap root {}).apply start with
      | error other =>
        rw [applied] at walk
        simpa [eq_comm] using walk
      | ok next =>
        rw [applied] at walk
        simp at walk
    rw [Effect.apply] at stops
    rcases (Edit.Buffer.reflects_ofText source).perform_ok free (by simp [Edit.History.replacements])
      with ⟨buffer, performed⟩ | ⟨refusal, refused, ofMove⟩
    · left
      rw [show start.buffer.perform _ = _ from performed] at stops
      cases failed : (visitEffect start.reading sourceMap root {}).failure with
      | none => simp [failed] at stops
      | some other =>
        obtain rfl : other = failure := by simpa [failed] using stops
        exact unsupported_of_failure ordered fit failed
    · right
      rw [show start.buffer.perform _ = _ from refused] at stops
      exact ⟨refusal, by simpa [eq_comm] using stops, ofMove⟩

/-- The program `({async m(){…}})` with a call in place of the dots. -/
def memberCallProgram (call : Node) : Node :=
  let body := .plain .blockStatement ⟨11, 32⟩
    [.many .children [.plain .statement ⟨12, 31⟩ [.many .children [call]]]]
  let method := .mk { kind := .objectMethod, span := ⟨2, 32⟩, flags := { isAsync := true } }
    [.many .decorators [], .one .key (.plain .propertyKey ⟨8, 9⟩ []), .many .params [],
      .one .body body]
  .plain .program ⟨0, 34⟩ [.many .children [.plain .statement ⟨0, 34⟩ [.many .children
    [.plain .parenthesizedExpression ⟨0, 34⟩
      [.one .argument (.plain .expression ⟨1, 33⟩ [.many .children [method]])]]]]]

/-- A call of the member `p` with type arguments and arguments. -/
def memberCall (types : Node) (arguments : List Node) : Node :=
  .plain .callExpression ⟨12, 31⟩
    [.one .callee (.mk { kind := .superMember, span := ⟨12, 19⟩, name := some ['p'] } []),
      .one .typeArguments types, .many .arguments arguments]

/-- The tokens of the program around the call, and those of the call behind the member. -/
def memberCallTokens (source : Text) (call : List Span) : Tokens :=
  let before : List Span := [⟨0, 1⟩, ⟨1, 2⟩, ⟨2, 7⟩, ⟨8, 9⟩, ⟨9, 10⟩, ⟨10, 11⟩, ⟨11, 12⟩, ⟨12, 17⟩,
    ⟨17, 18⟩, ⟨18, 19⟩]
  let after : List Span := [⟨30, 31⟩, ⟨31, 32⟩, ⟨32, 33⟩, ⟨33, 34⟩]
  ⟨source, (before ++ call ++ after).toArray⟩

/-- The program `({async m(){super.p<T>(await x)}})`. -/
def typedCall : Node :=
  memberCallProgram (memberCall (.plain .expression ⟨19, 22⟩ [])
    [.plain .awaitExpression ⟨23, 30⟩ [.one .argument (.plain .identifier ⟨29, 30⟩ [])]])

def typedCallSource : Text := "(\x7basync m()\x7bsuper.p<T>(await x)\x7d\x7d)".toList

def typedCallTokens : Tokens :=
  memberCallTokens typedCallSource
    [⟨19, 20⟩, ⟨20, 21⟩, ⟨21, 22⟩, ⟨22, 23⟩, ⟨23, 28⟩, ⟨29, 30⟩]

/-- The walk of this program ends. -/
def typedCallWalk : Evaluated (result (Walk.walk visitor typedCall)
    (.ofSource typedCallSource typedCallTokens (.ofText typedCallSource) false))
    (fun final => final.buffer.edited) true :=
  .ofView (by decide +kernel)

/-- A walk through a call that loses its type arguments and gets the receiver, with an `await`
among the arguments. -/
theorem walk_conflict_free_typed_call :
    let start := State.ofSource typedCallSource typedCallTokens (.ofText typedCallSource) false
    ∃ final, Walk.walk visitor typedCall start = .ok () final ∧
      ConflictFree typedCallSource.bytes (visitEffect start.reading false typedCall {}).edits ∧
      start.buffer.perform (visitEffect start.reading false typedCall {}).edits =
        .ok final.buffer := by
  intro start
  obtain ⟨free, performed, -⟩ := walk_conflict_free typedCallSource typedCallTokens
    (.ofText typedCallSource) false typedCall (by decide +kernel) (by decide +kernel)
    (by decide +kernel) (by decide +kernel)
  obtain ⟨final, done, -⟩ := typedCallWalk
  have walked := of_result_eq_ok done
  exact ⟨final, walked, free, performed final walked⟩

/-- The program `({async m(){super.p<await xy>()}})`, with the `await` as a part of the type
arguments. -/
def awaitedType : Node :=
  memberCallProgram (memberCall (.plain .expression ⟨19, 29⟩ [.many .children
    [.plain .awaitExpression ⟨20, 28⟩ [.one .argument (.plain .identifier ⟨26, 28⟩ [])]]]) [])

def awaitedTypeSource : Text := "(\x7basync m()\x7bsuper.p<await xy>()\x7d\x7d)".toList

def awaitedTypeTokens : Tokens :=
  memberCallTokens awaitedTypeSource [⟨19, 20⟩, ⟨20, 25⟩, ⟨26, 28⟩, ⟨28, 29⟩, ⟨29, 30⟩]

/-- Type arguments of a call through `super` are dropped with all that is in them, so a part of
them that is rewritten afterwards is in conflict, in a tree that fits its text. -/
theorem awaited_type_argument_conflicts :
    awaitedTypeTokens.Ordered ∧ awaitedType.wellFormed awaitedTypeTokens = true ∧
      awaitedType.stop ≤ awaitedTypeSource.bytes ∧
      ∃ stopped, Walk.walk visitor awaitedType
        (.ofSource awaitedTypeSource awaitedTypeTokens (.ofText awaitedTypeSource) false) =
          .error (.refused (.insideReplaced 20)) stopped := by
  refine ⟨by decide +kernel, by decide +kernel, by decide +kernel, ?_⟩
  let start := State.ofSource awaitedTypeSource awaitedTypeTokens (.ofText awaitedTypeSource) false
  have failed : (match result (Walk.walk visitor awaitedType) start with
      | .error failure => some failure
      | .ok _ => none) = some (.refused (.insideReplaced 20)) := by
    decide +kernel
  cases walked : Walk.walk visitor awaitedType start with
  | error failure stopped =>
    rw [result_of_error walked] at failed
    exact ⟨stopped, congrArg (EStateM.Result.error · stopped) (Option.some.inj failed)⟩
  | ok value final =>
    rw [result_of_ok walked] at failed
    simp at failed

end Unawait.Lowering
