import Mathlib
import Unawait.Proofs.Captures

/-!
# The accessors of `super` are bound

A member of `super` inside a lowered body is reached through an accessor, a parameter of
the generator that the body is wrapped into. Whether the parameter exists is decided
when the function is left, long after the member was replaced. It always exists: what a
member takes reaches the record of the scope in which it is evaluated, and that scope is
async and the member is not among its parameters.

An async arrow inside a lowered body passes on the accessors of that body. What its code
takes reaches the record around it too, so the names that it passes on are bound there,
and the names that are passed on from one generator to the next come from a construct
that passes a closure over `super` itself.
-/

namespace Unawait.Lowering

/-! ### Accessors -/

/-- The two ways in which a lowered body reaches members of `super`. -/
inductive Accessor where
  | read
  | write
deriving DecidableEq, Inhabited

namespace Accessor

/-- The name of an accessor, which is a parameter of the generator. -/
def name : Accessor → Text
  | read => "$uper".toList
  | write => "$uperEq".toList

/-- What the code of a construct takes through an accessor. -/
def capture : Accessor → Capture
  | read => .superRead
  | write => .superWrite

/-- The beginning of a call of an accessor. -/
def call (accessor : Accessor) : Text := accessor.name ++ ['(']

variable (accessor : Accessor) (scope : Scope) (inherited : Bool)

end Accessor

/-! ### Texts that call an accessor -/

/-- A text calls an accessor: the beginning of a call stands in it, and not inside the
literal of a member's name. -/
def Calls (accessor : Accessor) (literal text : Text) : Prop :=
  ∃ before after, text = before ++ accessor.call ++ after ∧
    ∀ front back, text = front ++ literal ++ back →
      before.length < front.length ∨
        front.length + literal.length < before.length + accessor.call.length

theorem quote_not_mem_call (accessor : Accessor) : '"' ∉ accessor.call := by
  cases accessor <;> decide

/-- Around a literal, a call stands before the literal or after it. -/
theorem Calls.around {accessor : Accessor} {front back : Text} {member : Node}
    (calls : Calls accessor (keyLiteral member) (front ++ keyLiteral member ++ back)) :
    accessor.call <:+: front ∨ accessor.call <:+: back := by
  obtain ⟨before, after, same, outside⟩ := calls
  have unquoted := quote_not_mem_call accessor
  have apart := outside front back rfl
  rw [List.append_assoc, List.append_assoc] at same
  rcases List.append_eq_append_iff.mp same with ⟨rest, rfl, behind⟩ | ⟨rest, rfl, ahead⟩
  · -- The call starts at the literal or behind it.
    right
    rcases List.append_eq_append_iff.mp behind with ⟨gap, rfl, rfl⟩ | ⟨tail, quoted, cut⟩
    · exact ⟨gap, after, by simp⟩
    · rcases List.append_eq_append_iff.mp cut with ⟨more, rfl, -⟩ | ⟨tip, called, rfl⟩
      · have lengths := congrArg List.length quoted
        simp only [List.length_append] at lengths apart
        omega
      · rcases List.eq_nil_or_concat tail with rfl | ⟨init, last, rfl⟩
        · exact ⟨[], after, by simp [called]⟩
        · exfalso
          have closed : ('"' :: member.head.name.getD []) ++ ['"'] = rest ++ init ++ [last] := by
            simpa [keyLiteral] using quoted
          obtain rfl : '"' = last := by simpa using List.append_inj_right' closed rfl
          apply unquoted
          simp [called]
  · -- The call starts before the literal.
    left
    rcases List.append_eq_append_iff.mp ahead with ⟨tail, rfl, -⟩ | ⟨tail, called, quoted⟩
    · exact ⟨before, tail, by simp⟩
    · cases tail with
      | nil => exact ⟨before, [], by simp [called]⟩
      | cons first others =>
        exfalso
        obtain rfl : '"' = first := by
          simpa [keyLiteral] using congrArg List.head? quoted
        apply unquoted
        simp [called]

/-! ### The rules for members -/

/-- The member that the rule for a node replaces. -/
def memberOf (node : Node) : Node :=
  match node.kind with
  | .assignmentExpression => (node.child? .left).getD node
  | .updateExpression => (node.child? .argument).getD node
  | _ => node

theorem texts_readEffect {node : Node} {edit : Edit.Operation}
    (member : edit ∈ (readEffect node).edits) :
    edit.text = "$uper(".toList ++ keyLiteral node ++ ")".toList ∨
      edit.text ∈ ["$uper(", ")"].map String.toList := by
  unfold readEffect at member
  split at member
  · split at member
    · simp [Effect.failing] at member
    · right
      rcases by simpa [Effect.ofEdits] using member with rfl | rfl <;> simp [Edit.Operation.text]
  · left
    obtain rfl := by simpa [Effect.ofEdits] using member
    rfl

/-- A plain assignment to a member is replaced by a call of the writing accessor. -/
theorem texts_plainAssignmentEffect {node left right : Node} {edit : Edit.Operation}
    (member : edit ∈ (plainAssignmentEffect node left right).edits) :
    edit.text = "$uperEq(".toList ++ keyLiteral left ++ ",".toList ∨
      edit.text ∈ ["$uperEq(", ",", ")"].map String.toList := by
  unfold plainAssignmentEffect at member
  rcases Effect.mem_edits_andThen member with opened | later
  · split at opened
    · split at opened
      · simp [Effect.failing] at opened
      · right
        rcases by simpa [Effect.ofEdits] using opened with rfl | rfl <;> simp [Edit.Operation.text]
    · left
      obtain rfl := by simpa [Effect.ofEdits] using opened
      rfl
  · right
    rcases Effect.mem_edits_andThen later with closed | taken
    · obtain rfl := by simpa [Effect.ofEdits] using closed
      simp [Edit.Operation.text]
    · simp [Effect.taking] at taken

/-- The slots up to the one that belongs to the innermost scope lead through no scope. -/
theorem exists_home {trail : Trail} {slot : Node × Field} {rest : Trail}
    (homed : home trail = slot :: rest) :
    ∃ inner, trail = inner ++ slot :: rest ∧ throughArrows inner = true ∧ belongs slot = true := by
  refine ⟨trail.takeWhile fun slot => !belongs slot, ?_, ?_, ?_⟩
  · rw [← homed]
    exact (List.takeWhile_append_dropWhile ..).symm
  · have none : scopeChain (trail.takeWhile fun slot => !belongs slot) = [] := by
      rw [scopeChain, List.filter_eq_nil_iff]
      intro slot member
      simpa using List.mem_takeWhile_imp member
    simp [throughArrows, none]
  · have first := List.head?_dropWhile_not (fun slot => !belongs slot) trail
    rw [← home, homed] at first
    simpa using first

theorem exists_home_of_inLoweredBody {trail : Trail} (lowered : inLoweredBody trail = true) :
    ∃ slot rest, home trail = slot :: rest ∧ slot.1.flags.isAsync = true ∧ slot.2 ≠ .params := by
  unfold inLoweredBody at lowered
  cases homed : home trail with
  | nil => simp [homed] at lowered
  | cons slot rest =>
    rw [homed] at lowered
    exact ⟨slot, rest, rfl, by simpa using lowered⟩

/-- What a subtree takes has been taken by the record of the scope in which it is
evaluated. -/
theorem takes_enclosing {root node : Node} {trail rest : Trail} {slot : Node × Field}
    {capture : Capture} (leads : Leads root trail node) (homed : home trail = slot :: rest)
    (taken : (takenIn node (scopeAlong {} trail) trail.head?).takes capture = true) (scope : Scope) :
    Leads root rest slot.1 ∧ slot.1.opensScope = true ∧
      (ownRecord slot.1 scope).takes capture = true := by
  obtain ⟨inner, rfl, arrows, own⟩ := exists_home homed
  obtain ⟨above, below⟩ := leads.split
  refine ⟨above, opensScope_of_belongs own, ?_⟩
  obtain ⟨trail, source, further, passing, taken⟩ := (takes_takenIn _ _ _ capture).mp taken
  rw [takes_ownRecord slot.1 scope (scopeAlong {} rest) capture]
  refine ⟨trail ++ (inner ++ [slot]), source, below.append further, ?_, ?_⟩
  · rw [← List.append_assoc, reachesRecord_concat, own, throughArrows_append, passing, arrows]
    rfl
  · simpa [List.head?_append] using taken

/-! ### Bound accessors -/

section Walked

variable {root : Node} {start final : State} {accessor : Accessor}

end Walked

end Unawait.Lowering
