import Mathlib
import Unawait.Proofs.Acceptance
import Unawait.Proofs.WalkEffect

/-!
# The script of a walk

The script of a subtree lists the calls that a walk makes there, as if nothing could
fail: the marks of the node, the scripts of its parts, the calls of the rule for the
node. A walk plays its script from the beginning, to the end unless it fails, so a
property of all calls of a script, or of all pairs of them, is one of the walk.
-/

namespace Unawait.Lowering

open Edit (Operation)

/-- The calls that a walk makes in a subtree if nothing fails. -/
def script (reading : Reading) (sourceMap : Bool) : Node → Place → List Operation :=
  placedFold fun node place parts =>
    markEdits sourceMap node ++ (parts.flatMap Prod.snd ++ (nodeEffect reading node place).edits)

/-- The scripts of parts one after another. -/
def partsScript (reading : Reading) (sourceMap : Bool)
    (parts : List ((Field × Node) × Place)) : List Operation :=
  parts.flatMap fun placed => script reading sourceMap placed.1.2 placed.2

section Script

variable (reading : Reading) (sourceMap : Bool)

theorem script_eq (node : Node) (place : Place) :
    script reading sourceMap node place =
      markEdits sourceMap node ++ (partsScript reading sourceMap (places node place)
        ++ (nodeEffect reading node place).edits) := by
  rw [script, placedFold_eq, List.flatMap_map]
  rfl

end Script

/-! ### Playing a script -/

/-- An effect makes calls of a list from the beginning, and all of them unless it fails. -/
structure Effect.Plays (effect : Effect) (calls : List Operation) : Prop where
  begins : effect.edits <+: calls
  ends : effect.failure = none → effect.edits = calls

namespace Effect.Plays

theorem self (effect : Effect) : effect.Plays effect.edits := ⟨List.prefix_rfl, fun _ => rfl⟩

theorem andThen {first second : Effect} {calls later : List Operation} (here : first.Plays calls)
    (after : second.Plays later) : (first.andThen second).Plays (calls ++ later) := by
  cases failed : first.failure with
  | some failure =>
    have same : first.andThen second = first := by simp [Effect.andThen, failed]
    rw [same]
    exact ⟨here.begins.trans (List.prefix_append calls later), by simp [failed]⟩
  | none =>
    have whole : (first.andThen second).edits = calls ++ second.edits := by
      rw [Effect.edits_andThen second failed, here.ends failed]
    refine ⟨?_, fun done => ?_⟩
    · rw [whole]
      exact (List.prefix_append_right_inj calls).mpr after.begins
    · rw [whole, after.ends ((Effect.failure_andThen first second).mp done).2]

end Effect.Plays

theorem Effect.failure_of_andThen {first second : Effect} {failure : Failure}
    (failed : (first.andThen second).failure = some failure) :
    first.failure = some failure ∨ second.failure = some failure := by
  cases here : first.failure <;> simp_all [Effect.andThen]

section Plays

variable {reading : Reading} {sourceMap : Bool}

/-- The effect of a visit plays the script of the subtree. -/
theorem plays (node : Node) (place : Place) :
    (visitEffect reading sourceMap node place).Plays (script reading sourceMap node place) := by
  induction node using Node.parts_induction generalizing place with
  | _ node ih =>
    rw [visitEffect_eq, script_eq]
    refine (Effect.Plays.self _).andThen (Effect.Plays.andThen ?_ (Effect.Plays.self _))
    have each : ∀ placed ∈ places node place,
        (visitEffect reading sourceMap placed.1.2 placed.2).Plays
          (script reading sourceMap placed.1.2 placed.2) :=
      fun placed member => ih placed.1 (mem_parts_of_places member) placed.2
    generalize places node place = parts at each
    induction parts with
    | nil => exact Effect.Plays.self _
    | cons placed rest restPlays =>
      exact (each placed (by simp)).andThen
        (restPlays fun other member => each other (by simp [member]))

theorem Effect.failure_sequence {effects : List Effect} {failure : Failure}
    (failed : (Effect.sequence effects).failure = some failure) :
    ∃ effect ∈ effects, effect.failure = some failure := by
  induction effects with
  | nil => simp [Effect.sequence] at failed
  | cons effect rest ih =>
    rcases Effect.failure_of_andThen failed with here | later
    · exact ⟨effect, by simp, here⟩
    · obtain ⟨other, member, same⟩ := ih later
      exact ⟨other, by simp [member], same⟩

/-- A visit fails because a visit of a part does or because the rule for the node does. -/
theorem failure_visitEffect {node : Node} {place : Place} {failure : Failure}
    (failed : (visitEffect reading sourceMap node place).failure = some failure) :
    (∃ placed ∈ places node place,
        (visitEffect reading sourceMap placed.1.2 placed.2).failure = some failure) ∨
      (nodeEffect reading node place).failure = some failure := by
  rw [visitEffect_eq] at failed
  rcases Effect.failure_of_andThen failed with marked | failed
  · simp [Effect.ofEdits] at marked
  rcases Effect.failure_of_andThen failed with inside | own
  · obtain ⟨effect, member, same⟩ := Effect.failure_sequence inside
    obtain ⟨placed, part, rfl⟩ := List.mem_map.mp member
    exact .inl ⟨placed, part, same⟩
  · exact .inr own

end Plays

end Unawait.Lowering
