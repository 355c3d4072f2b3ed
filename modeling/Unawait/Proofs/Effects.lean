import Mathlib
import Unawait.Lowering.Rules
import Unawait.Proofs.EditHistory

/-!
# Steps of the lowering as effects

A step of the lowering looks up tokens, marks records and edits the buffer in
whatever order is convenient. Its effect puts what it does on paper: the calls that
it makes on the buffer, in order, the failure that ends it if it is not the buffer
that refuses, what it charges to the record of the scope, the loops that it counts,
and the functions that the lowered code will call.

The state in which a failing step stops is of no interest to anyone, since a failed
walk has no result, and the outcome of a step forgets it. So a step may mark a
record before or after an edit and still have the same outcome, and an effect need
not say which.
-/

namespace Unawait

/-- Charge what was taken to the innermost record. -/
def Scopes.charge (scopes : Scopes) (taken : Scope) : Scopes :=
  { scopes with current := scopes.current.charge taken }

@[simp] theorem Scope.charge_empty (scope : Scope) : scope.charge {} = scope := by
  simp [Scope.charge]

theorem Scope.charge_assoc (scope first second : Scope) :
    (scope.charge first).charge second = scope.charge (first.charge second) := by
  simp [Scope.charge, Bool.or_assoc]

@[simp] theorem Scopes.charge_empty (scopes : Scopes) : scopes.charge {} = scopes := by
  simp [Scopes.charge]

theorem Scopes.charge_assoc (scopes : Scopes) (first second : Scope) :
    (scopes.charge first).charge second = scopes.charge (first.charge second) := by
  simp [Scopes.charge, Scope.charge_assoc]

theorem Scopes.markThis_eq (scopes : Scopes) :
    scopes.markThis = scopes.charge { usesThis := true } := by
  simp [Scopes.markThis, Scopes.charge, Scope.charge]

theorem Scopes.markArguments_eq (scopes : Scopes) :
    scopes.markArguments = scopes.charge { usesArguments := true } := by
  simp [Scopes.markArguments, Scopes.charge, Scope.charge]

theorem Scopes.markSuper_eq (scopes : Scopes) :
    scopes.markSuper = scopes.charge { usesSuper := true } := by
  simp [Scopes.markSuper, Scopes.charge, Scope.charge]

theorem Scopes.markSuperAssignment_eq (scopes : Scopes) :
    scopes.markSuperAssignment = scopes.charge { assignsSuper := true } := by
  simp [Scopes.markSuperAssignment, Scopes.charge, Scope.charge]

@[simp] theorem Usage.merge_empty (usage : Usage) : usage.merge {} = usage := by
  simp [Usage.merge]

theorem Usage.merge_forAwait (usage : Usage) :
    usage.merge { forAwait := true } = { usage with forAwait := true } := by
  simp [Usage.merge]

theorem Usage.merge_assoc (usage first second : Usage) :
    (usage.merge first).merge second = usage.merge (first.merge second) := by
  simp [Usage.merge, Bool.or_assoc]

/-! ### Results that are evaluated -/

/-- What a result that is no failure comes to, as far as a view shows it. -/
structure Evaluated {α β : Type} (result : Except Failure β) (view : β → α) (value : α) where
  reached : β
  done : result = .ok reached
  shows : view reached = value

def Evaluated.ofView {α β : Type} {view : β → α} {value : α} :
    {result : Except Failure β} → result.toOption.map view = some value →
      Evaluated result view value
  | .ok reached, given => ⟨reached, rfl, Option.some.inj given⟩
  | .error _, given => absurd given (by simp [Except.toOption])

/-- The same with the value spelled out. The characters of a long literal are known, but to read
them back from its bytes is slow. -/
def Evaluated.ofSpelled {α β : Type} {result : Except Failure β} {view : β → α} {value spelled : α}
    (same : value = spelled) (given : result.toOption.map view = some spelled) :
    Evaluated result view value :=
  .ofView (same ▸ given)

theorem Text.toList_literals (a b c d e : Text) :
    (String.ofList a ++ String.ofList b ++ String.ofList c ++ String.ofList d
      ++ String.ofList e).toList = a ++ (b ++ (c ++ (d ++ e))) := by
  simp

end Unawait

namespace Unawait.Lowering

open Edit (Operation)

section Except

variable {α β : Type}

@[simp] theorem ok_bind {ε : Type} (value : α) (next : α → Except ε β) :
    Except.ok value >>= next = next value := rfl

@[simp] theorem error_bind {ε : Type} (failure : ε) (next : α → Except ε β) :
    (Except.error failure : Except ε α) >>= next = .error failure := rfl

/-- The result of a call on the buffer, with its refusal as a failure. -/
def refusable (result : Except Edit.Refusal α) : Except Failure α := result.mapError .refused

@[simp] theorem refusable_ok (value : α) : refusable (.ok value) = .ok value := rfl

@[simp] theorem refusable_error (refusal : Edit.Refusal) :
    refusable (.error refusal : Except Edit.Refusal α) = .error (.refused refusal) := rfl

@[simp] theorem refusable_bind (result : Except Edit.Refusal α)
    (next : α → Except Edit.Refusal β) :
    refusable (result >>= next) = refusable result >>= fun value => refusable (next value) := by
  cases result <;> rfl

end Except

/-! ### Effects -/

/-- What the rules read and never change. -/
structure Reading where
  source : Text
  tokens : Tokens
  lines : Lines

/-- What a state has read. -/
def State.reading (state : State) : Reading := ⟨state.source, state.tokens, state.lines⟩

/-- What a step does to a state. -/
structure Effect where
  /-- The calls on the buffer. -/
  edits : List Operation := []
  /-- The failure after these calls. -/
  failure : Option Failure := none
  /-- What is charged to the innermost record. -/
  taken : Scope := {}
  /-- The number of loops that are lowered. -/
  loops : Nat := 0
  used : Usage := {}

namespace Effect

/-- Make calls on the buffer. -/
def ofEdits (edits : List Operation) : Effect := { edits }

/-- Fail. -/
def failing (failure : Failure) : Effect := { failure := some failure }

/-- Charge what was taken. -/
def taking (taken : Scope) : Effect := { taken }

/-- Count loops, and note what the lowered code will call. -/
def noting (used : Usage) (loops : Nat) : Effect := { used, loops }

/-- One effect after another; nothing follows a failure. -/
def andThen (first second : Effect) : Effect :=
  match first.failure with
  | some _ => first
  | none =>
    { edits := first.edits ++ second.edits
      failure := second.failure
      taken := first.taken.charge second.taken
      loops := first.loops + second.loops
      used := first.used.merge second.used }

@[simp] theorem failure_andThen (first second : Effect) :
    (first.andThen second).failure = none ↔ first.failure = none ∧ second.failure = none := by
  cases failed : first.failure <;> simp [andThen, failed]

theorem edits_andThen {first : Effect} (second : Effect) (done : first.failure = none) :
    (first.andThen second).edits = first.edits ++ second.edits := by
  simp [andThen, done]

theorem taken_andThen {first : Effect} (second : Effect) (done : first.failure = none) :
    (first.andThen second).taken = first.taken.charge second.taken := by
  simp [andThen, done]

theorem taken_andThen_empty {first second : Effect} (here : first.taken = {})
    (after : second.taken = {}) : (first.andThen second).taken = {} := by
  cases failed : first.failure <;> simp [andThen, failed, here, after]

/-- The state after an effect that has left the buffer as given. -/
def settle (effect : Effect) (state : State) (buffer : Edit.Buffer) : State :=
  { state with
    buffer
    scopes := state.scopes.charge effect.taken
    usage := state.usage.merge effect.used
    loops := state.loops + effect.loops }

/-- Let an effect take place. -/
def apply (effect : Effect) (state : State) : Except Failure State := do
  let buffer ← refusable (state.buffer.perform effect.edits)
  match effect.failure with
  | some failure => .error failure
  | none => .ok (effect.settle state buffer)

variable (state : State)

@[simp] theorem apply_none : apply {} state = .ok state := by
  simp [apply, settle, Edit.Buffer.perform]

@[simp] theorem apply_failing (failure : Failure) :
    (failing failure).apply state = .error failure := rfl

@[simp] theorem apply_taking (taken : Scope) :
    (taking taken).apply state = .ok { state with scopes := state.scopes.charge taken } := by
  simp [apply, taking, settle, Edit.Buffer.perform]

@[simp] theorem apply_noting (used : Usage) (loops : Nat) :
    (noting used loops).apply state =
      .ok { state with usage := state.usage.merge used, loops := state.loops + loops } := by
  simp [apply, noting, settle, Edit.Buffer.perform]

@[simp] theorem apply_ofEdits_nil : (ofEdits []).apply state = .ok state := apply_none state

@[simp] theorem apply_ofEdits_cons (operation : Operation) (rest : List Operation) :
    (ofEdits (operation :: rest)).apply state =
      refusable (operation.apply state.buffer) >>=
        fun buffer => (ofEdits rest).apply { state with buffer } := by
  simp [apply, ofEdits, settle, Edit.Buffer.perform]

/-- Two effects one after another take place one after another. -/
@[simp] theorem apply_andThen (first second : Effect) :
    (first.andThen second).apply state = first.apply state >>= second.apply := by
  cases failed : first.failure with
  | some failure => simp [andThen, apply, failed]
  | none =>
    simp only [andThen, apply, failed, Edit.Buffer.perform_append]
    cases state.buffer.perform first.edits with
    | error refusal => rfl
    | ok buffer =>
      simp [apply, settle, Scopes.charge_assoc, Usage.merge_assoc, Nat.add_assoc]

/-- An effect that takes place has no failure and its calls are accepted. -/
theorem apply_eq_ok {effect : Effect} {state next : State} (applied : effect.apply state = .ok next) :
    effect.failure = none ∧ state.buffer.perform effect.edits = .ok next.buffer ∧
      next = effect.settle state next.buffer := by
  simp only [apply] at applied
  cases performed : state.buffer.perform effect.edits with
  | error refusal => simp [performed] at applied
  | ok buffer =>
    cases failed : effect.failure with
    | some failure => simp [performed, failed] at applied
    | none =>
      obtain rfl : effect.settle state buffer = next := by simpa [performed, failed] using applied
      exact ⟨rfl, rfl, rfl⟩

theorem reading_eq {effect : Effect} {state next : State} (applied : effect.apply state = .ok next) :
    next.reading = state.reading := by
  obtain ⟨-, -, settled⟩ := apply_eq_ok applied
  rw [settled]
  rfl

end Effect

/-! ### Outcomes of steps -/

section Outcome

variable {α β : Type}

/-- After a step that succeeds the next one goes on from its state. -/
theorem bind_apply_of_ok {step : Step α} {state after : State} {value : α} (next : α → Step β)
    (done : step state = .ok value after) : (step >>= next) state = next value after := by
  simp only [bind, EStateM.bind, done]

/-- What a step comes to, without the state of a failure. -/
def outcome (step : Step α) (state : State) : Except Failure (α × State) :=
  match step state with
  | .ok value next => .ok (value, next)
  | .error failure _ => .error failure

/-- What a step without a value comes to. -/
def result (step : Step Unit) (state : State) : Except Failure State :=
  outcome step state >>= fun ending => .ok ending.2

theorem result_of_ok {step : Step Unit} {state after : State} (done : step state = .ok () after) :
    result step state = .ok after := by
  simp [result, outcome, done]

theorem result_of_error {step : Step Unit} {state stopped : State} {failure : Failure}
    (failed : step state = .error failure stopped) : result step state = .error failure := by
  simp [result, outcome, failed]

theorem of_result_eq_ok {step : Step Unit} {state final : State}
    (done : result step state = .ok final) : step state = .ok () final := by
  cases ended : step state with
  | error failure stopped => simp [result_of_error ended] at done
  | ok value after =>
    rw [result_of_ok ended] at done
    rw [Except.ok.inj done]

variable (state : State)

@[simp] theorem outcome_pure (value : α) : outcome (pure value) state = .ok (value, state) := rfl

@[simp] theorem outcome_bind (step : Step α) (next : α → Step β) :
    outcome (step >>= next) state =
      outcome step state >>= fun ending => outcome (next ending.1) ending.2 := by
  simp only [outcome, bind, EStateM.bind]
  cases step state <;> rfl

@[simp] theorem outcome_get : outcome get state = .ok (state, state) := rfl

@[simp] theorem outcome_modify (change : State → State) :
    outcome (modify change) state = .ok ((), change state) := rfl

@[simp] theorem outcome_modifyScopes (change : Scopes → Scopes) :
    outcome (modifyScopes change) state =
      .ok ((), { state with scopes := change state.scopes }) := rfl

@[simp] theorem outcome_missing (expected : String) (offset : Nat) :
    outcome (missing expected offset : Step α) state =
      .error (.missingToken expected offset) := rfl

@[simp] theorem outcome_require_some (value : α) (expected : String) (offset : Nat) :
    outcome (require (some value) expected offset) state = .ok (value, state) := rfl

@[simp] theorem outcome_require_none (expected : String) (offset : Nat) :
    outcome (require (none : Option α) expected offset) state =
      .error (.missingToken expected offset) := rfl

@[simp] theorem outcome_unsupported (construct : Construct) (offset : Nat) :
    outcome (unsupported construct offset : Step α) state =
      .error (.unsupported construct ((state.lines.position offset).1 + 1)
        ((state.lines.position offset).2 + 1)) := rfl

theorem outcome_edit (change : Edit.Buffer → Except Edit.Refusal Edit.Buffer) :
    outcome (edit change) state =
      refusable (change state.buffer) >>= fun buffer => .ok ((), { state with buffer }) := by
  simp only [edit, outcome_bind, outcome_get, ok_bind]
  cases change state.buffer <;> rfl

@[simp] theorem outcome_overwrite (start stop : Nat) (text : Text) :
    outcome (overwrite start stop text) state =
      refusable ((Operation.overwrite start stop text).apply state.buffer) >>=
        fun buffer => .ok ((), { state with buffer }) :=
  outcome_edit _ _

@[simp] theorem outcome_remove (start stop : Nat) :
    outcome (remove start stop) state =
      refusable ((Operation.remove start stop).apply state.buffer) >>=
        fun buffer => .ok ((), { state with buffer }) :=
  outcome_edit _ _

@[simp] theorem outcome_insertBefore (offset : Nat) (text : Text) :
    outcome (insertBefore offset text) state =
      refusable ((Operation.insertBefore offset text).apply state.buffer) >>=
        fun buffer => .ok ((), { state with buffer }) :=
  outcome_edit _ _

@[simp] theorem outcome_insertAfter (offset : Nat) (text : Text) :
    outcome (insertAfter offset text) state =
      refusable ((Operation.insertAfter offset text).apply state.buffer) >>=
        fun buffer => .ok ((), { state with buffer }) :=
  outcome_edit _ _

@[simp] theorem outcome_moveRange (start stop destination : Nat) :
    outcome (moveRange start stop destination) state =
      refusable ((Operation.moveRange start stop destination).apply state.buffer) >>=
        fun buffer => .ok ((), { state with buffer }) :=
  outcome_edit _ _

@[simp] theorem result_pure : result (pure ()) state = .ok state := rfl

theorem outcome_eq_result (step : Step Unit) :
    outcome step state = result step state >>= fun next => .ok ((), next) := by
  cases done : outcome step state <;> simp [result, done]

theorem result_bind (step next : Step Unit) :
    result (step >>= fun _ => next) state = result step state >>= result next := by
  rw [result, outcome_bind, outcome_eq_result]
  cases result step state <;> rfl

/-- A step and then another one have one effect after the other. The second effect
may depend on what was read. -/
theorem result_andThen {step next : Step Unit} {first second : Effect}
    (here : result step state = first.apply state)
    (after : ∀ later : State, later.reading = state.reading →
      result next later = second.apply later) :
    result (step >>= fun _ => next) state = (first.andThen second).apply state := by
  rw [result_bind, here, Effect.apply_andThen]
  cases applied : first.apply state with
  | error failure => rfl
  | ok later => exact after later (Effect.reading_eq applied)

end Outcome

end Unawait.Lowering
