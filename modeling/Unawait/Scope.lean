import Unawait.Tree.Node

/-!
# What functions capture

A lowered function runs its body inside a generator, which has a receiver and
arguments of its own and cannot say `super`. So it is recorded for each function
what its code takes from the function itself. One record stands for each construct
with a receiver of its own and one for each async arrow; a plain arrow has none
and what it takes is charged to the record around it.

The records of the constructs around a place form a stack with the program's
record, which is never async, at the bottom. Parts of a construct that are
evaluated outside it, such as computed keys, are visited with its record put
aside.
-/

namespace Unawait

/-- What the code of one construct takes from its surroundings. -/
structure Scope where
  isAsync : Bool := false
  isGenerator : Bool := false
  isArrow : Bool := false
  usesThis : Bool := false
  usesArguments : Bool := false
  usesSuper : Bool := false
  assignsSuper : Bool := false
  /-- The parameter list is being visited, which runs before the generator exists. -/
  inParams : Bool := false
deriving DecidableEq, Inhabited

namespace Scope

/-- The record of a construct that has taken nothing so far. -/
def ofNode (node : Node) : Scope :=
  { isAsync := node.flags.isAsync, isGenerator := node.flags.isGenerator,
    isArrow := node.is .arrowFunctionExpression }

/-- Whether the construct is an async generator. -/
def isAsyncGenerator (scope : Scope) : Bool := scope.isAsync && scope.isGenerator

/-- The record with what another one has taken charged to it. -/
def charge (scope taken : Scope) : Scope :=
  { scope with
    usesThis := scope.usesThis || taken.usesThis
    usesArguments := scope.usesArguments || taken.usesArguments
    usesSuper := scope.usesSuper || taken.usesSuper
    assignsSuper := scope.assignsSuper || taken.assignsSuper }

end Scope

/-- Whether a construct has a record of its own. -/
def Node.opensScope (node : Node) : Bool :=
  node.kind.ownsReceiver || node.is .arrowFunctionExpression && node.flags.isAsync

/-- The records around a place: the innermost one, those around it from the
inside out, and those put aside, the last one first. -/
structure Scopes where
  current : Scope := {}
  enclosing : List Scope := []
  suspended : List Scope := []
deriving DecidableEq, Inhabited

namespace Scopes

/-- The number of records around the innermost one. -/
def depth (scopes : Scopes) : Nat := scopes.enclosing.length

/-- Make a record the innermost one. -/
def push (scopes : Scopes) (scope : Scope) : Scopes :=
  { scopes with current := scope, enclosing := scopes.current :: scopes.enclosing }

/-- Drop the innermost record and return it. What an arrow has taken is charged
to the record around it. The program's record stays. -/
def pop (scopes : Scopes) : Scope × Scopes :=
  match scopes.enclosing with
  | [] => (scopes.current, scopes)
  | parent :: rest =>
    let dropped := scopes.current
    let current := if dropped.isArrow then parent.charge dropped else parent
    (dropped, { scopes with current, enclosing := rest })

/-- Put the innermost record aside. -/
def suspend (scopes : Scopes) : Scopes :=
  match scopes.enclosing with
  | [] => scopes
  | parent :: rest =>
    { current := parent, enclosing := rest, suspended := scopes.current :: scopes.suspended }

/-- Take back the record that was put aside last. -/
def resume (scopes : Scopes) : Scopes :=
  match scopes.suspended with
  | [] => scopes
  | scope :: rest => { scopes with suspended := rest }.push scope

def enterParams (scopes : Scopes) : Scopes :=
  { scopes with current := { scopes.current with inParams := true } }

def leaveParams (scopes : Scopes) : Scopes :=
  { scopes with current := { scopes.current with inParams := false } }

/-- Whether members of `super` are reached through the generator's accessors. -/
def replacesSuper (scopes : Scopes) : Bool := scopes.current.isAsync && !scopes.current.inParams

def markThis (scopes : Scopes) : Scopes :=
  { scopes with current := { scopes.current with usesThis := true } }

def markArguments (scopes : Scopes) : Scopes :=
  { scopes with current := { scopes.current with usesArguments := true } }

def markSuper (scopes : Scopes) : Scopes :=
  { scopes with current := { scopes.current with usesSuper := true } }

def markSuperAssignment (scopes : Scopes) : Scopes :=
  { scopes with current := { scopes.current with assignsSuper := true } }

end Scopes

end Unawait
