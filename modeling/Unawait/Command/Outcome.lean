import Unawait.Host

/-!
# What happens to one file

An input is a file with two paths: the one by which it was given and the one at
which its output goes below the output folder. Every input has an outcome, which
does not depend on the other inputs.
-/

namespace Unawait.Command

/-- A file to transform. -/
structure Input where
  path : Text
  /-- Where its output goes, seen from the output folder. -/
  relative : Text
deriving DecidableEq

/-- How an input ended. -/
inductive Status where
  | transformed
  | unchanged
  | skipped
  | failed
deriving DecidableEq

/-- The name of a status. -/
def Status.name : Status → Text
  | transformed => "transformed".toList
  | unchanged => "unchanged".toList
  | skipped => "skipped".toList
  | failed => "failed".toList

/-- What happened to one file. -/
structure Outcome where
  input : Input
  status : Status
  /-- The output, or the text of a file that was skipped. -/
  code : Option Text := none
  map : Option Text := none
  fault : Option HostFault := none

namespace Outcome

/-- The outcome of a failure. -/
def ofFault (input : Input) (fault : HostFault) : Outcome :=
  { input, status := .failed, fault := some fault }

/-- The line that points to the source map of a file. -/
def mapLine (name : Text) : Text :=
  "\n//# sourceMappingURL=".toList ++ name ++ ".map\n".toList

/-- The outcome of a transform. -/
def ofTransformed (input : Input) (result : Transformed) : Outcome :=
  let name := (Path.fileName? input.relative).getD []
  let map := result.map? name
  { input
    status := if result.edited then .transformed else .unchanged
    code := some (if map.isSome then result.code ++ mapLine name else result.code)
    map }

/-- The outcome of an input, given what reading its file gave. -/
def ofContent (host : Host) (force : Bool) (input : Input) (content : Except ReadFault Text) :
    Outcome :=
  match content with
  | .error cause => ofFault input (.unreadable cause)
  | .ok source =>
    if !force && !host.wants input.path then { input, status := .skipped, code := some source }
    else
      match host.transformed input.path source with
      | .ok result => ofTransformed input result
      | .error fault => ofFault input fault

/-- Whether two edits contradicted each other, which nothing is meant to survive. -/
def isRefused (outcome : Outcome) : Bool :=
  match outcome.fault with
  | some fault => fault.code?.isNone
  | none => false

/-- The files to write for an outcome, seen from the output folder. -/
def outputs (outcome : Outcome) : List (Text × Text) :=
  match outcome.code with
  | none => []
  | some code =>
    (outcome.input.relative, code) ::
      outcome.map.toList.map fun map => (outcome.input.relative ++ ".map".toList, map)

end Outcome

/-- How many outcomes have a status. -/
def countOf (status : Status) (outcomes : List Outcome) : Nat :=
  outcomes.countP (·.status == status)

end Unawait.Command
