import Unawait.Command.Outcome
import Unawait.Json.Layout

/-!
# What a command prints

A result is printed either for people or as JSON. For people a failed file is a line
of its own and the command itself fails with a problem; JSON says everything in
one document.
-/

namespace Unawait.Command

/-- Why a command failed as a whole. -/
inductive Problem where
  | host (fault : HostFault)
  | noSuchInput (given : Text)
  | noFile (given : Text)
  | outFolderNeeded (count : Nat)
  | unwritable (reason : Text)
  | failures (failed total : Nat)
deriving DecidableEq

namespace Problem

/-- The wording of a problem. -/
def message : Problem → Text
  | host fault => fault.message
  | noSuchInput given => "no such file or directory: ".toList ++ given
  | noFile given => "not a file: ".toList ++ given
  | outFolderNeeded count =>
    "--out-dir is required when transforming ".toList ++ Text.ofNat count ++ " files".toList
  | unwritable reason => reason
  | failures failed total =>
    Text.ofNat failed ++ " of ".toList ++ Text.ofNat total ++ " files failed to transform".toList

/-- Whether a problem goes back to another one. -/
def hasCause : Problem → Bool
  | host _ => true
  | _ => false

end Problem

/-- The end of a command. -/
structure Ending where
  exit : Nat := 0
  /-- What it printed. -/
  output : Text := []
  /-- Lines about files that failed. -/
  complaints : List Text := []
  problem : Option Problem := none

namespace Ending

/-- The end by a problem. -/
def ofProblem (problem : Problem) : Ending := { exit := 1, problem := some problem }

end Ending

open Json

/-- The fault of a file as JSON. -/
def faultLayout (fault : HostFault) : Layout :=
  .object [("code", .text (fault.code?.getD "").toList), ("message", .text fault.message)]

/-- An outcome as JSON. -/
def outcomeLayout (withCode : Bool) (outcome : Outcome) : Layout :=
  let fault := outcome.fault.toList.map fun fault => ("error", faultLayout fault)
  let code :=
    if withCode then outcome.code.toList.map fun code => ("code", Layout.text code) else []
  .object ([("path", .text outcome.input.path), ("status", .text outcome.status.name)]
    ++ fault ++ code)

/-- Outcomes and their numbers as JSON. -/
def outcomesLayout (withCode : Bool) (outcomes : List Outcome) : Layout :=
  .object
    [("ok", .bool (countOf .failed outcomes == 0)),
      ("counts", .object
        [("total", .nat outcomes.length),
          ("transformed", .nat (countOf .transformed outcomes)),
          ("unchanged", .nat (countOf .unchanged outcomes)),
          ("skipped", .nat (countOf .skipped outcomes)),
          ("failed", .nat (countOf .failed outcomes))]),
      ("files", .array (outcomes.map (outcomeLayout withCode)))]

/-- A text that ends with a line feed. -/
def withLineFeed (text : Text) : Text :=
  if text.getLast? == some '\n' then text else text ++ ['\n']

/-- The numbers of outcomes and the output folder, for people. -/
def summary (outcomes : List Outcome) (outFolder : Text) : Text :=
  let count (status : Status) : Text :=
    Text.ofNat (countOf status outcomes) ++ ' ' :: status.name
  Text.joined ", ".toList
    [count .transformed, count .unchanged, count .skipped, count .failed]
    ++ " -> ".toList ++ outFolder ++ ['\n']

namespace Ending

/-- The end of a transform, as JSON. The outputs are part of it if they are written
nowhere. -/
def ofOutcomesJson (outcomes : List Outcome) (outFolder : Option Text) : Ending :=
  { exit := if countOf .failed outcomes == 0 then 0 else 1
    output := outcomesLayout outFolder.isNone outcomes 0 ++ ['\n'] }

/-- The end of a transform, for people. -/
def ofOutcomes (outcomes : List Outcome) (outFolder : Option Text) : Ending :=
  let failed := countOf .failed outcomes
  let output :=
    match outFolder with
    | some folder => summary outcomes folder
    | none =>
      match outcomes.head?.bind (·.code) with
      | some code => withLineFeed code
      | none => []
  { exit := if failed == 0 then 0 else 1
    output
    complaints := outcomes.filterMap fun outcome =>
      outcome.fault.map fun fault => "error: ".toList ++ fault.message
    problem := if failed == 0 then none else some (.failures failed outcomes.length) }

/-- The definitions for a usage, as JSON or for people. -/
def ofUsage (usage : Usage) (json : Bool) : Ending :=
  let code := (Prelude.render usage).dropWhile (· == '\n')
  if json then
    let layout := Layout.object
      [("ok", .bool true),
        ("used", .object
          [("asyncFn", .bool usage.asyncFunction),
            ("asyncGenerator", .bool usage.asyncGenerator),
            ("forAwait", .bool usage.forAwait)]),
        ("code", .text code)]
    { output := layout 0 ++ ['\n'] }
  else { output := code ++ ['\n'] }

end Ending

end Unawait.Command
