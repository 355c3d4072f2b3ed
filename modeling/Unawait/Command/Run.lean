import Unawait.Command.Arguments
import Unawait.Command.Report
import Unawait.Sorting

/-!
# Running a command

A transform has four steps: set up the host, find the inputs, work out every
outcome, and write the outputs. Nothing is written before all outcomes are known,
so that a problem in the first three steps leaves the files as they are.
-/

namespace Unawait.Command

variable {m : Type → Type} [Monad m]

/-- Where a command works and what it is to do there. -/
structure Job where
  /-- The folder from which paths are seen. -/
  folder : Text
  task : Task

namespace Job

/-- The configuration with the switches of the command on top. -/
def switched (task : Task) (config : Config) : Config :=
  let options := config.options
  { config with
    options :=
      { options with
        includeHelper := options.includeHelper && !task.noHelpers
        fastSkip := options.fastSkip && !task.noFastSkip
        sourceMap := options.sourceMap || task.sourceMap } }

/-- The path of the configuration: the one that is given, else the usual one if it is
there. -/
def configPath (disk : Disk m) (job : Job) : m (Option Text) := do
  match job.task.config with
  | some path => pure (some (Path.join job.folder path))
  | none =>
    let usual := Path.join job.folder Config.fileName
    return if ← disk.isFile usual then some usual else none

/-- Set up the host. -/
def host (disk : Disk m) (job : Job) : m (Except HostFault Host) := do
  match ← job.configPath disk with
  | none => pure (Host.ofConfig (switched job.task {}))
  | some path =>
    let content ← disk.read path
    pure do
      let config ← Config.load path content
      Host.ofConfig (switched job.task config)

/-- The inputs below a folder, in the order of their components. -/
def inputsBelow (given : Text) (found : List (List Text)) : List Input :=
  (Sorting.sort Path.precedes found).map fun components =>
    let relative := Path.ofComponents components
    { path := Path.join given relative, relative }

/-- The inputs of one given path. -/
def inputsOf (disk : Disk m) (job : Job) (given : Text) : m (Except Problem (List Input)) := do
  let path := Path.join job.folder given
  if ← disk.isFolder path then
    return .ok (inputsBelow given (← disk.filesBelow path))
  else if ← disk.isFile path then
    match Path.fileName? given with
    | some relative => return .ok [{ path := given, relative }]
    | none => return .error (.noFile given)
  else return .error (.noSuchInput given)

/-- The inputs of all given paths in their order. -/
def inputs (disk : Disk m) (job : Job) : List Text → m (Except Problem (List Input))
  | [] => pure (.ok [])
  | given :: rest => do
    match ← job.inputsOf disk given with
    | .error problem => pure (.error problem)
    | .ok first =>
      match ← inputs disk job rest with
      | .error problem => pure (.error problem)
      | .ok more => pure (.ok (first ++ more))

/-- The outcome of an input. -/
def outcome (disk : Disk m) (job : Job) (host : Host) (input : Input) : m Outcome := do
  let content ← disk.read (Path.join job.folder input.path)
  pure (Outcome.ofContent host job.task.force input content)

/-- Write files below a folder, up to the first that cannot be written. -/
def writeAll (disk : Disk m) (folder : Text) : List (Text × Text) → m (Except Problem Unit)
  | [] => pure (.ok ())
  | (relative, text) :: rest => do
    match ← disk.write (Path.join folder relative) text with
    | .error reason => pure (.error (.unwritable reason))
    | .ok () => writeAll disk folder rest

/-- The folder for outputs. -/
def outFolder (job : Job) : Option Text := job.task.outFolder.map (Path.join job.folder)

/-- Work out the outcomes and write the outputs. -/
def finish (disk : Disk m) (job : Job) (json : Bool) (host : Host) (inputs : List Input) :
    m Ending := do
  let outcomes ← inputs.mapM (job.outcome disk host)
  if outcomes.any (·.isRefused) then return { exit := 101 }
  let written ←
    match job.outFolder with
    | some folder => writeAll disk folder (outcomes.flatMap (·.outputs))
    | none => pure (.ok ())
  match written with
  | .error problem => return .ofProblem problem
  | .ok () =>
    return if json then .ofOutcomesJson outcomes job.outFolder
      else .ofOutcomes outcomes job.outFolder

/-- Run a transform. -/
def run (disk : Disk m) (job : Job) (json : Bool) : m Ending := do
  match ← job.host disk with
  | .error fault => return .ofProblem (.host fault)
  | .ok host =>
    match ← job.inputs disk job.task.paths with
    | .error problem => return .ofProblem problem
    | .ok inputs =>
      if job.outFolder.isNone && inputs.length != 1 then
        return .ofProblem (.outFolderNeeded inputs.length)
      else job.finish disk json host inputs

end Job

/-- How the command is called. -/
def usageText : Text :=
  ("Usage: asyncgen [--verbose] [--json] [--cwd PATH] transform PATHS... [--out-dir DIR] " ++
    "[--config FILE] [--no-helpers] [--no-fast-skip] [--source-map] [--force]\n" ++
    "       asyncgen [--json] helpers [--async] [--async-gen] [--async-iterator]\n").toList

/-- Run the command in a folder with its arguments. -/
def run (disk : Disk m) (folder : Text) (arguments : List Text) : m Ending :=
  match Request.ofArguments arguments with
  | .error .misuse => pure { exit := 2 }
  | .error .help => pure { output := usageText }
  | .error .version => pure { output := "asyncgen 0.3.0\n".toList }
  | .ok request =>
    match request.verb with
    | .helpers usage => pure (.ofUsage usage request.json)
    | .transform task => Job.run disk ⟨request.folder.getD folder, task⟩ request.json

/-- Run the command on files in memory. -/
def runOn (files : Files) (arguments : List Text) : Ending × Files :=
  (run Files.disk files.root arguments).run files

end Unawait.Command
