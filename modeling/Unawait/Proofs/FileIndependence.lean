import Mathlib
import Unawait.Command.Run
import Unawait.Proofs.FileWrites
import Unawait.Proofs.HelperUsage

/-!
# Files are transformed independently of each other

A command that transforms files reads before it writes. Setting up the host, finding the
inputs and working out the outcomes leave the files alone, so that the outcome of each input
is a function of the files as they were, and of nothing that happens to another input. What
is written for an input is what the host gives for its path and its text. The command and
the host filter paths and derive options in different places, and agree.

There is one exception. Where the edits of an input contradict each other the whole command
ends at once, and nothing is written for any input.
-/

namespace Unawait.Command

open Files (Writable Wrote)

/-! ### What a command finds -/

namespace Job

/-- The configuration of a job, before its switches. -/
def configOn (job : Job) (files : Files) : Except HostFault Config :=
  let load (path : Text) := Config.load path (files.read path)
  match job.task.config with
  | some path => load (Path.join job.folder path)
  | none =>
    let usual := Path.join job.folder Config.fileName
    if files.isFile usual then load usual else .ok {}

/-- The host of a job. -/
def hostOn (job : Job) (files : Files) : Except HostFault Host := do
  Host.ofConfig (switched job.task (← job.configOn files))

/-- The inputs at a given path. -/
def inputsAt (job : Job) (files : Files) (given : Text) : Except Problem (List Input) :=
  let path := Path.join job.folder given
  if files.isFolder path then .ok (inputsBelow given (files.below path))
  else if files.isFile path then
    match Path.fileName? given with
    | some relative => .ok [{ path := given, relative }]
    | none => .error (.noFile given)
  else .error (.noSuchInput given)

/-- The inputs at given paths. -/
def inputsOn (job : Job) (files : Files) (paths : List Text) : Except Problem (List Input) :=
  (paths.mapM (job.inputsAt files)).map List.flatten

/-- What the host gives for an input. -/
def hook (job : Job) (files : Files) (host : Host) (input : Input) : Except HostFault Text :=
  match files.read (Path.join job.folder input.path) with
  | .error cause => .error (.unreadable cause)
  | .ok source => host.transformFile input.path source

/-- The outcome of an input. -/
def outcomeOn (job : Job) (files : Files) (host : Host) (input : Input) : Outcome :=
  Outcome.ofContent host job.task.force input (files.read (Path.join job.folder input.path))

end Job

/-! ### Reading leaves files alone -/

section Reading

variable {job : Job} {files : Files} {host : Host}

theorem run_bind {α β : Type} {step : StateM Files α} {next : α → StateM Files β} {value : α}
    {after : Files} (ran : step.run files = (value, after)) :
    (step >>= next).run files = (next value).run after := by
  rw [StateT.run_bind, ran]
  rfl

theorem run_host : (job.host Files.disk).run files = (job.hostOn files, files) := by
  have path : (job.configPath Files.disk).run files =
      (match job.task.config with
        | some path => some (Path.join job.folder path)
        | none =>
          let usual := Path.join job.folder Config.fileName
          if files.isFile usual then some usual else none, files) := by
    unfold Job.configPath
    cases job.task.config <;> rfl
  rw [Job.host, run_bind path]
  unfold Job.hostOn Job.configOn
  cases job.task.config with
  | some given => rfl
  | none =>
    dsimp only
    cases files.isFile (Path.join job.folder Config.fileName) <;> rfl

theorem run_inputsOf (given : Text) :
    (job.inputsOf Files.disk given).run files = (job.inputsAt files given, files) := by
  unfold Job.inputsOf Job.inputsAt
  rw [run_bind (rfl : (Files.disk.isFolder (Path.join job.folder given)).run files = _)]
  dsimp only
  cases files.isFolder (Path.join job.folder given) with
  | true => rfl
  | false =>
    rw [if_neg Bool.false_ne_true, if_neg Bool.false_ne_true,
      run_bind (rfl : (Files.disk.isFile (Path.join job.folder given)).run files = _)]
    cases files.isFile (Path.join job.folder given) with
    | false => rfl
    | true => cases Path.fileName? given <;> rfl

theorem run_inputs (paths : List Text) :
    (job.inputs Files.disk paths).run files = (job.inputsOn files paths, files) := by
  induction paths with
  | nil => rfl
  | cons given rest ih =>
    rw [Job.inputs, run_bind (run_inputsOf given)]
    unfold Job.inputsOn at ih ⊢
    rw [List.mapM_cons]
    cases job.inputsAt files given with
    | error problem => rfl
    | ok first =>
      dsimp only
      rw [run_bind ih]
      cases rest.mapM (job.inputsAt files) <;> rfl

theorem run_outcomes (inputs : List Input) :
    (inputs.mapM (job.outcome Files.disk host)).run files =
      (inputs.map (job.outcomeOn files host), files) := by
  induction inputs with
  | nil => rfl
  | cons input rest ih =>
    have first : (job.outcome Files.disk host input).run files =
        (job.outcomeOn files host input, files) := rfl
    rw [List.mapM_cons, run_bind first, run_bind ih]
    rfl

end Reading

/-! ### Writing -/

section Writing

variable {files next : Files} {path text reason : Text}

theorem run_write_of_ok (written : files.write path text = .ok next) :
    (Files.disk.write path text).run files = (.ok (), next) := by
  have got : (get : StateM Files Files).run files = (files, files) := rfl
  rw [Files.disk]
  dsimp only
  rw [run_bind got, written]
  rfl

theorem run_write_of_error (failed : files.write path text = .error reason) :
    (Files.disk.write path text).run files = (.error reason, files) := by
  have got : (get : StateM Files Files).run files = (files, files) := rfl
  rw [Files.disk]
  dsimp only
  rw [run_bind got, failed]
  rfl

end Writing

/-- Outputs that can be written are written, each at its own place. -/
theorem run_writeAll {folder : Text} {outputs : List (Text × Text)} {files : Files}
    (writable : files.Writable (outputs.map fun output => Path.join folder output.1)) :
    ∃ after, (Job.writeAll Files.disk folder outputs).run files = (.ok (), after) ∧
      files.Wrote after (outputs.map fun output => (Path.join folder output.1, output.2)) := by
  induction outputs generalizing files with
  | nil => exact ⟨files, rfl, .nil files⟩
  | cons output rest ih =>
    obtain ⟨place, named, free⟩ := writable.free (Path.join folder output.1) (by simp)
    have written := @Files.write_of_free files place output.2 _ named free
    obtain ⟨after, ran, wrote⟩ := ih (writable.tail named output.2)
    refine ⟨after, ?_, ?_⟩
    · rw [Job.writeAll, run_bind (run_write_of_ok written)]
      exact ran
    · refine Wrote.cons ?_ named wrote
      simpa [Function.comp_def] using writable

/-! ### What is written for an input -/

section Outcomes

variable {job : Job} {files : Files} {host : Host} {input : Input}

/-- Whether a source map is made for an input. -/
def mapped (host : Host) (input : Input) : Bool := host.options.sourceMap && host.wants input.path

/-- The name of the output of an input. -/
def outputName (input : Input) : Text := (Path.fileName? input.relative).getD []

namespace Job

/-- The result of the transform of an input, if its file is text and can be transformed. -/
def resultFor (job : Job) (files : Files) (host : Host) (input : Input) : Option Transformed := do
  let source ← (files.read (Path.join job.folder input.path)).toOption
  (host.transformed input.path source).toOption

/-- The source map for an input. -/
def mapFor (job : Job) (files : Files) (host : Host) (input : Input) : Option Text := do
  (← job.resultFor files host input).map? (outputName input)

/-- The files for an input: what the host gives, with a line that points to the source map if
there is one, and the source map. For an input for which the host gives nothing there is none. -/
def outputsFor (job : Job) (files : Files) (host : Host) (input : Input) : List (Text × Text) :=
  match job.hook files host input with
  | .error _ => []
  | .ok code =>
    if mapped host input then
      (input.relative, code ++ Outcome.mapLine (outputName input)) ::
        (job.mapFor files host input).toList.map fun map => (input.relative ++ ".map".toList, map)
    else [(input.relative, code)]

/-- The status of an input in terms of the host. -/
def statusFor (job : Job) (files : Files) (host : Host) (input : Input) : Status :=
  match job.hook files host input with
  | .error _ => .failed
  | .ok _ =>
    if !host.wants input.path then .skipped
    else if (job.resultFor files host input).any (·.edited) then .transformed
    else .unchanged

end Job

theorem source_of_transform {source : Text} {options : Options} {result : Transformed}
    (done : transform source options = .ok result) :
    result.source = if options.sourceMap then some source else none := by
  rcases Transform.cases_of_ok done with ⟨-, rfl⟩ | ⟨parsed, -, -, lowered⟩
  · rfl
  · obtain ⟨final, -, rfl⟩ := Transform.exists_final lowered
    rfl

/-- A result has a source map if the options of the host ask for it. -/
theorem isSome_map {path source name : Text} {result : Transformed}
    (done : host.transformed path source = .ok result) :
    (result.map? name).isSome = host.options.sourceMap := by
  have options : (host.optionsFor path).sourceMap = host.options.sourceMap := by
    unfold Host.optionsFor
    dsimp only
    split <;> rfl
  unfold Host.transformed at done
  split at done
  next result transformed =>
    obtain rfl := Except.ok.inj done
    rw [Transformed.map?, source_of_transform transformed, options]
    cases host.options.sourceMap <;> rfl
  next => simp at done

theorem fault_of_transformed {path source : Text} {fault : HostFault}
    (failed : host.transformed path source = .error fault) :
    ∃ cause, fault = .untransformed path cause := by
  unfold Host.transformed at failed
  split at failed
  next => simp at failed
  next cause _ => exact ⟨cause, (Except.error.inj failed).symm⟩

/-- An input has failed if the host gives nothing for it, was skipped if its path is not wanted,
and was transformed otherwise. -/
inductive Treated (job : Job) (files : Files) (host : Host) (input : Input) : Prop
  | failed (fault : HostFault) (hook : job.hook files host input = .error fault)
      (outcome : job.outcomeOn files host input = .ofFault input fault)
      (refused : fault.code? = none →
        ∃ refusal, fault = .untransformed input.path (.refused refusal))
  | skipped (source : Text) (unwanted : host.wants input.path = false)
      (hook : job.hook files host input = .ok source)
      (outcome : job.outcomeOn files host input =
        { input, status := .skipped, code := some source })
  | done (source : Text) (result : Transformed)
      (read : files.read (Path.join job.folder input.path) = .ok source)
      (wanted : host.wants input.path = true)
      (transformed : host.transformed input.path source = .ok result)
      (hook : job.hook files host input = .ok result.code)
      (outcome : job.outcomeOn files host input = .ofTransformed input result)

theorem treated (careful : job.task.force = false) : Treated job files host input := by
  cases read : files.read (Path.join job.folder input.path) with
  | error cause =>
    refine .failed (.unreadable cause) ?_ ?_ (by simp [HostFault.code?])
    · simp [Job.hook, read]
    · simp [Job.outcomeOn, read, Outcome.ofContent]
  | ok source =>
    cases wanted : host.wants input.path with
    | false =>
      refine .skipped source wanted ?_ ?_
      · simp [Job.hook, read, Host.transformFile, wanted]
      · simp [Job.outcomeOn, read, Outcome.ofContent, careful, wanted]
    | true =>
      cases transformed : host.transformed input.path source with
      | ok result =>
        refine .done source result read wanted transformed ?_ ?_
        · simp [Job.hook, read, Host.transformFile, wanted, transformed, Except.map]
        · simp [Job.outcomeOn, read, Outcome.ofContent, careful, wanted, transformed]
      | error fault =>
        obtain ⟨cause, rfl⟩ := fault_of_transformed transformed
        refine .failed (.untransformed input.path cause) ?_ ?_ ?_
        · simp [Job.hook, read, Host.transformFile, wanted, transformed, Except.map]
        · simp [Job.outcomeOn, read, Outcome.ofContent, careful, wanted, transformed]
        · intro uncoded
          cases cause with
          | refused refusal => exact ⟨refusal, rfl⟩
          | invalidSource _ _ => simp [HostFault.code?, Failure.code?] at uncoded
          | missingToken _ _ => simp [HostFault.code?, Failure.code?] at uncoded
          | unsupported _ _ _ => simp [HostFault.code?, Failure.code?] at uncoded

/-- What the command writes for an input is what the host gives for it. -/
theorem outputs_outcomeOn (careful : job.task.force = false) :
    (job.outcomeOn files host input).outputs = job.outputsFor files host input := by
  cases @treated job files host input careful with
  | failed fault hook outcome _ =>
    simp [outcome, Job.outputsFor, hook, Outcome.ofFault, Outcome.outputs]
  | skipped source unwanted hook outcome =>
    simp [outcome, Job.outputsFor, hook, mapped, unwanted, Outcome.outputs]
  | done source result read wanted transformed hook outcome =>
    have made := @isSome_map host input.path source (outputName input) result transformed
    have map : job.mapFor files host input = result.map? (outputName input) := by
      simp [Job.mapFor, Job.resultFor, read, transformed, Except.toOption]
    rw [outcome, Job.outputsFor, hook]
    simp only [Outcome.ofTransformed, Outcome.outputs, mapped, wanted, Bool.and_true, map]
    change (input.relative, if (result.map? (outputName input)).isSome then _ else _) :: _ = _
    rw [made]
    cases asked : host.options.sourceMap with
    | true => rfl
    | false =>
      rw [asked, Option.isSome_eq_false_iff, Option.isNone_iff_eq_none] at made
      simp [outputName] at made
      simp [made]

/-- Whether an input ends the whole command: its edits contradict each other. -/
def Job.Aborts (job : Job) (files : Files) (host : Host) (input : Input) : Prop :=
  ∃ refusal, job.hook files host input = .error (.untransformed input.path (.refused refusal))

theorem isRefused_outcomeOn (careful : job.task.force = false) :
    (job.outcomeOn files host input).isRefused = true ↔ job.Aborts files host input := by
  unfold Job.Aborts
  cases @treated job files host input careful with
  | failed fault hook outcome refused =>
    rw [outcome, hook]
    constructor
    · intro uncoded
      obtain ⟨refusal, rfl⟩ := refused (by simpa [Outcome.isRefused, Outcome.ofFault] using uncoded)
      exact ⟨refusal, rfl⟩
    · rintro ⟨refusal, same⟩
      obtain rfl := Except.error.inj same
      rfl
  | skipped source _ hook outcome => simp [outcome, hook, Outcome.isRefused]
  | done source result _ _ _ hook outcome =>
    simp [outcome, hook, Outcome.isRefused, Outcome.ofTransformed]

/-- The command and the host agree on the status of an input. -/
theorem status_outcomeOn (careful : job.task.force = false) :
    (job.outcomeOn files host input).status = job.statusFor files host input := by
  cases @treated job files host input careful with
  | failed fault hook outcome _ => simp [outcome, Job.statusFor, hook, Outcome.ofFault]
  | skipped source unwanted hook outcome => simp [outcome, Job.statusFor, hook, unwanted]
  | done source result read wanted transformed hook outcome =>
    simp [outcome, Job.statusFor, hook, wanted, Outcome.ofTransformed, Job.resultFor, read,
      transformed, Except.toOption]

theorem statusFor_ne_failed_iff :
    job.statusFor files host input ≠ .failed ↔ ∃ code, job.hook files host input = .ok code := by
  unfold Job.statusFor
  cases job.hook files host input with
  | error fault => simp
  | ok code =>
    dsimp only
    split
    · simp
    · split <;> simp

theorem input_outcomeOn (careful : job.task.force = false) :
    (job.outcomeOn files host input).input = input := by
  cases @treated job files host input careful with
  | failed fault _ outcome _ => rw [outcome]; rfl
  | skipped source _ _ outcome => rw [outcome]
  | done source result _ _ _ _ outcome => rw [outcome]; rfl

end Outcomes

/-! ### Numbers -/

/-- Everything has one of the four statuses. -/
theorem counts_partition (statuses : List Status) :
    statuses.count .transformed + statuses.count .unchanged + statuses.count .skipped
      + statuses.count .failed = statuses.length := by
  induction statuses with
  | nil => rfl
  | cons status rest ih =>
    simp only [List.count_cons, List.length_cons]
    cases status <;> simp <;> omega

theorem countOf_outcomes {job : Job} {files : Files} {host : Host}
    (careful : job.task.force = false) (inputs : List Input) (status : Status) :
    countOf status (inputs.map (job.outcomeOn files host)) =
      (inputs.map (job.statusFor files host)).count status := by
  have same : (fun outcome : Outcome => outcome.status == status) ∘ job.outcomeOn files host =
      (fun found => found == status) ∘ job.statusFor files host :=
    funext fun input => by simp only [Function.comp_apply, status_outcomeOn careful]
  rw [countOf, List.count, List.countP_map, List.countP_map, same]

theorem exit_eq_zero_iff (outcomes : List Outcome) (folder : Option Text) (json : Bool) :
    (if json then Ending.ofOutcomesJson outcomes folder else .ofOutcomes outcomes folder).exit = 0 ↔
      ∀ outcome ∈ outcomes, outcome.status ≠ .failed := by
  have none : countOf .failed outcomes = 0 ↔ ∀ outcome ∈ outcomes, outcome.status ≠ .failed := by
    simp [countOf, List.countP_eq_zero]
  have exit : (if json then Ending.ofOutcomesJson outcomes folder
      else .ofOutcomes outcomes folder).exit = if countOf .failed outcomes == 0 then 0 else 1 := by
    cases json <;> rfl
  rw [exit, ← none]
  by_cases zero : countOf .failed outcomes = 0 <;> simp [zero]

/-! ### Whole runs -/

section Runs

variable {job : Job} {files : Files} {host : Host} {inputs : List Input} {json : Bool}

theorem run_of_invalid_host {fault : HostFault} (invalid : job.hostOn files = .error fault) :
    (job.run Files.disk json).run files = (.ofProblem (.host fault), files) := by
  rw [Job.run, run_bind run_host, invalid]
  rfl

theorem run_of_invalid_input {problem : Problem} (valid : job.hostOn files = .ok host)
    (invalid : job.inputsOn files job.task.paths = .error problem) :
    (job.run Files.disk json).run files = (.ofProblem problem, files) := by
  rw [Job.run, run_bind run_host, valid]
  dsimp only
  rw [run_bind (run_inputs _), invalid]
  rfl

/-- A run with an output folder whose host and inputs are found. -/
theorem run_of_found {out : Text} (toFolder : job.task.outFolder = some out)
    (valid : job.hostOn files = .ok host)
    (found : job.inputsOn files job.task.paths = .ok inputs) :
    (job.run Files.disk json).run files = (job.finish Files.disk json host inputs).run files := by
  rw [Job.run, run_bind run_host, valid]
  dsimp only
  rw [run_bind (run_inputs _), found]
  simp [Job.outFolder, toFolder]

theorem finish_of_aborts (careful : job.task.force = false)
    (aborts : ∃ input ∈ inputs, job.Aborts files host input) :
    (job.finish Files.disk json host inputs).run files = ({ exit := 101 }, files) := by
  obtain ⟨input, member, refused⟩ := aborts
  have any : (inputs.map (job.outcomeOn files host)).any (·.isRefused) = true :=
    List.any_eq_true.mpr ⟨_, List.mem_map_of_mem member, (isRefused_outcomeOn careful).mpr refused⟩
  rw [Job.finish, run_bind (run_outcomes inputs), any]
  rfl

theorem finish_of_writable {out : Text} (toFolder : job.task.outFolder = some out)
    (careful : job.task.force = false)
    (none : ∀ input ∈ inputs, ¬ job.Aborts files host input)
    (writable : files.Writable ((inputs.flatMap (job.outputsFor files host)).map fun output =>
      Path.join (Path.join job.folder out) output.1)) :
    ∃ after, (job.finish Files.disk json host inputs).run files =
        (if json then .ofOutcomesJson (inputs.map (job.outcomeOn files host))
            (some (Path.join job.folder out))
          else .ofOutcomes (inputs.map (job.outcomeOn files host))
            (some (Path.join job.folder out)), after) ∧
      files.Wrote after ((inputs.flatMap (job.outputsFor files host)).map fun output =>
        (Path.join (Path.join job.folder out) output.1, output.2)) := by
  have all : (inputs.map (job.outcomeOn files host)).any (·.isRefused) = false := by
    rw [List.any_eq_false]
    intro outcome member
    obtain ⟨input, inside, rfl⟩ := List.mem_map.mp member
    rw [isRefused_outcomeOn careful]
    exact none input inside
  have outputs : (inputs.map (job.outcomeOn files host)).flatMap (·.outputs) =
      inputs.flatMap (job.outputsFor files host) := by
    rw [List.flatMap_map]
    exact List.flatMap_congr fun input _ => outputs_outcomeOn careful
  obtain ⟨after, written, wrote⟩ := run_writeAll writable
  refine ⟨after, ?_, wrote⟩
  have folder : job.outFolder = some (Path.join job.folder out) := by simp [Job.outFolder, toFolder]
  rw [Job.finish, run_bind (run_outcomes inputs), all, folder, outputs]
  simp only [Bool.false_eq_true, if_false]
  rw [run_bind written]
  rfl

end Runs

/-- A run with an output folder that does not force anything. If the configuration, one of its
patterns or a given path is not valid, the run fails with that problem and changes no file. If the
edits of some input contradict each other, the run ends at once and changes no file either.
Otherwise, where the outputs can be written and are apart from each other, the files for each input
are what the host gives for it, no other file has changed, the run succeeds exactly if the host
gives something for each input, and the numbers that it reports are those of the inputs that the
host fails for, does not want, leaves as they are and changes. -/
theorem runOn_treats_files_alone (files : Files) (arguments : List Text) (request : Request)
    (task : Task) (out : Text) (asked : Request.ofArguments arguments = .ok request)
    (verb : request.verb = .transform task) (toFolder : task.outFolder = some out)
    (careful : task.force = false) :
    let job : Job := ⟨request.folder.getD files.root, task⟩
    let folder := Path.join job.folder out
    (∀ fault, job.hostOn files = .error fault →
      runOn files arguments = (.ofProblem (.host fault), files) ∧
        (runOn files arguments).1.exit = 1) ∧
    ∀ host, job.hostOn files = .ok host →
      (∀ problem, job.inputsOn files task.paths = .error problem →
        runOn files arguments = (.ofProblem problem, files) ∧ (runOn files arguments).1.exit = 1) ∧
      ∀ inputs, job.inputsOn files task.paths = .ok inputs →
        ((∃ input ∈ inputs, job.Aborts files host input) →
          runOn files arguments = ({ exit := 101 }, files)) ∧
        ((∀ input ∈ inputs, ¬ job.Aborts files host input) →
          files.Writable ((inputs.flatMap (job.outputsFor files host)).map fun output =>
            Path.join folder output.1) →
          files.Wrote (runOn files arguments).2
            ((inputs.flatMap (job.outputsFor files host)).map fun output =>
              (Path.join folder output.1, output.2)) ∧
          ((runOn files arguments).1.exit = 0 ↔
            ∀ input ∈ inputs, ∃ code, job.hook files host input = .ok code) ∧
          ∃ outcomes, outcomes.map Outcome.input = inputs ∧
            (runOn files arguments).1 = (if request.json then .ofOutcomesJson outcomes (some folder)
              else .ofOutcomes outcomes (some folder)) ∧
            (∀ status, countOf status outcomes =
              (inputs.map (job.statusFor files host)).count status) ∧
            countOf .transformed outcomes + countOf .unchanged outcomes
              + countOf .skipped outcomes + countOf .failed outcomes = inputs.length) := by
  intro job folder
  have same : runOn files arguments = (job.run Files.disk request.json).run files := by
    simp only [runOn, run, asked, verb]
    rfl
  rw [same]
  refine ⟨fun fault invalid => ?_, fun host valid => ⟨fun problem invalid => ?_, fun inputs found =>
    ⟨fun aborts => ?_, fun none writable => ?_⟩⟩⟩
  · rw [run_of_invalid_host invalid]
    exact ⟨rfl, rfl⟩
  · rw [run_of_invalid_input valid invalid]
    exact ⟨rfl, rfl⟩
  · rw [run_of_found toFolder valid found]
    exact finish_of_aborts careful aborts
  · obtain ⟨after, finished, wrote⟩ := finish_of_writable toFolder careful none writable
    rw [run_of_found toFolder valid found, finished]
    have counts := @countOf_outcomes job files host careful inputs
    have status (input : Input) := @status_outcomeOn job files host input careful
    refine ⟨wrote, ?_, inputs.map (job.outcomeOn files host), ?_, rfl, counts, ?_⟩
    · rw [exit_eq_zero_iff, List.forall_mem_map]
      simp only [status, statusFor_ne_failed_iff]
    · have own : Outcome.input ∘ job.outcomeOn files host = id :=
        funext fun input => input_outcomeOn careful
      rw [List.map_map, own, List.map_id]
    · simp only [counts]
      rw [counts_partition, List.length_map]

/-- A folder with a script, a file that is not text, and a file that is no script. -/
def mixedFiles : Files :=
  { root := "/w".toList
    entries := [(["src".toList, "a.js".toList], some "a".toList),
      (["src".toList, "b.js".toList], none), (["src".toList, "c.txt".toList], some "c".toList)] }

def mixedTask : Task :=
  { paths := ["src".toList], outFolder := some "out".toList, config := none, noHelpers := false
    noFastSkip := false, sourceMap := true, force := false }

/-- The host of the task: without a configuration, and with source maps. -/
def mixedHost : Host :=
  { included := [], excluded := [⟨.folders :: "node_modules/".toList.map .literal ++ [.folders]⟩]
    extensions := ["js".toList, "mjs".toList, "cjs".toList, "jsx".toList]
    options := { sourceMap := true } }

def mixedInputs : List Input :=
  ["a.js", "b.js", "c.txt"].map fun name => ⟨"src/".toList ++ name.toList, name.toList⟩

def mixedArguments : List Text :=
  ["transform", "src", "--out-dir", "out", "--source-map"].map String.toList

/-- The file that is not text makes the run fail, and the others are written all the same: the
script with its source map, the other one as it is. -/
theorem runOn_treats_files_alone_mixed :
    (runOn mixedFiles mixedArguments).1.exit ≠ 0 ∧
      (runOn mixedFiles mixedArguments).2.find? ["out".toList, "a.js".toList] =
        some (some ("a".toList ++ Outcome.mapLine "a.js".toList)) ∧
      (runOn mixedFiles mixedArguments).2.find? ["out".toList, "b.js".toList] = none ∧
      (runOn mixedFiles mixedArguments).2.find? ["out".toList, "c.txt".toList] =
        some (some "c".toList) := by
  let job : Job := ⟨"/w".toList, mixedTask⟩
  obtain ⟨-, run⟩ := runOn_treats_files_alone mixedFiles mixedArguments
    ⟨false, none, .transform mixedTask⟩ mixedTask "out".toList (by decide +kernel) rfl rfl rfl
  obtain ⟨-, found⟩ := run mixedHost rfl
  obtain ⟨-, finished⟩ := found mixedInputs rfl
  have outputs : (mixedInputs.flatMap (job.outputsFor mixedFiles mixedHost)).map
      (fun output => Path.join "/w/out".toList output.1) =
      ["/w/out/a.js".toList, "/w/out/a.js.map".toList, "/w/out/c.txt".toList] := by
    decide +kernel
  have writable := @Files.writable_of_places mixedFiles
    ["/w/out/a.js".toList, "/w/out/a.js.map".toList, "/w/out/c.txt".toList]
    [["out".toList, "a.js".toList], ["out".toList, "a.js.map".toList], ["out".toList, "c.txt".toList]]
    (by decide +kernel) (by decide +kernel) (by decide +kernel)
  have steady : ∀ input ∈ mixedInputs,
      (job.outcomeOn mixedFiles mixedHost input).isRefused = false := by
    decide +kernel
  have none : ∀ input ∈ mixedInputs, ¬ job.Aborts mixedFiles mixedHost input := by
    intro input member
    rw [← isRefused_outcomeOn rfl, steady input member]
    exact Bool.false_ne_true
  obtain ⟨wrote, exit, -⟩ := finished none (outputs ▸ writable)
  refine ⟨fun zero => ?_, ?_, ?_, ?_⟩
  · obtain ⟨code, given⟩ := exit.mp zero ⟨"src/b.js".toList, "b.js".toList⟩ (by decide +kernel)
    have unreadable : job.hook mixedFiles mixedHost ⟨"src/b.js".toList, "b.js".toList⟩ =
        .error (.unreadable .notText) := by decide +kernel
    exact absurd (unreadable.symm.trans given) (by simp)
  · exact wrote.texts ("/w/out/a.js".toList, "a".toList ++ Outcome.mapLine "a.js".toList)
      (by decide +kernel) _ (by decide +kernel)
  · rw [wrote.others _ (by decide +kernel)]
    decide +kernel
  · exact wrote.texts ("/w/out/c.txt".toList, "c".toList) (by decide +kernel) _ (by decide +kernel)

end Unawait.Command
