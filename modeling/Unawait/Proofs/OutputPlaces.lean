import Mathlib
import Unawait.Proofs.FileIndependence
import Unawait.Proofs.PathPlaces
import Unawait.Proofs.SortedEntries

/-!
# Where outputs end up

A command writes its outputs one after another, and a later one replaces an earlier one at
the same place. The output of a file that was given goes to its last component below the
output folder, whatever folder the file is in, and that of a file below a given folder to
its path from there; a source map has `.map` behind the name of its output. So an output
is still there after a run, and alone at its place, exactly if no other input has the same
path below the output folder, with or without `.map`.
-/

namespace Unawait

namespace Files

variable {files : Files} {place : List Text}

/-! ### The last text at a place -/

/-- The text that is written to a place last. -/
def lastText? (files : Files) (place : List Text) : List (Text × Text) → Option Text
  | [] => none
  | output :: rest =>
    (lastText? files place rest).or
      (if files.place? output.1 = some place then some output.2 else none)

theorem lastText_append (first second : List (Text × Text)) :
    files.lastText? place (first ++ second) =
      (files.lastText? place second).or (files.lastText? place first) := by
  induction first with
  | nil => simp [lastText?]
  | cons output rest ih => rw [List.cons_append, lastText?, ih, Option.or_assoc, lastText?]

theorem lastText_eq_none {outputs : List (Text × Text)}
    (elsewhere : ∀ output ∈ outputs, files.place? output.1 ≠ some place) :
    files.lastText? place outputs = none := by
  induction outputs with
  | nil => rfl
  | cons output rest ih =>
    rw [lastText?, ih fun other member => elsewhere other (by simp [member]),
      if_neg (elsewhere output (by simp))]
    rfl

theorem lastText_put (other : List Text) (text : Text) (outputs : List (Text × Text)) :
    (files.put other text).lastText? place outputs = files.lastText? place outputs := by
  induction outputs with
  | nil => rfl
  | cons output rest ih => rw [lastText?, lastText?, ih, place_put]

theorem write_eq_ok {path text : Text} {after : Files}
    (written : files.write path text = .ok after) :
    ∃ place, files.place? path = some place ∧ after = files.put place text := by
  unfold write at written
  rw [← place?] at written
  cases named : files.place? path with
  | none => simp [named] at written
  | some place =>
    simp only [named] at written
    split at written
    · simp at written
    · exact ⟨place, rfl, (Except.ok.inj written).symm⟩

/-! ### Files below a place -/

/-- The components of a file from a place on, if it is below the place. -/
def seenFrom (place stored : List Text) : Option (List Text) :=
  if place.isPrefixOf stored && place.length < stored.length then some (stored.drop place.length)
  else none

theorem seenFrom_eq_some_iff {stored components : List Text} :
    seenFrom place stored = some components ↔ components ≠ [] ∧ stored = place ++ components := by
  rw [seenFrom, Option.ite_none_right_eq_some, Bool.and_eq_true, List.isPrefixOf_iff_prefix,
    decide_eq_true_eq, Option.some.injEq]
  constructor
  · rintro ⟨⟨⟨rest, rfl⟩, long⟩, rfl⟩
    rw [List.drop_left]
    exact ⟨by rintro rfl; simp at long, rfl⟩
  · rintro ⟨filled, rfl⟩
    have long := List.length_pos_iff.mpr filled
    exact ⟨⟨List.prefix_append _ _, by simpa using long⟩, List.drop_left⟩

theorem below_eq (path : Text) : files.below path =
    (files.locate? path).toList.flatMap fun place =>
      (files.entries.map Prod.fst).filterMap (seenFrom place) := by
  unfold below
  cases files.locate? path with
  | none => rfl
  | some place =>
    rw [Option.toList_some, List.flatMap_singleton, List.filterMap_map]
    rfl

end Files

namespace Command

/-! ### Outcomes -/

section Outcomes

variable {host : Host} {force : Bool} {input : Input} {content : Except ReadFault Text}

/-- A file that fails has no output, and every other one has: its own text if it was skipped, and
otherwise that of its transform. -/
theorem ofContent_cases (host : Host) (force : Bool) (input : Input)
    (content : Except ReadFault Text) :
    (∃ fault, Outcome.ofContent host force input content = .ofFault input fault) ∨
      (∃ source, Outcome.ofContent host force input content =
        { input, status := .skipped, code := some source }) ∨
      ∃ result, Outcome.ofContent host force input content = .ofTransformed input result := by
  cases content with
  | error cause => exact .inl ⟨_, rfl⟩
  | ok source =>
    rw [Outcome.ofContent]
    split
    · exact .inr (.inl ⟨source, rfl⟩)
    · split
      next result _ => exact .inr (.inr ⟨result, rfl⟩)
      next fault _ => exact .inl ⟨fault, rfl⟩

/-- An outcome that is no failure has an output, and its source map is written behind that. -/
theorem outputs_ofContent (done : (Outcome.ofContent host force input content).status ≠ .failed) :
    ∃ code, (Outcome.ofContent host force input content).code = some code ∧
      (Outcome.ofContent host force input content).outputs = (input.relative, code) ::
        (Outcome.ofContent host force input content).map.toList.map fun map =>
          (input.relative ++ ".map".toList, map) := by
  rcases ofContent_cases host force input content with
    ⟨fault, made⟩ | ⟨source, made⟩ | ⟨result, made⟩
  · rw [made] at done
    exact absurd rfl done
  · exact ⟨source, by rw [made], by rw [made]; rfl⟩
  · exact ⟨_, by rw [made, Outcome.ofTransformed], by rw [made]; rfl⟩

end Outcomes

/-! ### Runs without a failure -/

section Runs

variable {job : Job} {files : Files} {json : Bool}

/-- Of outputs that were all written, the first was put at a place and the others were written
after it. -/
theorem writeAll_cons {folder : Text} {output : Text × Text} {rest : List (Text × Text)}
    {after : Files}
    (ran : (Job.writeAll Files.disk folder (output :: rest)).run files = (.ok (), after)) :
    ∃ place, files.place? (Path.join folder output.1) = some place ∧
      (Job.writeAll Files.disk folder rest).run (files.put place output.2) = (.ok (), after) := by
  rw [Job.writeAll] at ran
  cases written : files.write (Path.join folder output.1) output.2 with
  | error reason =>
    rw [run_bind (run_write_of_error written)] at ran
    exact absurd (congrArg Prod.fst ran) (by simp [StateT.run, pure, StateT.pure])
  | ok next =>
    rw [run_bind (run_write_of_ok written)] at ran
    obtain ⟨place, named, rfl⟩ := Files.write_eq_ok written
    exact ⟨place, named, ran⟩

variable {folder : Text} {outputs : List (Text × Text)} {after : Files}

theorem exists_place_of_writeAll
    (ran : (Job.writeAll Files.disk folder outputs).run files = (.ok (), after)) :
    ∀ output ∈ outputs, ∃ place, files.place? (Path.join folder output.1) = some place := by
  induction outputs generalizing files with
  | nil => simp
  | cons output rest ih =>
    obtain ⟨first, named, ran⟩ := writeAll_cons ran
    have later := ih ran
    simp only [Files.place_put] at later
    exact List.forall_mem_cons.mpr ⟨⟨first, named⟩, later⟩

/-- After outputs were all written, each place has the text that was written to it last. -/
theorem find_of_writeAll
    (ran : (Job.writeAll Files.disk folder outputs).run files = (.ok (), after))
    (place : List Text) :
    after.find? place = ((files.lastText? place (outputs.map fun output =>
      (Path.join folder output.1, output.2))).map some).or (files.find? place) := by
  induction outputs generalizing files with
  | nil =>
    obtain rfl : files = after := congrArg Prod.snd ran
    rfl
  | cons output rest ih =>
    obtain ⟨first, named, ran⟩ := writeAll_cons ran
    rw [ih ran, Files.lastText_put, Files.find_put, List.map_cons, Files.lastText?, named]
    cases files.lastText? place (rest.map fun output => (Path.join folder output.1, output.2)) with
    | some text => rfl
    | none =>
      by_cases here : place = first
      · simp [here]
      · simp [here, Ne.symm here]

/-- A run with an output folder that ends well has found its host and its inputs, no input has
failed, and all outputs were written. -/
theorem exists_of_exit_zero {out : Text} (toFolder : job.task.outFolder = some out)
    (done : ((job.run Files.disk json).run files).1.exit = 0) :
    ∃ host inputs, job.hostOn files = .ok host ∧ job.inputsOn files job.task.paths = .ok inputs ∧
      (∀ input ∈ inputs, (job.outcomeOn files host input).status ≠ .failed) ∧
      (Job.writeAll Files.disk (Path.join job.folder out)
        (inputs.flatMap fun input => (job.outcomeOn files host input).outputs)).run files =
        (.ok (), ((job.run Files.disk json).run files).2) := by
  cases valid : job.hostOn files with
  | error fault => simp [run_of_invalid_host valid, Ending.ofProblem] at done
  | ok host =>
    cases found : job.inputsOn files job.task.paths with
    | error problem => simp [run_of_invalid_input valid found, Ending.ofProblem] at done
    | ok inputs =>
      refine ⟨host, inputs, rfl, rfl, ?_⟩
      have folder : job.outFolder = some (Path.join job.folder out) := by
        simp [Job.outFolder, toFolder]
      rw [run_of_found toFolder valid found, Job.finish, run_bind (run_outcomes inputs), folder,
        List.flatMap_map] at done ⊢
      cases refused : (inputs.map (job.outcomeOn files host)).any (·.isRefused) with
      | true =>
        rw [refused] at done
        exact absurd (show 101 = 0 from done) (by decide)
      | false =>
        simp only [refused, Bool.false_eq_true, if_false] at done ⊢
        cases ran : (Job.writeAll Files.disk (Path.join job.folder out)
            (inputs.flatMap fun input => (job.outcomeOn files host input).outputs)).run files with
        | mk written after =>
          rw [run_bind ran] at done ⊢
          cases written with
          | error problem => exact absurd (show 1 = 0 from done) (by decide)
          | ok value =>
            refine ⟨?_, rfl⟩
            have ended := (exit_eq_zero_iff (inputs.map (job.outcomeOn files host))
              (some (Path.join job.folder out)) json).mp done
            simpa using ended

end Runs

/-! ### Paths of inputs -/

section Inputs

variable {job : Job} {files : Files} {paths : List Text} {inputs : List Input} {input : Input}

/-- Each input comes from a path that was given. -/
theorem exists_given (found : job.inputsOn files paths = .ok inputs) (member : input ∈ inputs) :
    ∃ given ∈ paths, ∃ there, job.inputsAt files given = .ok there ∧ input ∈ there := by
  induction paths generalizing inputs with
  | nil =>
    obtain rfl : [] = inputs := Except.ok.inj found
    simp at member
  | cons given rest ih =>
    unfold Job.inputsOn at found ih
    rw [List.mapM_cons] at found
    cases here : job.inputsAt files given with
    | error problem =>
      rw [here] at found
      cases found
    | ok first =>
      cases later : rest.mapM (job.inputsAt files) with
      | error problem =>
        rw [here, later] at found
        cases found
      | ok others =>
        rw [here, later] at found
        obtain rfl : first ++ others.flatten = inputs := Except.ok.inj found
        rcases List.mem_append.mp member with front | back
        · exact ⟨given, by simp, first, here, front⟩
        · obtain ⟨other, inside, source⟩ := ih (by rw [later]; rfl) back
          exact ⟨other, by simp [inside], source⟩

theorem components_of_mem_below {path : Text} {components : List Text}
    (member : components ∈ files.below path) :
    components ≠ [] ∧ ∃ entry ∈ files.entries, components <:+ entry.1 := by
  rw [Files.below_eq] at member
  obtain ⟨place, -, inside⟩ := List.mem_flatMap.mp member
  obtain ⟨stored, present, seen⟩ := List.mem_filterMap.mp inside
  obtain ⟨filled, rfl⟩ := Files.seenFrom_eq_some_iff.mp seen
  obtain ⟨entry, held, same⟩ := List.mem_map.mp present
  exact ⟨filled, entry, held, same ▸ List.suffix_append _ _⟩

/-- The path of an output below the output folder is made of names: it is the last component of a
file that was given, or leads to a file from a folder that was given. -/
theorem named_relative (proper : files.Proper) (found : job.inputsOn files paths = .ok inputs)
    (member : input ∈ inputs) : Path.Named input.relative := by
  obtain ⟨given, -, there, here, inside⟩ := exists_given found member
  unfold Job.inputsAt at here
  dsimp only at here
  split at here
  · obtain rfl := Except.ok.inj here
    obtain ⟨components, below, rfl⟩ := List.mem_map.mp inside
    obtain ⟨filled, entry, stored, part⟩ := components_of_mem_below (Sorting.mem_sort.mp below)
    exact ⟨components, filled,
      fun name within => proper.named entry stored name (part.subset within), rfl⟩
  · split at here
    · split at here
      next relative last =>
        obtain rfl := Except.ok.inj here
        obtain rfl := List.mem_singleton.mp inside
        exact .of_isName (Path.isName_of_fileName last)
      next => simp at here
    · simp at here

theorem nodup_below (distinct : (files.entries.map Prod.fst).Nodup) (path : Text) :
    (files.below path).Nodup := by
  rw [Files.below_eq]
  cases files.locate? path with
  | none => exact List.nodup_nil
  | some place =>
    rw [Option.toList_some, List.flatMap_singleton]
    refine distinct.filterMap fun first second components seen other => ?_
    rw [(Files.seenFrom_eq_some_iff.mp seen).2, (Files.seenFrom_eq_some_iff.mp other).2]

/-- Files below one folder have different paths from there. -/
theorem nodup_relative {given : Text} (proper : files.Proper)
    (distinct : (files.entries.map Prod.fst).Nodup)
    (folder : files.isFolder (Path.join job.folder given) = true)
    (found : job.inputsOn files [given] = .ok inputs) : (inputs.map Input.relative).Nodup := by
  have below : inputs = Job.inputsBelow given (files.below (Path.join job.folder given)) := by
    have here : job.inputsAt files given =
        .ok (Job.inputsBelow given (files.below (Path.join job.folder given))) := if_pos folder
    rw [Job.inputsOn, List.mapM_cons, here] at found
    obtain rfl := Except.ok.inj found
    simp
  have sorted : (Sorting.sort Path.precedes (files.below (Path.join job.folder given))).Nodup := by
    rw [Sorting.sort_eq_insertionSort]
    exact (List.perm_insertionSort _ _).nodup_iff.mpr (nodup_below distinct _)
  rw [below, Job.inputsBelow, List.map_map]
  refine sorted.map_on fun first inside second other same => ?_
  have own {components : List Text}
      (member : components ∈
        Sorting.sort Path.precedes (files.below (Path.join job.folder given))) :
      Path.pieces (Path.ofComponents components) = components := by
    obtain ⟨filled, entry, stored, part⟩ := components_of_mem_below (Sorting.mem_sort.mp member)
    exact Path.pieces_ofComponents filled fun name within =>
      (proper.named entry stored name (part.subset within)).1
  rw [← own inside, ← own other]
  exact congrArg Path.pieces same

end Inputs

/-! ### Outputs that are kept -/

/-- The output of an input is still there, at a place where nothing was written for another
input. -/
def Job.Keeps (job : Job) (files after : Files) (host : Host) (folder : Text) (input : Input)
    (others : List Input) : Prop :=
  ∃ code place, (job.outcomeOn files host input).code = some code ∧
    files.place? (Path.join folder input.relative) = some place ∧
    after.find? place = some (some code) ∧
    ∀ other ∈ others, ∀ output ∈ (job.outcomeOn files host other).outputs,
      files.place? (Path.join folder output.1) ≠ some place

/-- No other input has the path of an input below the output folder, and no source map of another
input has it. -/
def Job.Alone (job : Job) (files : Files) (host : Host) (input : Input) (others : List Input) :
    Prop :=
  ∀ other ∈ others, other.relative ≠ input.relative ∧
    ((job.outcomeOn files host other).map.isSome = true →
      other.relative ++ ".map".toList ≠ input.relative)

section Kept

variable {job : Job} {files : Files} {host : Host} {folder : Text} {input other : Input}

/-- The paths of what is written for an input. -/
theorem forall_outputs_iff (property : Text → Prop)
    (done : (job.outcomeOn files host input).status ≠ .failed) :
    (∀ output ∈ (job.outcomeOn files host input).outputs, property output.1) ↔
      property input.relative ∧ ((job.outcomeOn files host input).map.isSome = true →
        property (input.relative ++ ".map".toList)) := by
  obtain ⟨code, -, outputs⟩ := outputs_ofContent done
  rw [Job.outcomeOn, outputs, List.forall_mem_cons]
  cases (Outcome.ofContent host job.task.force input
    (files.read (Path.join job.folder input.path))).map <;> simp

/-- What is written for other inputs has other paths exactly if the input is alone. -/
theorem alone_iff {others : List Input}
    (done : ∀ other ∈ others, (job.outcomeOn files host other).status ≠ .failed) :
    job.Alone files host input others ↔
      ∀ other ∈ others, ∀ output ∈ (job.outcomeOn files host other).outputs,
        output.1 ≠ input.relative :=
  forall₂_congr fun other member =>
    (forall_outputs_iff (· ≠ input.relative) (done other member)).symm

theorem named_output (named : Path.Named input.relative)
    (done : (job.outcomeOn files host input).status ≠ .failed) :
    ∀ output ∈ (job.outcomeOn files host input).outputs, Path.Named output.1 :=
  (forall_outputs_iff Path.Named done).mpr ⟨named, fun _ => named.append (by decide) (by decide)⟩

/-- Of what is written for an input, only its output goes to the place of the output. -/
theorem lastText_outputs (proper : files.Proper) (named : Path.Named input.relative)
    (done : (job.outcomeOn files host input).status ≠ .failed) {place : List Text}
    (there : files.place? (Path.join folder input.relative) = some place) :
    files.lastText? place ((job.outcomeOn files host input).outputs.map fun output =>
      (Path.join folder output.1, output.2)) = (job.outcomeOn files host input).code := by
  obtain ⟨code, coded, outputs⟩ := outputs_ofContent done
  have elsewhere :
      files.place? (Path.join folder (input.relative ++ ".map".toList)) ≠ some place := by
    intro same
    have equal :=
      Files.place_join_inj proper named (named.append (by decide) (by decide)) there same
    simp at equal
  rw [Job.outcomeOn, outputs, coded, List.map_cons, Files.lastText?, there, if_pos rfl,
    Files.lastText_eq_none, Option.none_or]
  simpa using fun _ _ => elsewhere

/-- Where all outputs were written, that of an input is kept exactly if the input is alone. -/
theorem keeps_iff_alone {inputs before behind : List Input} {after : Files} (proper : files.Proper)
    (named : ∀ input ∈ inputs, Path.Named input.relative)
    (done : ∀ input ∈ inputs, (job.outcomeOn files host input).status ≠ .failed)
    (ran : (Job.writeAll Files.disk folder
      (inputs.flatMap fun input => (job.outcomeOn files host input).outputs)).run files =
        (.ok (), after))
    (split : inputs = before ++ input :: behind) :
    job.Keeps files after host folder input (before ++ behind) ↔
      job.Alone files host input (before ++ behind) := by
  have here : input ∈ inputs := by simp [split]
  have others : ∀ other ∈ before ++ behind, other ∈ inputs := by
    intro other member
    rw [split, List.perm_middle.mem_iff]
    exact List.mem_cons_of_mem _ member
  rw [alone_iff fun other member => done other (others other member)]
  constructor
  · rintro ⟨code, place, -, there, -, apart⟩ other member output written same
    exact apart other member output written (same ▸ there)
  · intro apart
    obtain ⟨code, coded, outputs⟩ := outputs_ofContent (done input here)
    have written : (input.relative, code) ∈ (job.outcomeOn files host input).outputs := by
      rw [Job.outcomeOn, outputs]
      exact List.mem_cons_self
    obtain ⟨place, there⟩ := exists_place_of_writeAll ran _
      (List.mem_flatMap.mpr ⟨input, here, written⟩)
    have elsewhere : ∀ other ∈ before ++ behind,
        ∀ output ∈ (job.outcomeOn files host other).outputs,
          files.place? (Path.join folder output.1) ≠ some place := by
      intro other member output written same
      have member' := others other member
      exact apart other member output written (Files.place_join_inj proper
        (named_output (named other member') (done other member') output written)
        (named input here) same there)
    refine ⟨code, place, coded, there, ?_, elsewhere⟩
    have later : files.lastText? place ((behind.flatMap fun other =>
        (job.outcomeOn files host other).outputs).map fun output =>
          (Path.join folder output.1, output.2)) = none := by
      refine Files.lastText_eq_none (List.forall_mem_map.mpr fun output member => ?_)
      obtain ⟨other, inside, written⟩ := List.mem_flatMap.mp member
      exact elsewhere other (List.mem_append_right _ inside) output written
    rw [find_of_writeAll ran, split, List.flatMap_append, List.flatMap_cons, List.map_append,
      List.map_append, Files.lastText_append, Files.lastText_append, later,
      lastText_outputs proper (named input here) (done input here) there, Job.outcomeOn, coded]
    rfl

end Kept

/-- A run with an output folder that ends without a failure. The output of an input is there after
it, at a place where nothing was written for another input, exactly if no other input has the same
path below the output folder and no source map of another input has that path. At every place is
what was written to it last, so that otherwise the output of an earlier input is lost. If one folder
was given and no source map was made, all outputs are there. -/
theorem runOn_keeps_output_iff_alone (files : Files) (arguments : List Text) (request : Request)
    (task : Task) (out : Text) (asked : Request.ofArguments arguments = .ok request)
    (verb : request.verb = .transform task) (toFolder : task.outFolder = some out)
    (proper : files.Proper) (done : (runOn files arguments).1.exit = 0) :
    let job : Job := ⟨request.folder.getD files.root, task⟩
    let folder := Path.join job.folder out
    ∃ host inputs, job.hostOn files = .ok host ∧ job.inputsOn files task.paths = .ok inputs ∧
      (∀ before input behind, inputs = before ++ input :: behind →
        (job.Keeps files (runOn files arguments).2 host folder input (before ++ behind) ↔
          job.Alone files host input (before ++ behind))) ∧
      (∀ place, (runOn files arguments).2.find? place =
        ((files.lastText? place ((inputs.flatMap fun input =>
          (job.outcomeOn files host input).outputs).map fun output =>
            (Path.join folder output.1, output.2))).map some).or (files.find? place)) ∧
      ∀ given, task.paths = [given] → files.isFolder (Path.join job.folder given) = true →
        (files.entries.map Prod.fst).Nodup →
        (∀ input ∈ inputs, (job.outcomeOn files host input).map = none) →
        ∀ before input behind, inputs = before ++ input :: behind →
          job.Keeps files (runOn files arguments).2 host folder input (before ++ behind) := by
  intro job folder
  have same : runOn files arguments = (job.run Files.disk request.json).run files := by
    simp only [runOn, run, asked, verb]
    rfl
  rw [same] at done ⊢
  obtain ⟨host, inputs, valid, found, succeeded, ran⟩ := exists_of_exit_zero toFolder done
  have kept {before behind : List Input} {input : Input}
      (split : inputs = before ++ input :: behind) :=
    keeps_iff_alone proper (fun input => named_relative proper found) succeeded ran split
  refine ⟨host, inputs, valid, found, fun before input behind split => kept split,
    fun place => find_of_writeAll ran place, ?_⟩
  intro given only isFolder distinct plain before input behind split
  refine (kept split).mpr fun other member => ⟨fun equal => ?_, fun map => ?_⟩
  · have apart := nodup_relative proper distinct isFolder (only ▸ found)
    rw [split, (List.perm_middle.map _).nodup_iff, List.map_cons, List.nodup_cons] at apart
    exact apart.1 (equal ▸ List.mem_map_of_mem member)
  · have inside : other ∈ inputs := by
      rw [split, List.perm_middle.mem_iff]
      exact List.mem_cons_of_mem _ member
    simp [plain other inside] at map

/-- Two files with the same name in different folders. -/
def namesakes : Files :=
  { root := "/w".toList
    entries := [(["a".toList, "x.js".toList], some "1".toList),
      (["b".toList, "x.js".toList], some "2".toList)] }

/-- The task of writing what is given to a folder `out`. -/
def taskOf (paths : List Text) : Task :=
  { paths, outFolder := some "out".toList, config := none, noHelpers := false, noFastSkip := false
    sourceMap := false, force := false }

def namesakeHost : Host := { mixedHost with options := {} }

/-- Given one by one the second file replaces the first, and given with the folder around them
both are kept. -/
theorem runOn_keeps_output_iff_alone_namesakes :
    let one := ["transform", "a/x.js", "b/x.js", "--out-dir", "out"].map String.toList
    let whole := ["transform", ".", "--out-dir", "out"].map String.toList
    (runOn namesakes one).1.exit = 0 ∧
      ¬ (Job.mk "/w".toList (taskOf ["a/x.js".toList, "b/x.js".toList])).Keeps namesakes
        (runOn namesakes one).2 namesakeHost "/w/out".toList ⟨"a/x.js".toList, "x.js".toList⟩
        [⟨"b/x.js".toList, "x.js".toList⟩] ∧
      (runOn namesakes one).2.find? ["out".toList, "x.js".toList] = some (some "2".toList) ∧
      (runOn namesakes whole).1.exit = 0 ∧
      (Job.mk "/w".toList (taskOf [".".toList])).Keeps namesakes (runOn namesakes whole).2
        namesakeHost "/w/out".toList ⟨"./a/x.js".toList, "a/x.js".toList⟩
        [⟨"./b/x.js".toList, "b/x.js".toList⟩] := by
  intro one whole
  have proper : namesakes.Proper := ⟨by decide, by decide, by decide +kernel⟩
  have first : (runOn namesakes one).1.exit = 0 := by decide +kernel
  have second : (runOn namesakes whole).1.exit = 0 := by decide +kernel
  obtain ⟨host, inputs, valid, found, lost, last, -⟩ := runOn_keeps_output_iff_alone namesakes one
    ⟨false, none, .transform (taskOf ["a/x.js".toList, "b/x.js".toList])⟩ _ "out".toList
    (by decide +kernel) rfl rfl proper first
  obtain rfl : namesakeHost = host := Except.ok.inj valid
  obtain rfl : [⟨"a/x.js".toList, "x.js".toList⟩, ⟨"b/x.js".toList, "x.js".toList⟩] = inputs :=
    Except.ok.inj found
  obtain ⟨host, inputs, valid, found, -, -, kept⟩ := runOn_keeps_output_iff_alone namesakes whole
    ⟨false, none, .transform (taskOf [".".toList])⟩ _ "out".toList
    (by decide +kernel) rfl rfl proper second
  obtain rfl : namesakeHost = host := Except.ok.inj valid
  obtain rfl :
      [⟨"./a/x.js".toList, "a/x.js".toList⟩, ⟨"./b/x.js".toList, "b/x.js".toList⟩] = inputs :=
    Except.ok.inj found
  refine ⟨first, fun keeps => ?_, ?_, second, ?_⟩
  · have alone := (lost [] _ [_] rfl).mp keeps
    exact (alone ⟨"b/x.js".toList, "x.js".toList⟩ (by simp)).1 rfl
  · rw [last]
    decide +kernel
  · exact kept ".".toList rfl (by decide +kernel) (by decide) (by decide +kernel) [] _ [_] rfl

end Command

end Unawait
