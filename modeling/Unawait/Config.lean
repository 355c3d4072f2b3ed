import Unawait.Json.Reader
import Unawait.Transform

/-!
# The configuration of a host

A configuration says which files are transformed and with which options. It is one
flat JSON object: three lists of texts and, beside them, the switches of a
transform. What is not there keeps its default and other members are passed over.
A known member that occurs twice is a mismatch.
-/

namespace Unawait

namespace Options

/-- A switch of a transform under its name. -/
structure Switch where
  name : String
  set : Bool → Options → Options

/-- The switches in their order. -/
def switches : List Switch :=
  [⟨"fastSkip", fun value options => { options with fastSkip := value }⟩,
    ⟨"includeHelper", fun value options => { options with includeHelper := value }⟩,
    ⟨"sourceMap", fun value options => { options with sourceMap := value }⟩,
    ⟨"jsx", fun value options => { options with jsx := value }⟩,
    ⟨"typescript", fun value options => { options with typescript := value }⟩]

/-- The switch with a name. -/
def switch? (name : Text) : Option Switch := switches.find? (·.name.toList == name)

/-- Options together with the names of the switches that were met. -/
structure Draft where
  options : Options := {}
  met : List Text := []

open Json in
/-- A member of options that are written as an object. -/
def member (draft : Draft) : Reader Draft := do
  let name ← Reader.string .full
  match switch? name with
  | none => do
    Reader.colon
    Reader.skim
    pure draft
  | some switch =>
    if draft.met.contains name then throw .mismatched
    Reader.colon
    let value ← Reader.bool
    pure { options := switch.set value draft.options, met := name :: draft.met }

open Json in
/-- The elements of options that are written as an array, in the order of the
switches. An array may be shorter but not longer. -/
def elements : List Switch → Bool → Options → Reader Options
  | [], _, options => do
    match ← Reader.ahead? with
    | none => throw .ended
    | some ']' => do
      Reader.drop
      pure options
    | some _ => throw .malformed
  | switch :: rest, first, options => do
    if ← Reader.anotherElement first then
      elements rest false (switch.set (← Reader.bool) options)
    else pure options

open Json in
/-- Options as an object or an array. -/
def reader : Reader Options := do
  match ← Reader.ahead? with
  | none => throw .ended
  | some '[' => do
    Reader.drop
    elements switches true {}
  | some '{' => do
    Reader.drop
    return (← Reader.parts Reader.anotherMember member {}).options
  | some _ => Reader.mismatch

/-- Read options. -/
def ofJson (source : Text) : Except Json.Fault Options := reader.run source

end Options

/-- Which files are transformed, and how. -/
structure Config where
  /-- Patterns of which a path has to match one. Without any, every path will do. -/
  included : List Text := []
  /-- Patterns of which a path may match none. -/
  excluded : List Text := ["**/node_modules/**".toList]
  /-- The extensions of the files, with or without a dot. -/
  extensions : List Text := ["js".toList, "mjs".toList, "cjs".toList, "jsx".toList]
  options : Options := {}

namespace Config

/-- The members of a configuration that were met. The values of switches are kept
until the whole object was read. -/
structure Draft where
  included : Option (List Text) := none
  excluded : Option (List Text) := none
  extensions : Option (List Text) := none
  others : List (Text × Option Bool) := []

open Json in
/-- The value of a list of texts that was not met before. -/
def listOnce (before : Option (List Text)) : Reader (Option (List Text)) := do
  if before.isSome then throw .mismatched
  Reader.colon
  return some (← Reader.texts)

/-- The levels of nesting inside a configuration. -/
def depth : Nat := 126

open Json in
/-- A member of a configuration. -/
def member (draft : Draft) : Reader Draft := do
  let name ← Reader.string .full
  if name == "include".toList then
    return { draft with included := ← listOnce draft.included }
  if name == "exclude".toList then
    return { draft with excluded := ← listOnce draft.excluded }
  if name == "extensions".toList then
    return { draft with extensions := ← listOnce draft.extensions }
  Reader.colon
  let value ← Reader.value .full depth
  pure { draft with others := draft.others ++ [(name, value)] }

/-- Set a switch, if the member is one. -/
def setSwitch (draft : Options.Draft) (entry : Text × Option Bool) :
    Except Json.Fault Options.Draft :=
  match Options.switch? entry.1 with
  | none => pure draft
  | some switch =>
    match entry.2 with
    | some value =>
      if draft.met.contains entry.1 then throw .mismatched
      else pure { options := switch.set value draft.options, met := entry.1 :: draft.met }
    | none => throw .mismatched

/-- The configuration that the members make. -/
def ofDraft (draft : Draft) : Except Json.Fault Config := do
  let defaults : Config := {}
  let switched ← draft.others.foldlM setSwitch {}
  pure
    { included := draft.included.getD defaults.included
      excluded := draft.excluded.getD defaults.excluded
      extensions := draft.extensions.getD defaults.extensions
      options := switched.options }

open Json in
/-- A configuration as an object. -/
def reader : Reader Config := do
  match ← Reader.ahead? with
  | none => throw .ended
  | some '{' => do
    Reader.drop
    let draft ← Reader.parts Reader.anotherMember member {}
    ofDraft draft
  | some _ => Reader.mismatch

/-- Read a configuration. -/
def ofJson (source : Text) : Except Json.Fault Config := reader.run source

/-- The name of the file in which a configuration is looked for. -/
def fileName : Text := "asyncgen.json".toList

end Config

end Unawait
