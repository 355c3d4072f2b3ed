import Unawait.Config
import Unawait.Disk
import Unawait.Glob
import Unawait.Grammar.Program

/-!
# Which files are transformed

A host is a configuration whose patterns were read. A path is transformed if its
extension is one of those wanted, no excluding pattern matches it, and some
including pattern does, unless there is none.
-/

namespace Unawait

/-- Why a host cannot be set up or cannot transform a file. -/
inductive HostFault where
  | unreadable (cause : ReadFault)
  | configUnreadable (path : Text) (cause : ReadFault)
  | configInvalid (path : Text) (cause : Json.Fault)
  | invalidPattern (pattern : Text) (cause : GlobError)
  | untransformed (path : Text) (cause : Failure)
deriving DecidableEq

namespace HostFault

/-- The wording of what is wrong with a configuration. -/
def jsonMessage : Json.Fault → Text
  | .malformed => "not JSON".toList
  | .mismatched => "JSON of another shape".toList
  | .ended => "the text ends too early".toList

/-- The wording of a fault. -/
def message : HostFault → Text
  | unreadable cause => "IO error: ".toList ++ cause.message
  | configUnreadable path cause =>
    "Failed to read config at ".toList ++ path ++ ": ".toList ++ cause.message
  | configInvalid path cause =>
    "Failed to parse config at ".toList ++ path ++ ": ".toList ++ jsonMessage cause
  | invalidPattern pattern cause =>
    "Invalid glob pattern `".toList ++ pattern ++ "`: ".toList ++ cause.message
  | untransformed path cause =>
    "Failed to transform ".toList ++ path ++ ": ".toList ++ cause.message.toList

/-- The code of a fault; a refused edit has none. -/
def code? : HostFault → Option String
  | unreadable _ => some "ASYNCGEN_IO_ERROR"
  | configUnreadable _ _ => some "ASYNCGEN_CONFIG_ERROR"
  | configInvalid _ _ => some "ASYNCGEN_CONFIG_ERROR"
  | invalidPattern _ _ => some "ASYNCGEN_INVALID_PATTERN"
  | untransformed _ cause => cause.code?

end HostFault

/-- The configuration in a file, given what reading the file gave. -/
def Config.load (path : Text) (content : Except ReadFault Text) : Except HostFault Config :=
  match content with
  | .error cause => .error (.configUnreadable path cause)
  | .ok text =>
    match Config.ofJson text with
    | .error cause => .error (.configInvalid path cause)
    | .ok config => .ok config

/-- A configuration whose patterns were read. -/
structure Host where
  included : List Glob
  excluded : List Glob
  /-- In lower case and without a dot in front. -/
  extensions : List Text
  options : Options

namespace Host

/-- Read patterns; the first that is none is a fault. -/
def globs (patterns : List Text) : Except HostFault (List Glob) :=
  patterns.mapM fun pattern =>
    match Glob.ofText pattern with
    | .ok glob => .ok glob
    | .error cause => .error (.invalidPattern pattern cause)

/-- ASCII letters in lower case. -/
def lowerCase (text : Text) : Text := text.map Char.toLower

/-- Set up a host. -/
def ofConfig (config : Config) : Except HostFault Host := do
  let included ← globs config.included
  let excluded ← globs config.excluded
  pure
    { included, excluded
      extensions := config.extensions.map fun extension =>
        lowerCase (extension.dropWhile (· == '.'))
      options := config.options }

/-- The extension of a path in lower case. -/
def extension? (path : Text) : Option Text := (Path.extension? path).map lowerCase

/-- Whether a path is transformed. -/
def wants (host : Host) (path : Text) : Bool :=
  match extension? path with
  | none => false
  | some extension =>
    host.extensions.contains extension && !host.excluded.any (·.covers path) &&
      (host.included.isEmpty || host.included.any (·.covers path))

/-- The extensions of TypeScript files. -/
def typescriptExtensions : List Text := ["ts".toList, "tsx".toList, "mts".toList, "cts".toList]

/-- The options for a path. A TypeScript file may hold JSX only if it says so. -/
def optionsFor (host : Host) (path : Text) : Options :=
  let extension := (extension? path).getD []
  if typescriptExtensions.contains extension then
    { host.options with typescript := true, jsx := extension == "tsx".toList }
  else host.options

/-- Transform the text of a file. -/
def transformed (host : Host) (path source : Text) : Except HostFault Transformed :=
  match transform source (host.optionsFor path) with
  | .ok result => .ok result
  | .error cause => .error (.untransformed path cause)

/-- The text of a file, transformed if its path is wanted. -/
def transformFile (host : Host) (path source : Text) : Except HostFault Text :=
  if host.wants path then (host.transformed path source).map (·.code) else .ok source

end Host

end Unawait
