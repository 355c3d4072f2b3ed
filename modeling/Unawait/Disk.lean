import Unawait.Path

/-!
# Files

What a command asks of the files around it is written down as a `Disk`, so that it
runs on any of them. `Files` is one that is kept in memory: the files below one
folder, where a folder exists as long as something is in it.
-/

namespace Unawait

/-- Why a file gives no text. -/
inductive ReadFault where
  | missing
  /-- The bytes are not UTF-8. -/
  | notText
  | other (reason : Text)
deriving DecidableEq

/-- The wording of a fault. -/
def ReadFault.message : ReadFault → Text
  | missing => "No such file or directory (os error 2)".toList
  | notText => "stream did not contain valid UTF-8".toList
  | other reason => reason

/-- The files that a command works on. Paths are seen from the folder in which the
command was started. -/
structure Disk (m : Type → Type) where
  isFile : Text → m Bool
  isFolder : Text → m Bool
  /-- The components of every file below a folder, seen from there, in any order. -/
  filesBelow : Text → m (List (List Text))
  read : Text → m (Except ReadFault Text)
  /-- Write a file and the folders that it needs. -/
  write : Text → Text → m (Except Text Unit)

/-- Files in memory below one folder, by their components. A file without a text
holds bytes that are not UTF-8. -/
structure Files where
  /-- The path of the folder itself. -/
  root : Text
  entries : List (List Text × Option Text)

namespace Files

/-- The file at a place. -/
def find? (files : Files) (place : List Text) : Option (Option Text) :=
  (files.entries.find? (·.1 == place)).map (·.2)

/-- Whether something is below a place. The folder itself always exists. -/
def hasFolder (files : Files) (place : List Text) : Bool :=
  place.isEmpty ||
    files.entries.any fun entry => place.isPrefixOf entry.1 && place.length < entry.1.length

/-- The pieces of a path as seen from the folder itself; nothing for other roots. -/
def pieces? (files : Files) (path : Text) : Option (List Text) :=
  if path == files.root || path.startsWith (files.root ++ ['/']) then
    some (Path.pieces (path.drop files.root.length))
  else if Path.isAbsolute path then none
  else some (Path.pieces path)

/-- Follow pieces through folders that exist. -/
def follow (files : Files) : List Text → List Text → Option (List Text)
  | place, [] => some place
  | place, piece :: rest =>
    if !files.hasFolder place then none
    else if Path.staysPut piece then follow files place rest
    else if Path.goesUp piece then
      if place.isEmpty then none else follow files place.dropLast rest
    else follow files (place ++ [piece]) rest

/-- The place that a path names, as far as there are folders on the way. -/
def locate? (files : Files) (path : Text) : Option (List Text) :=
  (files.pieces? path).bind (files.follow [])

/-- Whether a path names a file. -/
def isFile (files : Files) (path : Text) : Bool :=
  match files.locate? path with
  | some place => (files.find? place).isSome
  | none => false

/-- Whether a path names a folder. -/
def isFolder (files : Files) (path : Text) : Bool :=
  match files.locate? path with
  | some place => files.hasFolder place
  | none => false

/-- The files below the folder that a path names. -/
def below (files : Files) (path : Text) : List (List Text) :=
  match files.locate? path with
  | some place =>
    files.entries.filterMap fun entry =>
      if place.isPrefixOf entry.1 && place.length < entry.1.length then
        some (entry.1.drop place.length)
      else none
  | none => []

/-- The text of the file that a path names. -/
def read (files : Files) (path : Text) : Except ReadFault Text :=
  match (files.locate? path).bind files.find? with
  | some (some text) => .ok text
  | some none => .error .notText
  | none => .error .missing

/-- The place at which a path is written, where folders are made on the way. -/
def target : List Text → List Text → Option (List Text)
  | place, [] => some place
  | place, piece :: rest =>
    if Path.staysPut piece then target place rest
    else if Path.goesUp piece then if place.isEmpty then none else target place.dropLast rest
    else target (place ++ [piece]) rest

/-- Put a text at a place. -/
def put (files : Files) (place : List Text) (text : Text) : Files :=
  if (files.find? place).isSome then
    { files with
      entries := files.entries.map fun entry =>
        if entry.1 == place then (place, some text) else entry }
  else { files with entries := files.entries ++ [(place, some text)] }

/-- Why nothing can be written at a place: a file stands where a folder would have
to be, or a folder where the file would be. -/
def obstacle? (files : Files) (place : List Text) : Option Text :=
  if (files.find? place.dropLast).isSome then some "File exists (os error 17)".toList
  else if (List.range place.length).any fun n => (files.find? (place.take n)).isSome then
    some "Not a directory (os error 20)".toList
  else if files.hasFolder place then some "Is a directory (os error 21)".toList
  else none

/-- Write a text to a path. -/
def write (files : Files) (path text : Text) : Except Text Files :=
  match (files.pieces? path).bind (target []) with
  | none => .error "Permission denied (os error 13)".toList
  | some place =>
    match files.obstacle? place with
    | some reason => .error reason
    | none => .ok (files.put place text)

/-- Files in memory as a disk. -/
def disk : Disk (StateM Files) where
  isFile path := return (← get).isFile path
  isFolder path := return (← get).isFolder path
  filesBelow path := return (← get).below path
  read path := return (← get).read path
  write path text := do
    match (← get).write path text with
    | .ok files => do
      set files
      pure (.ok ())
    | .error reason => pure (.error reason)

/-- The files that are new in `after` or have another text there. -/
def changes (before after : Files) : List (Text × Text) :=
  after.entries.filterMap fun entry =>
    match entry.2 with
    | some text =>
      if before.find? entry.1 == some (some text) then none
      else some (Path.ofComponents entry.1, text)
    | none => none

end Files

end Unawait
