import Unawait.Command.Run

/-!
# The command line

The files of the system as a disk, and the command on them.
-/

namespace Unawait

/-- A path of the system. -/
private def systemPath (path : Text) : IO.FS.DirEntry := ⟨⟨String.ofList path⟩, ""⟩

/-- The fault of an error of the system. -/
private def systemFault (error : IO.Error) : ReadFault :=
  match error with
  | .noFileOrDirectory _ _ _ => .missing
  | error => .other (toString error).toList

/-- The files below a folder that is known by its components. -/
private partial def systemFilesBelow (folder : Text) (components : List Text) :
    IO (List (List Text)) := do
  let entries ← (systemPath folder).root.readDir
  let found ← entries.toList.mapM fun entry => do
    let name := entry.fileName.toList
    let path := Path.join folder name
    match (← entry.path.symlinkMetadata).type with
    | .dir => systemFilesBelow path (components ++ [name])
    | .file => pure [components ++ [name]]
    | _ => pure []
  pure found.flatten

/-- Read a file of the system. -/
private def systemRead (path : Text) : IO (Except ReadFault Text) := do
  try
    let bytes ← IO.FS.readBinFile (String.ofList path)
    match String.fromUTF8? bytes with
    | some text => pure (.ok text.toList)
    | none => pure (.error .notText)
  catch error => pure (.error (systemFault error))

/-- Write a file of the system. -/
private def systemWrite (path text : Text) : IO (Except Text Unit) := do
  try
    match (systemPath path).root.parent with
    | some folder => IO.FS.createDirAll folder
    | none => pure ()
    IO.FS.writeFile (String.ofList path) (String.ofList text)
    pure (.ok ())
  catch error => pure (.error (toString error).toList)

/-- The files of the system as a disk. -/
def systemDisk : Disk IO where
  isFile path := do
    let place := (systemPath path).root
    return (← place.pathExists) && !(← place.isDir)
  isFolder path := (systemPath path).root.isDir
  filesBelow path := systemFilesBelow path []
  read := systemRead
  write := systemWrite

end Unawait

open Unawait in
/-- Run the command in the current folder. -/
def main (arguments : List String) : IO UInt32 := do
  let folder := (← IO.currentDir).toString.toList
  let ending ← Command.run systemDisk folder (arguments.map String.toList)
  if ending.exit == 2 then IO.eprint (String.ofList Command.usageText)
  for line in ending.complaints do
    IO.eprintln (String.ofList line)
  IO.print (String.ofList ending.output)
  match ending.problem with
  | some problem => IO.eprintln ("Error: " ++ String.ofList problem.message)
  | none => pure ()
  return UInt32.ofNat ending.exit
