import Unawait.Text.Basic

/-!
# Paths

A path is a text in which slashes divide the components. Empty components and `.`
name nothing, and `..` names the folder around.
-/

namespace Unawait.Path

/-- The pieces of a path between its slashes, which may be empty. -/
def pieces : Text → List Text
  | [] => [[]]
  | '/' :: rest => [] :: pieces rest
  | c :: rest =>
    match pieces rest with
    | [] => [[c]]
    | piece :: more => (c :: piece) :: more

/-- Whether a piece stays in the same folder. -/
def staysPut (piece : Text) : Bool := piece == [] || piece == ['.']

/-- Whether a piece names the folder around. -/
def goesUp (piece : Text) : Bool := piece == ['.', '.']

/-- The last component, unless it is the folder around. -/
def fileName? (path : Text) : Option Text :=
  match ((pieces path).filter (!staysPut ·)).getLast? with
  | some name => if goesUp name then none else some name
  | none => none

/-- What stands behind the last dot of the last component. A dot at its start does
not count. -/
def extension? (path : Text) : Option Text :=
  match fileName? path with
  | none => none
  | some name =>
    let extension := (name.reverse.takeWhile (· != '.')).reverse
    if extension.length + 1 < name.length then some extension else none

/-- Whether a path starts at the root. -/
def isAbsolute : Text → Bool
  | '/' :: _ => true
  | _ => false

/-- A path seen from a folder. -/
def join (folder path : Text) : Text :=
  if isAbsolute path || folder == [] then path
  else if folder.getLast? == some '/' then folder ++ path
  else folder ++ '/' :: path

/-- The path of components one in another. -/
def ofComponents (components : List Text) : Text := Text.joined ['/'] components

/-- Whether one text comes before another or equals it, character by character. -/
def textPrecedes : Text → Text → Bool
  | [], _ => true
  | _ :: _, [] => false
  | c :: rest, d :: more => if c == d then textPrecedes rest more else c < d

/-- Whether components come before others or equal them. -/
def precedes : List Text → List Text → Bool
  | [], _ => true
  | _ :: _, [] => false
  | a :: rest, b :: more => if a == b then precedes rest more else textPrecedes a b

end Unawait.Path
