import Unawait.Json.Quoted

/-!
# JSON on indented lines

A value is written for a depth: the number of objects and arrays around it. Each
member or element stands on a line of its own, two spaces further in for each level.
-/

namespace Unawait.Json

/-- A written value, given the depth at which it stands. -/
abbrev Layout := Nat → Text

namespace Layout

/-- A new line at a depth. -/
def newLine (depth : Nat) : Text := '\n' :: List.replicate (2 * depth) ' '

/-- A truth value. -/
def bool (value : Bool) : Layout := fun _ => (if value then "true" else "false").toList

/-- A natural number. -/
def nat (value : Nat) : Layout := fun _ => Text.ofNat value

/-- A string. -/
def text (value : Text) : Layout := fun _ => quoted value

/-- Items between an opening and a closing mark. -/
def enclosed (opening closing : Char) (items : List Layout) : Layout := fun depth =>
  if items.isEmpty then [opening, closing]
  else
    let lines := items.map fun item => newLine (depth + 1) ++ item (depth + 1)
    opening :: Text.joined [','] lines ++ newLine depth ++ [closing]

/-- An array. -/
def array (elements : List Layout) : Layout := enclosed '[' ']' elements

/-- A member of an object. -/
def member (name : String) (value : Layout) : Layout := fun depth =>
  quoted name.toList ++ ": ".toList ++ value depth

/-- An object. -/
def object (members : List (String × Layout)) : Layout :=
  enclosed '\x7b' '\x7d' (members.map fun (name, value) => member name value)

end Layout

end Unawait.Json
