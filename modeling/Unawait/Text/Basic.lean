/-!
# Text measured in UTF-8 bytes and UTF-16 units

A text is the list of its characters. Positions in a text are byte offsets of
its UTF-8 form, so that not every number below the length is a position at which
the text can be cut: an offset inside the bytes of one character is no boundary.
Cutting at such an offset fails, and a slice with such an end is empty.

Columns of a source map count UTF-16 units instead. Both measures are plain sums
over the characters, and nothing here depends on how a text is stored.
-/

namespace Unawait

/-- A text is its characters in order. -/
abbrev Text := List Char

namespace Text

/-- The number of bytes of the UTF-8 form. -/
def bytes : Text → Nat
  | [] => 0
  | c :: rest => c.utf8Size + bytes rest

/-- A character outside the basic plane takes two UTF-16 units, any other one. -/
def unitsOf (c : Char) : Nat := if c.val < 0x10000 then 1 else 2

/-- The number of UTF-16 units. -/
def units : Text → Nat
  | [] => 0
  | c :: rest => unitsOf c + units rest

/-- The text from a byte offset on; nothing if the offset is past the end or
inside a character. -/
def dropBytes? : Text → Nat → Option Text
  | text, 0 => some text
  | [], _ + 1 => none
  | c :: rest, n + 1 => if c.utf8Size ≤ n + 1 then dropBytes? rest (n + 1 - c.utf8Size) else none

/-- The text up to a byte offset; nothing if the offset is past the end or
inside a character. -/
def takeBytes? : Text → Nat → Option Text
  | _, 0 => some []
  | [], _ + 1 => none
  | c :: rest, n + 1 =>
    if c.utf8Size ≤ n + 1 then (takeBytes? rest (n + 1 - c.utf8Size)).map (c :: ·) else none

/-- The text between two byte offsets. Both have to be boundaries in order. -/
def slice? (text : Text) (start stop : Nat) : Option Text :=
  if start ≤ stop then (text.dropBytes? start).bind (·.takeBytes? (stop - start)) else none

/-- The text between two byte offsets, empty where they do not cut the text. -/
def slice (text : Text) (start stop : Nat) : Text := (text.slice? start stop).getD []

/-- The character to which the byte at an offset belongs. -/
def charAt? : Text → Nat → Option Char
  | [], _ => none
  | c :: rest, offset => if offset < c.utf8Size then some c else charAt? rest (offset - c.utf8Size)

/-- Whether one text starts another. -/
def startsWith : Text → Text → Bool
  | _, [] => true
  | [], _ :: _ => false
  | c :: rest, d :: more => c == d && startsWith rest more

/-- Whether a text occurs in another at some place. -/
def occursIn (part : Text) : Text → Bool
  | [] => part.isEmpty
  | c :: rest => startsWith (c :: rest) part || occursIn part rest

/-- The decimal form of a number. -/
def ofNat (n : Nat) : Text := Nat.toDigits 10 n

/-- Texts one after another with a text between neighbours. -/
def joined (between : Text) : List Text → Text
  | [] => []
  | [text] => text
  | text :: rest => text ++ between ++ joined between rest

end Text

end Unawait
