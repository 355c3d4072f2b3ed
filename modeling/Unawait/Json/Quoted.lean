import Unawait.Text.Basic

/-!
# Quoted texts of JSON

A text is written between quotation marks. The quotation mark, the backslash and
the control characters below the space are escaped and nothing else is.
-/

namespace Unawait.Json

/-- The hexadecimal digit of a value below 16, in lower case. -/
def hexDigit (value : Nat) : Char := (Nat.digitChar value)

/-- A character inside a quoted text. -/
def quotedChar (c : Char) : Text :=
  if c = '"' then ['\\', '"']
  else if c = '\\' then ['\\', '\\']
  else if c = '\x08' then ['\\', 'b']
  else if c = '\t' then ['\\', 't']
  else if c = '\n' then ['\\', 'n']
  else if c = '\x0c' then ['\\', 'f']
  else if c = '\r' then ['\\', 'r']
  else if c.toNat < 32 then
    ['\\', 'u', '0', '0', hexDigit (c.toNat / 16), hexDigit (c.toNat % 16)]
  else [c]

/-- A text between quotation marks. -/
def quoted (text : Text) : Text := '"' :: text.flatMap quotedChar ++ ['"']

end Unawait.Json
