import Unawait.Json.Decimal

/-!
# Reading JSON of a known shape

A reader takes characters off the front of a text and checks their shape as it
goes, so the first thing that does not fit decides the fault. What has no place in
the wanted shape is read with one of two degrees of care: in full, where strings
have to be Unicode, numbers have to be in range and the nesting is limited, or
skimmed, where only the grammar counts.
-/

namespace Unawait.Json

/-- Why a text could not be read. -/
inductive Fault where
  /-- The text is not JSON. -/
  | malformed
  /-- The text is JSON of another shape. -/
  | mismatched
  /-- The text ends too early. -/
  | ended
deriving DecidableEq

/-- How carefully a value without a place is read. -/
inductive Care where
  | full
  | skimmed
deriving DecidableEq

/-- A step of reading. It takes characters off the front of a text or fails. -/
abbrev Reader := StateT Text (Except Fault)

namespace Reader

/-- The characters that may stand between any two parts. -/
def isBlank (c : Char) : Bool := c == ' ' || c == '\n' || c == '\t' || c == '\r'

/-- The next character. -/
def peek? : Reader (Option Char) := return (← get).head?

/-- Take the next character off. -/
def next? : Reader (Option Char) := do
  let text ← get
  set text.tail
  pure text.head?

/-- Take the next character off, which was looked at before. -/
def drop : Reader Unit := modify List.tail

/-- The next character that is not blank, left in place. -/
def ahead? : Reader (Option Char) := do
  modify (List.dropWhile isBlank)
  peek?

/-- The letters of a word one by one. -/
def spelled : Text → Reader Unit
  | [] => pure ()
  | letter :: rest => do
    match ← next? with
    | none => throw .ended
    | some c => if c == letter then spelled rest else throw .malformed

/-- Fold over the parts of a list. `more` says whether another part follows, given
whether it would be the first one, and takes the end of the list off. -/
def foldParts {σ : Type} (more : Bool → Reader Bool) (part : σ → Reader σ) :
    Nat → Bool → σ → Reader σ
  | 0, _, _ => throw .ended
  | limit + 1, first, state => do
    if ← more first then foldParts more part limit false (← part state) else pure state

/-- Fold over the parts of a list, each of which takes at least one character. -/
def parts {σ : Type} (more : Bool → Reader Bool) (part : σ → Reader σ) (state : σ) : Reader σ := do
  foldParts more part ((← get).length + 1) true state

/-! ## Strings -/

/-- The value of a hexadecimal digit. -/
def hexValue? (c : Char) : Option Nat :=
  if '0' ≤ c ∧ c ≤ '9' then some (c.toNat - '0'.toNat)
  else if 'a' ≤ c ∧ c ≤ 'f' then some (c.toNat - 'a'.toNat + 10)
  else if 'A' ≤ c ∧ c ≤ 'F' then some (c.toNat - 'A'.toNat + 10)
  else none

/-- The four hexadecimal digits of an escape. -/
def unit : Reader Nat := do
  let text ← get
  if Text.bytes text < 4 then throw .ended
  match (text.take 4).mapM hexValue? with
  | none => throw .malformed
  | some digits => do
    set (text.drop 4)
    pure (digits.foldl (fun n digit => n * 16 + digit) 0)

/-- A character that has to follow inside a string. -/
def expected (wanted : Char) : Reader Unit := do
  match ← peek? with
  | none => throw .ended
  | some c => if c == wanted then drop else throw .malformed

/-- The character of an escape by its UTF-16 units. Units of a pair have to stand
together. -/
def character : Reader Char := do
  let high ← unit
  if 0xDC00 ≤ high && high ≤ 0xDFFF then throw .malformed
  if high < 0xD800 || 0xDBFF < high then return Char.ofNat high
  expected '\\'
  expected 'u'
  let low ← unit
  if low < 0xDC00 || 0xDFFF < low then throw .malformed
  pure (Char.ofNat ((high - 0xD800) * 0x400 + (low - 0xDC00) + 0x10000))

/-- The character that a letter behind a backslash stands for. -/
def escaped? (c : Char) : Option Char :=
  match c with
  | '"' => some '"'
  | '\\' => some '\\'
  | '/' => some '/'
  | 'b' => some '\x08'
  | 'f' => some '\x0c'
  | 'n' => some '\n'
  | 'r' => some '\r'
  | 't' => some '\t'
  | _ => none

/-- The rest of an escape. Skimming does not ask whether it is a character. -/
def escape (care : Care) : Reader (Option Char) := do
  match ← next? with
  | none => throw .ended
  | some 'u' =>
    match care with
    | .full => some <$> character
    | .skimmed => do
      let _ ← unit
      pure none
  | some c =>
    match escaped? c with
    | some meant => pure (some meant)
    | none => throw .malformed

/-- Whether a string goes on. The closing quotation mark is taken off. -/
def insideString (_ : Bool) : Reader Bool := do
  match ← peek? with
  | none => throw .ended
  | some '"' => do
    drop
    pure false
  | some _ => pure true

/-- One character of a string, put in front of those read before. -/
def stringPart (care : Care) (before : Text) : Reader Text := do
  match ← next? with
  | none => throw .ended
  | some '\\' =>
    match ← escape care with
    | some c => pure (c :: before)
    | none => pure before
  | some c => if c.toNat < 32 then throw .malformed else pure (c :: before)

/-- The rest of a string whose opening quotation mark was taken off. -/
def string (care : Care) : Reader Text := do
  return (← parts insideString (stringPart care) []).reverse

/-! ## Numbers -/

/-- All digits that follow. -/
def digits : Reader Text := do
  let text ← get
  set (text.dropWhile Char.isDigit)
  pure (text.takeWhile Char.isDigit)

/-- At least one digit. -/
def someDigits (atEnd : Fault) : Reader Text := do
  match ← peek? with
  | none => throw atEnd
  | some c => if c.isDigit then digits else throw .malformed

/-- The digits before the point. A zero stands alone. -/
def wholeDigits (atEnd : Fault) : Reader Text := do
  match ← peek? with
  | some '0' => do
    drop
    match ← peek? with
    | some c => if c.isDigit then throw .malformed else pure ['0']
    | none => pure ['0']
  | _ => someDigits atEnd

/-- The fraction of a number, if there is one. -/
def fraction (atEnd : Fault) (number : Decimal) : Reader Decimal := do
  match ← peek? with
  | some '.' => do
    drop
    pure (number.fraction (← someDigits atEnd))
  | _ => pure number

/-- The exponent of a number, if there is one. -/
def exponent (atEnd : Fault) (number : Decimal) : Reader Decimal := do
  let mark ← peek?
  if mark == some 'e' || mark == some 'E' then
    drop
    let sign ← peek?
    if sign == some '+' || sign == some '-' then drop
    pure (number.scaled (sign == some '-') (← someDigits atEnd))
  else pure number

/-- A number, of which only the range matters. A number that is skimmed and ends
early is malformed. -/
def number (care : Care) : Reader Unit := do
  let atEnd := match care with
    | .full => Fault.ended
    | .skimmed => Fault.malformed
  if (← peek?) == some '-' then drop
  let whole := Decimal.whole {} (← wholeDigits atEnd)
  let value ← exponent atEnd (← fraction atEnd whole)
  if care == .full && value.isOutOfRange then throw .malformed

/-! ## Lists of parts -/

/-- Whether another element of an array follows. -/
def anotherElement (first : Bool) : Reader Bool := do
  match ← ahead? with
  | none => throw .ended
  | some ']' => do
    drop
    pure false
  | some c =>
    if first then pure true
    else if c == ',' then do
      drop
      match ← ahead? with
      | none => throw .ended
      | some ']' => throw .malformed
      | some _ => pure true
    else throw .malformed

/-- The opening quotation mark of a key. -/
def keyMark : Reader Bool := do
  match ← ahead? with
  | none => throw .ended
  | some '"' => do
    drop
    pure true
  | some _ => throw .malformed

/-- Whether another member of an object follows. Its key's opening quotation mark
is taken off. -/
def anotherMember (first : Bool) : Reader Bool := do
  match ← ahead? with
  | none => throw .ended
  | some '}' => do
    drop
    pure false
  | some c =>
    if first then keyMark
    else if c == ',' then do
      drop
      keyMark
    else throw .malformed

/-- The colon between a key and its value. -/
def colon : Reader Unit := do
  match ← ahead? with
  | none => throw .ended
  | some ':' => drop
  | some _ => throw .malformed

/-! ## Values -/

/-- A value without a place. A truth value is kept, anything else dropped. `inner`
reads a value one level further in, if that is allowed. -/
def valueWith (care : Care) (inner : Option (Reader (Option Bool))) : Reader (Option Bool) := do
  match ← ahead? with
  | none => throw .ended
  | some 'n' => do
    spelled "null".toList
    pure none
  | some 't' => do
    spelled "true".toList
    pure (some true)
  | some 'f' => do
    spelled "false".toList
    pure (some false)
  | some '"' => do
    drop
    let _ ← string care
    pure none
  | some '[' =>
    match inner with
    | none => throw .malformed
    | some inner => do
      drop
      parts anotherElement (fun _ => do let _ ← inner) ()
      pure none
  | some '{' =>
    match inner with
    | none => throw .malformed
    | some inner => do
      drop
      parts anotherMember (fun _ => do
        let _ ← string care
        colon
        let _ ← inner) ()
      pure none
  | some c =>
    if c == '-' || c.isDigit then do
      number care
      pure none
    else throw .malformed

/-- A value with at most so many levels of arrays and objects. -/
def value (care : Care) : Nat → Reader (Option Bool)
  | 0 => valueWith care none
  | depth + 1 => valueWith care (some (value care depth))

/-- A value of which only the grammar counts. No text nests deeper than it is long. -/
def skim : Reader Unit := do
  let _ ← value .skimmed (← get).length

/-- Fail at a value of the wrong shape. Its first word has to be there in full. -/
def mismatch {α : Type} : Reader α := do
  match ← peek? with
  | some '[' => throw .mismatched
  | some '{' => throw .mismatched
  | _ =>
    let _ ← valueWith .full none
    throw .mismatched

/-- A truth value. -/
def bool : Reader Bool := do
  match ← ahead? with
  | none => throw .ended
  | some c =>
    if c == 't' || c == 'f' then do
      match ← valueWith .full none with
      | some truth => pure truth
      | none => throw .mismatched
    else mismatch

/-- A string. -/
def text : Reader Text := do
  match ← ahead? with
  | none => throw .ended
  | some '"' => do
    drop
    string .full
  | some _ => mismatch

/-- An array of strings. -/
def texts : Reader (List Text) := do
  match ← ahead? with
  | none => throw .ended
  | some '[' => do
    drop
    parts anotherElement (fun before => return before ++ [← text]) []
  | some _ => mismatch

/-- Read a whole text, behind which only blanks may stand. -/
def run {α : Type} (reader : Reader α) (source : Text) : Except Fault α := do
  let (result, rest) ← StateT.run reader source
  if rest.all isBlank then pure result else throw .malformed

end Reader

end Unawait.Json
