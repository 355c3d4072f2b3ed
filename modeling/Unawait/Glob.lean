import Unawait.Text.Basic

/-!
# Glob patterns

A pattern is matched against a whole path as it is written. `?` stands for one
character, `*` for any characters, `**` as a whole component for any folders, and
brackets for one character inside or outside of some ranges. `?` and `*` pass over
slashes too.

Matching tries the shortest stretch first. A pattern that asks for a character
behind the end of the path ends the whole attempt, since longer stretches only
leave less for it.
-/

namespace Unawait

/-- One part of a pattern. -/
inductive GlobPart where
  | literal (c : Char)
  | anyChar
  /-- Any characters. -/
  | stretch
  /-- Any folders, each with its slash. -/
  | folders
  /-- A character in one of the ranges. -/
  | within (ranges : List (Char × Char))
  /-- A character in none of the ranges. -/
  | except (ranges : List (Char × Char))
deriving DecidableEq

/-- What is wrong with a pattern. -/
inductive GlobFlaw where
  | range
  | wildcards
  | component
deriving DecidableEq

/-- A flaw and the index of the character near which it is. -/
structure GlobError where
  position : Nat
  flaw : GlobFlaw
deriving DecidableEq

/-- The wording of an error in a pattern. -/
def GlobError.message (error : GlobError) : Text :=
  "Pattern syntax error near position ".toList ++ Text.ofNat error.position ++ ": ".toList ++
    match error.flaw with
    | .range => "invalid range pattern".toList
    | .wildcards => "wildcards are either regular `*` or recursive `**`".toList
    | .component => "recursive wildcards must form a single path component".toList

/-- A pattern is its parts in order. -/
structure Glob where
  parts : List GlobPart
deriving DecidableEq

namespace Glob

/-! ## Reading -/

/-- The ranges between brackets. A character alone is a range of its own. -/
def ranges : Text → List (Char × Char)
  | low :: '-' :: high :: rest => (low, high) :: ranges rest
  | c :: rest => (c, c) :: ranges rest
  | [] => []

/-- The text between brackets. Its first character is never the closing bracket. -/
def bracketed? : Text → Option Text
  | [] => none
  | first :: rest => if rest.contains ']' then some (first :: rest.takeWhile (· != ']')) else none

/-- The part that starts with an opening bracket, and its length. -/
def bracketPart? : Text → Option (GlobPart × Nat)
  | '!' :: rest => (bracketed? rest).map fun inner => (.except (ranges inner), inner.length + 3)
  | rest => (bracketed? rest).map fun inner => (.within (ranges inner), inner.length + 2)

/-- The part that starts with a star, and its length. `before` is the character in
front of it and `text` starts at the star. -/
def starPart (position : Nat) (before : Option Char) (text : Text) :
    Except GlobError (GlobPart × Nat) :=
  let stars := (text.takeWhile (· == '*')).length
  if stars < 2 then .ok (.stretch, 1)
  else if 2 < stars then .error ⟨position + 2, .wildcards⟩
  else if before.isSome && before != some '/' then .error ⟨position - 1, .component⟩
  else
    match text.drop 2 with
    | [] => .ok (.folders, 2)
    | c :: _ => if c == '/' then .ok (.folders, 3) else .error ⟨position + 2, .component⟩

/-- The first part of a text that is not empty, and its length. -/
def part (position : Nat) (before : Option Char) (first : Char) (rest : Text) :
    Except GlobError (GlobPart × Nat) :=
  match first with
  | '?' => .ok (.anyChar, 1)
  | '*' => starPart position before (first :: rest)
  | '[' =>
    match bracketPart? rest with
    | some found => .ok found
    | none => .error ⟨position, .range⟩
  | c => .ok (.literal c, 1)

/-- Put a part behind others, which are in reverse. Folders behind folders say
nothing new; only at the very start they are kept. -/
def push (parts : List GlobPart) (part : GlobPart) : List GlobPart :=
  if part == .folders && 1 < parts.length && parts.head? == some .folders then parts
  else part :: parts

/-- The parts of a text, in reverse. Each takes at least one character. -/
def collect : Nat → Nat → Option Char → List GlobPart → Text → Except GlobError (List GlobPart)
  | 0, _, _, parts, _ => .ok parts
  | _ + 1, _, _, parts, [] => .ok parts
  | limit + 1, position, before, parts, first :: rest => do
    let (found, length) ← part position before first rest
    let text := first :: rest
    collect limit (position + length) (text.take length).getLast? (push parts found)
      (text.drop length)

/-- Read a pattern. -/
def ofText (text : Text) : Except GlobError Glob := do
  return ⟨(← collect text.length 0 none [] text).reverse⟩

/-! ## Matching -/

/-- How an attempt to match ended. -/
inductive Attempt where
  | matched
  /-- It may succeed further on. -/
  | failed
  /-- The path is too short. -/
  | exhausted
deriving DecidableEq

/-- Whether a part for one character accepts it. -/
def accepts (c : Char) : GlobPart → Bool
  | .literal wanted => c == wanted
  | .anyChar => true
  | .within ranges => ranges.any fun (low, high) => low ≤ c && c ≤ high
  | .except ranges => !ranges.any fun (low, high) => low ≤ c && c ≤ high
  | .stretch => false
  | .folders => false

/-- Try the rest of a pattern behind every character of a path, or only behind its
slashes, and at the end. -/
def further (onlySlashes : Bool) (rest : Text → Attempt) : Text → Attempt
  | [] => rest []
  | c :: path =>
    if onlySlashes && c != '/' then further onlySlashes rest path
    else
      match rest path with
      | .failed => further onlySlashes rest path
      | attempt => attempt

/-- Try the rest of a pattern at once and then further on. -/
def somewhere (onlySlashes : Bool) (rest : Text → Attempt) (path : Text) : Attempt :=
  match rest path with
  | .failed => further onlySlashes rest path
  | attempt => attempt

/-- Match parts against a path. -/
def attempt : List GlobPart → Text → Attempt
  | [], [] => .matched
  | [], _ :: _ => .failed
  | .stretch :: parts, path => somewhere false (attempt parts) path
  | .folders :: parts, path => somewhere true (attempt parts) path
  | _ :: _, [] => .exhausted
  | part :: parts, c :: path => if accepts c part then attempt parts path else .failed

/-- Whether a pattern matches a path. -/
def covers (glob : Glob) (path : Text) : Bool := attempt glob.parts path == .matched

end Glob

end Unawait
