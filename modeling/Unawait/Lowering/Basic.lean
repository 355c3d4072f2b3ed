import Unawait.Edit.Buffer
import Unawait.Lowering.Prelude
import Unawait.Scope
import Unawait.Text.Lines
import Unawait.Token.Stream
import Unawait.Tree.Walk

/-!
# The state of a lowering

While a tree is walked the lowering looks up particles among the tokens, records
what functions capture, and edits the source. It fails when a particle is not where
the tree says, when a construct has no lowered form, or when an edit is refused.
-/

namespace Unawait

/-- A construct that has no lowered form. -/
inductive Construct where
  | compoundAssignment
  | update
deriving DecidableEq

/-- The wording for a construct. -/
def Construct.description : Construct → String
  | compoundAssignment => "compound assignment to computed super member"
  | update => "update of computed super member"

/-- Why a source is not lowered. Lines and columns count from 1, columns in bytes. -/
inductive Failure where
  /-- The source is no program. -/
  | invalidSource (line column : Nat)
  /-- A particle is not where the tree says. -/
  | missingToken (expected : String) (offset : Nat)
  | unsupported (construct : Construct) (line column : Nat)
  /-- Two edits contradict each other. -/
  | refused (refusal : Edit.Refusal)
deriving DecidableEq

namespace Failure

/-- The code of a failure; a refused edit has none. -/
def code? : Failure → Option String
  | invalidSource _ _ => some "ASYNCGEN_SYNTAX_ERROR"
  | missingToken _ _ => some "ASYNCGEN_MISSING_TOKEN"
  | unsupported _ _ _ => some "ASYNCGEN_UNSUPPORTED"
  | refused _ => none

/-- The wording of a failure. -/
def message : Failure → String
  | invalidSource line column => s!"SyntaxError: <parser> ({line}:{column})"
  | missingToken expected offset => s!"expected `{expected}` near offset {offset}"
  | unsupported construct line column =>
    "unsupported " ++ construct.description ++ s!" in async function ({line}:{column})"
  | refused refusal => refusal.message

end Failure

namespace Lowering

/-- What a walk of the tree knows and has done so far. -/
structure State where
  source : Text
  tokens : Tokens
  lines : Lines
  buffer : Edit.Buffer
  scopes : Scopes := {}
  usage : Usage := {}
  /-- The places of the nodes are asked for. -/
  sourceMap : Bool := false
  /-- The number of loops lowered so far. -/
  loops : Nat := 0

/-- A step of the lowering. The state survives a failure. -/
abbrev Step := EStateM Failure State

/-- The state before the walk. -/
def State.ofSource (source : Text) (tokens : Tokens) (lines : Lines) (sourceMap : Bool) : State :=
  { source, tokens, lines, buffer := .ofText source, sourceMap }

/-- Make an edit, or fail with its refusal. -/
def edit (change : Edit.Buffer → Except Edit.Refusal Edit.Buffer) : Step Unit := do
  let state ← get
  match change state.buffer with
  | .ok buffer => set { state with buffer }
  | .error refusal => throw (.refused refusal)

def overwrite (start stop : Nat) (text : Text) : Step Unit :=
  edit fun buffer => buffer.overwrite start stop text

def remove (start stop : Nat) : Step Unit := edit fun buffer => buffer.remove start stop

def insertBefore (offset : Nat) (text : Text) : Step Unit :=
  edit fun buffer => buffer.insertBefore offset text

def insertAfter (offset : Nat) (text : Text) : Step Unit :=
  edit fun buffer => buffer.insertAfter offset text

def moveRange (start stop destination : Nat) : Step Unit :=
  edit fun buffer => buffer.moveRange start stop destination

/-- Change the records of the scopes. -/
def modifyScopes (change : Scopes → Scopes) : Step Unit :=
  modify fun state => { state with scopes := change state.scopes }

/-- Fail because a particle is missing. -/
def missing {α : Type} (expected : String) (offset : Nat) : Step α :=
  throw (.missingToken expected offset)

/-- A value that has to be there. -/
def require {α : Type} (found : Option α) (expected : String) (offset : Nat) : Step α :=
  match found with
  | some value => pure value
  | none => missing expected offset

/-- Fail because a construct has no lowered form. -/
def unsupported {α : Type} (construct : Construct) (offset : Nat) : Step α := do
  let (line, column) := (← get).lines.position offset
  throw (.unsupported construct (line + 1) (column + 1))

/-- The start of a token, or a default if there is no such token. -/
def tokenStart (tokens : Tokens) (index default : Nat) : Nat :=
  ((tokens.get? index).map Span.start).getD default

/-- The index before an index. -/
def before? : Nat → Option Nat
  | 0 => none
  | index + 1 => some index

/-- The offset before an offset. Offsets are 32-bit words, and the one before 0 is
the greatest. -/
def offsetBefore (offset : Nat) : Nat := if offset = 0 then 0xFFFFFFFF else offset - 1

end Lowering

end Unawait
