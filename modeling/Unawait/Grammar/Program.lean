import Unawait.Grammar.Markup
import Unawait.Grammar.ModuleItem
import Unawait.Transform

/-!
# Reading a program

The record of the grammar is tied here: the rules for a depth are the productions
over the rules for the depth below. A program never nests deeper than a multiple of
its length, so that with the rules for that depth it is read as if there were no
bound.
-/

namespace Unawait

namespace Rules

/-- The rules for one more level of nesting. -/
def deeper (rules : Rules) : Rules where
  assignment := Assignment.read rules
  unary := Operation.unary rules
  operators := Operation.operators rules
  member := Primary.member rules
  statement := Statement.read rules
  pattern := Binding.pattern rules
  type := TypeSyntax.any rules
  simpleType := TypeSyntax.simple rules
  typeOperand := TypeSyntax.operand rules
  element := Markup.element rules

/-- The rules for a depth of nesting. -/
def upTo (depth : Nat) : Rules := Nat.repeat deeper depth none

end Rules

namespace Program

open Parse

/-- A depth that no program of a given length exceeds. -/
def depthFor (length : Nat) : Nat := 8 * length + 32

/-- The items of a program, read to its end. -/
def items : Parse (List Node) := do
  let rules := Rules.upTo (depthFor (← get).limit)
  let _ ← position
  let _ ← eat .hashbang
  let items ← Block.items rules true true none
  if (← get).isModule || items.any Item.isModule then
    setContext { ← context with isModule := true, strict := true }
  return Block.nodesOf items

/-- What was read of a text, or the place that is wrong: where reading has failed, or
else the fault that was met first. -/
def read (text : Text) (dialect : Dialect) : Except Nat (List Node × List Span) :=
  match items (Cursor.ofText text dialect) with
  | .error place _ => .error place
  | .ok nodes cursor =>
    match cursor.lexer.faults.getLast? with
    | some place => .error place
    | none => .ok (nodes, cursor.tokens.reverse)

/-- A text without the mark of its byte order. -/
def withoutMark : Text → Text
  | '\ufeff' :: rest => rest
  | text => text

end Program

/-- Read a source. Offsets count from behind a byte order mark, which the source keeps. -/
def parse (source : Text) (options : Options) : Except Failure Parsed :=
  let lines := Lines.ofText source
  let dialect := { jsx := options.jsx, typescript := options.typescript }
  match Program.read (Program.withoutMark source) dialect with
  | .error place =>
    let (line, column) := lines.position place
    .error (.invalidSource (line + 1) (column + 1))
  | .ok (nodes, tokens) =>
    let program := Node.carrier .program ⟨0, source.bytes⟩ nodes
    .ok { program, tokens := .ofSpans source tokens, lines }

/-- Transform a source. -/
def transform (source : Text) (options : Options) : Except Failure Transformed :=
  transformWith parse source options

end Unawait
