import Unawait.Token.Lexeme

/-!
# Where the grammar is

What a word means and which expressions are allowed depends on the constructs
around a place. The context holds that as switches; a construct changes some of
them for its parts.
-/

namespace Unawait

/-- The dialect of a source. -/
structure Dialect where
  jsx : Bool
  typescript : Bool

/-- The constructs around a place, as far as they matter for what stands there. -/
structure Context where
  /-- An attempt is made that may be given up: faults are not recorded. -/
  ignoreFaults : Bool := false
  isModule : Bool := false
  strict : Bool := false
  /-- The word `in` is an operator. -/
  allowIn : Bool := false
  inAsync : Bool := false
  inGenerator : Bool := false
  inStaticBlock : Bool := false
  allowContinue : Bool := false
  allowBreak : Bool := false
  inType : Bool := false
  /-- Angle brackets are operators although a type is being read. -/
  anglesAreOperators : Bool := false
  inDeclare : Bool := false
  inConditional : Bool := false
  /-- A colon ends the middle part of a conditional expression. -/
  expectColon : Bool := false
  inClass : Bool := false
  inClassField : Bool := false
  inFunction : Bool := false
  /-- A function that is no arrow is around the place. -/
  inPlainFunction : Bool := false
  inParameters : Bool := false
  hasSuperClass : Bool := false
  inPropertyName : Bool := false
  inForcedJsx : Bool := false
  noConditionalTypes : Bool := false
  allowUsing : Bool := false
  /-- The head of a `for` statement is read. -/
  inForHead : Bool := false
  /-- The head of a `for await` statement is read. -/
  inForAwaitHead : Bool := false

namespace Context

/-- Words that are reserved everywhere. -/
def alwaysReserved : List String :=
  ["null", "true", "false", "break", "case", "catch", "continue", "debugger", "default", "do",
    "export", "else", "finally", "for", "function", "if", "return", "switch", "throw", "try",
    "var", "const", "while", "with", "new", "this", "super", "class", "extends", "import", "in",
    "instanceof", "typeof", "void", "delete", "enum"]

/-- Words that are reserved in strict code only. -/
def strictlyReserved : List String :=
  ["implements", "package", "protected", "interface", "private", "public"]

/-- Whether a word is no name in this context. -/
def isReserved (context : Context) (lexeme : Lexeme) : Bool :=
  if lexeme.isWord "let" then context.strict
  else if lexeme.isWord "await" then
    context.inAsync || context.inStaticBlock || context.strict
  else if lexeme.isWord "yield" then context.inGenerator || context.strict
  else lexeme.isOneOf alwaysReserved || context.strict && lexeme.isOneOf strictlyReserved

end Context

end Unawait
