import Unawait.Text.Basic
import Unawait.Text.Span

/-!
# Lexemes

A lexeme is what one token is to the grammar. Words are not divided into keywords
and names here, since most of them are either by context. The pieces of templates,
regular expressions and JSX elements are lexemes of their own.
-/

namespace Unawait

/-- The operators between two operands. -/
inductive Operator where
  | equal | notEqual | same | notSame
  | less | lessEqual | greater | greaterEqual
  | shiftLeft | shiftRight | shiftRightUnsigned
  | plus | minus | times | divide | remainder | power
  | bitOr | bitXor | bitAnd
  | or | and | coalesce
  | inside | instanceOf
deriving DecidableEq

namespace Operator

/-- The text of an operator. -/
def text : Operator → String
  | equal => "==" | notEqual => "!=" | same => "===" | notSame => "!=="
  | less => "<" | lessEqual => "<=" | greater => ">" | greaterEqual => ">="
  | shiftLeft => "<<" | shiftRight => ">>" | shiftRightUnsigned => ">>>"
  | plus => "+" | minus => "-" | times => "*" | divide => "/" | remainder => "%" | power => "**"
  | bitOr => "|" | bitXor => "^" | bitAnd => "&"
  | or => "||" | and => "&&" | coalesce => "??"
  | inside => "in" | instanceOf => "instanceof"

/-- How strongly an operator binds. -/
def precedence : Operator → Nat
  | or | coalesce => 1
  | and => 2
  | bitOr => 3
  | bitXor => 4
  | bitAnd => 5
  | equal | notEqual | same | notSame => 6
  | less | lessEqual | greater | greaterEqual | inside | instanceOf => 7
  | shiftLeft | shiftRight | shiftRightUnsigned => 8
  | plus | minus => 9
  | times | divide | remainder => 10
  | power => 11

/-- Whether the operator is `||`, `&&` or `??`. -/
def isLogical : Operator → Bool
  | or | and | coalesce => true
  | _ => false

end Operator

/-- What a token is to the grammar. -/
inductive Lexeme where
  | word (name : Text)
  | arrow | hash | atSign | dot | ellipsis | bang | tilde
  | parenOpen | parenClose | bracketOpen | bracketClose | braceOpen | braceClose
  | semicolon | comma | colon | question
  | increment | decrement
  | binary (operator : Operator)
  /-- The plain assignment sign. -/
  | assign
  /-- A compound assignment, by its binary operator. -/
  | assignBy (operator : Operator)
  /-- A string literal with its value, and whether it is written without escapes. -/
  | string (value : Text) (verbatim : Bool)
  | number | bigint
  /-- A regular expression after its first slash, with its flags. -/
  | regex (flags : Text)
  | backquote
  /-- A text piece of a template, and the place of a bad escape in it. -/
  | template (fault : Option Nat)
  | dollarBrace
  | tagStart | tagEnd | tagName (name : Text) | tagText
  | hashbang
  /-- What is no token, with the place that is wrong. -/
  | invalid (offset : Nat)
deriving DecidableEq

namespace Lexeme

/-- Whether a lexeme is a given word. -/
def isWord (lexeme : Lexeme) (name : String) : Bool :=
  match lexeme with
  | word text => text == name.toList
  | _ => false

/-- Whether a lexeme is one of some words. -/
def isOneOf (lexeme : Lexeme) (names : List String) : Bool := names.any lexeme.isWord

/-- The words that are never plain names where the grammar has a use for them. -/
def keywords : List String :=
  ["await", "break", "case", "catch", "continue", "debugger", "default", "do", "else", "finally",
    "for", "function", "if", "return", "switch", "throw", "try", "var", "let", "const", "while",
    "with", "new", "this", "super", "class", "extends", "export", "import", "yield", "in",
    "instanceof", "typeof", "void", "delete"]

def isKeyword (lexeme : Lexeme) : Bool := lexeme.isOneOf keywords

/-- The words of the three literals. -/
def isWordLiteral (lexeme : Lexeme) : Bool := lexeme.isOneOf ["null", "true", "false"]

/-- A word that is neither a keyword nor a literal. -/
def isPlainWord (lexeme : Lexeme) : Bool :=
  match lexeme with
  | word _ => !lexeme.isKeyword && !lexeme.isWordLiteral
  | _ => false

def isAnyWord : Lexeme → Bool
  | word _ => true
  | _ => false

def isBinary : Lexeme → Bool
  | binary _ => true
  | _ => false

/-- The assignment signs. -/
def isAssignment : Lexeme → Bool
  | assign | assignBy _ => true
  | _ => false

/-- Whether an expression may follow, so that `<` would start an element. -/
def beforeExpression : Lexeme → Bool
  | arrow | ellipsis | bang | tilde | parenOpen | bracketOpen | braceOpen | semicolon | comma
  | colon | question | binary _ | assign | assignBy _ | dollarBrace | tagText => true
  | lexeme =>
    lexeme.isOneOf ["await", "case", "default", "do", "else", "return", "throw", "new", "extends",
      "yield", "in", "instanceof", "typeof", "void", "delete"]

end Lexeme

/-- A lexeme where it stands. -/
structure Lexed where
  lexeme : Lexeme
  span : Span
  /-- A line break is between the lexeme and the one before it. -/
  afterBreak : Bool

end Unawait
