import Unawait.Text.Identifier
import Unawait.Token.Context

/-!
# Reading tokens from a text

Whether a brace closes a template hole, whether `<` starts an element and whether
white space counts depends on what surrounds the place, so the lexer keeps a stack
of the open constructs and whether an expression may come next. What is wrong in a
token without spoiling it is recorded as a fault and reading goes on; otherwise the
token itself is invalid.

Some faults count only in strict code. Outside of it they are kept apart, because a
source may turn out to be a module, which is strict throughout.
-/

namespace Unawait

/-- An open construct, as far as reading tokens depends on it. -/
inductive Nesting where
  | braceStatement | braceExpression
  /-- The hole of a template. -/
  | hole
  | parenStatement (forLoop : Bool) | parenExpression
  | template
  | functionExpression | classExpression
  | openingTag | closingTag
  /-- The inside of an element. -/
  | element
deriving DecidableEq

namespace Nesting

/-- Whether the construct is an expression, after which an operator comes. -/
def isExpression : Nesting → Bool
  | braceExpression | hole | parenExpression | template | functionExpression | classExpression
  | element => true
  | _ => false

/-- Whether white space is part of the text of the construct. -/
def keepsSpace : Nesting → Bool
  | template | element => true
  | _ => false

end Nesting

/-- The place up to which tokens were read, and what reading the next one depends on. -/
structure Lexer where
  rest : Text
  offset : Nat
  dialect : Dialect
  context : Context := {}
  /-- The open constructs, the innermost first. -/
  nesting : List Nesting := [.braceStatement]
  /-- An expression may come next. -/
  expressionAllowed : Bool := true
  previous : Option Lexeme := none
  /-- A line break was met since the last token. -/
  afterBreak : Bool := false
  /-- A line break was met before the last token. -/
  previousAfterBreak : Bool := false
  /-- Where the template that was opened last starts. -/
  templateStart : Nat := 0
  /-- No token was read so far. -/
  isFirst : Bool := true
  /-- The places of faults, the last one first. -/
  faults : List Nat := []
  /-- The places of faults that count in modules only, the last one first. -/
  moduleFaults : List Nat := []

/-- Reading a part of a token. A failure is the place that is wrong. -/
abbrev Scan := EStateM Nat Lexer

namespace Lexer

/-- The lexer at the start of a text. -/
def ofText (text : Text) (dialect : Dialect) : Lexer := { rest := text, offset := 0, dialect }

/-- The characters that end a line. -/
def isLineEnd (c : Char) : Bool := c == '\n' || c == '\r' || c == '\u2028' || c == '\u2029'

/-- White space within a line. -/
def isBlank (c : Char) : Bool :=
  c == ' ' || c == '\t' || c == '\x0b' || c == '\x0c' || c == '\u0085' || c == '\u00a0'
    || c == '\ufeff' || c == '\u1680' || ('\u2000' ≤ c && c ≤ '\u200a') || c == '\u202f' || c == '\u205f'
    || c == '\u3000'

/-! ## Single characters -/

/-- The next character. -/
def current : Scan (Option Char) := return (← get).rest.head?

/-- The character after the next one. -/
def following : Scan (Option Char) := return (← get).rest.tail.head?

def position : Scan Nat := return (← get).offset

/-- Go past the next character. -/
def bump : Scan Unit :=
  modify fun lexer =>
    match lexer.rest with
    | [] => lexer
    | c :: rest => { lexer with rest, offset := lexer.offset + c.utf8Size }

/-- Go past the next character if it is the given one. -/
def eat (c : Char) : Scan Bool := do
  if (← current) = some c then
    bump
    return true
  else return false

/-- Whether a text comes next. -/
def sees (text : String) : Scan Bool := return Text.startsWith (← get).rest text.toList

/-- Go past the characters with a property; returns them. -/
def takeWhile (holds : Char → Bool) : Scan Text :=
  modifyGet fun lexer =>
    let taken := lexer.rest.takeWhile holds
    (taken,
      { lexer with rest := lexer.rest.drop taken.length, offset := lexer.offset + taken.bytes })

/-- Repeat a step until it says that it is done. The steps are bounded by the
length of the text, because each one reads something. -/
def repeatFor {α : Type} (step : α → Scan (α × Bool)) : Nat → α → Scan α
  | 0, value => pure value
  | steps + 1, value => do
    let (value, more) ← step value
    if more then repeatFor step steps value else pure value

def repeatWhile {α : Type} (step : α → Scan (α × Bool)) (value : α) : Scan α := do
  repeatFor step ((← get).rest.length + 1) value

/-! ## Faults -/

/-- Record a fault. -/
def fault (offset : Nat) : Scan Unit :=
  modify fun lexer =>
    if lexer.context.ignoreFaults then lexer else { lexer with faults := offset :: lexer.faults }

/-- Record a fault that counts in modules only. -/
def moduleFault (offset : Nat) : Scan Unit :=
  modify fun lexer =>
    if lexer.context.ignoreFaults then lexer
    else if lexer.context.isModule then { lexer with faults := offset :: lexer.faults }
    else { lexer with moduleFaults := offset :: lexer.moduleFaults }

/-- Record a fault that counts in strict code only. -/
def strictFault (offset : Nat) : Scan Unit := do
  if (← get).context.strict then fault offset else moduleFault offset

/-! ## White space and comments -/

/-- Note that a line break was met. -/
def noteBreak : Scan Unit := modify fun lexer => { lexer with afterBreak := true }

/-- Go past white space. -/
def skipBlanks : Scan Unit := do
  let taken ← takeWhile fun c => isBlank c || isLineEnd c
  if taken.any isLineEnd then noteBreak

/-- Go past the rest of the line. -/
def skipLine : Scan Unit := do
  let _ ← takeWhile fun c => !isLineEnd c

/-- The length of a comment after its opening, its closing included, and whether it
has a line break; nothing if it is not closed. -/
def commentLength : Text → Option (Nat × Bool)
  | [] => none
  | '*' :: '/' :: _ => some (2, false)
  | c :: rest => (commentLength rest).map fun (length, broken) => (length + 1, broken || isLineEnd c)

/-- Go past a block comment, whose opening is next. -/
def skipComment : Scan Unit := do
  bump
  bump
  match commentLength (← get).rest with
  | some (length, broken) =>
    modify fun lexer =>
      let taken : Text := lexer.rest.take length
      { lexer with rest := lexer.rest.drop length, offset := lexer.offset + taken.bytes }
    if broken then noteBreak
    skipBlanks
  | none =>
    if (← takeWhile fun _ => true).any isLineEnd then noteBreak
    fault (← position)

/-- Go past white space and comments. -/
def skipSpace : Scan Unit :=
  repeatWhile (fun _ => do
    skipBlanks
    if ← sees "//" then
      skipLine
      return ((), true)
    else if ← sees "/*" then
      skipComment
      return ((), true)
    else return ((), false)) ()

/-! ## Numbers -/

/-- The value of a digit in a base of at most 16. -/
def digitValue? (base : Nat) (c : Char) : Option Nat :=
  let value :=
    if '0' ≤ c && c ≤ '9' then c.toNat - '0'.toNat
    else if 'a' ≤ c && c ≤ 'f' then c.toNat - 'a'.toNat + 10
    else if 'A' ≤ c && c ≤ 'F' then c.toNat - 'A'.toNat + 10
    else base
  if value < base then some value else none

def isDigit (base : Nat) (c : Option Char) : Bool := (c.bind (digitValue? base)).isSome

/-- Read digits with separators between them until there are enough, which is said of
the digits with the last one first; returns the digits. A separator stands between
two digits. -/
def digitsUntil (base : Nat) (enough : Text → Bool) : Scan Text := do
  let start ← position
  let read ← repeatWhile (fun read : Text => do
    let c ← current
    if c = some '_' then
      if read.isEmpty || !isDigit base (← following) then fault start
      bump
      return (read, true)
    else if isDigit base c then
      bump
      let read := c.toList ++ read
      return (read, !enough read)
    else return (read, false)) []
  return read.reverse

/-- Read digits with separators between them; returns the digits. -/
def digits (base : Nat) : Scan Text := digitsUntil base fun _ => false

/-- The number that digits stand for. -/
def digitsValue (base : Nat) (digits : Text) : Nat :=
  digits.foldl (fun value c => base * value + (digitValue? base c).getD 0) 0

/-- Read digits of which there has to be at least one. -/
def someDigits (base : Nat) : Scan Text := do
  let start ← position
  let read ← digits base
  if read.isEmpty then throw start
  return read

/-- A name may not follow a number directly. -/
def noName : Scan Unit := do
  if let some c ← current then
    if Identifier.isStart c then throw (← position)

/-- A number with a base prefix, which is next. -/
def prefixedNumber (base : Nat) : Scan Lexeme := do
  bump
  bump
  let _ ← someDigits base
  if ← eat 'n' then return .bigint
  noName
  return .number

/-- The end of an octal number in the old notation. -/
def oldOctal (start : Nat) : Scan Lexeme := do
  noName
  if (← get).dialect.typescript then fault start
  strictFault start
  return .number

/-- The exponent of a number, if there is one. -/
def exponent : Scan Unit := do
  let c ← current
  if c = some 'e' || c = some 'E' then
    bump
    match ← current with
    | none => throw (← position)
    | some sign =>
      if sign == '+' || sign == '-' then bump
      let _ ← someDigits 10

/-- The fraction and exponent of a number. -/
def fraction : Scan Lexeme := do
  if (← current) = some '.' then
    bump
    let _ ← digits 10
  exponent
  noName
  return .number

/-- The least whole number that is too large for a number of 64 bits. -/
def infinite : Nat := (2 * 9007199254740992 - 1) <<< 970

/-- A decimal number. A whole number that starts with a zero is octal in the old
notation, unless it has another digit or is too large. -/
def number : Scan Lexeme := do
  let start ← position
  let first ← current
  if first = some '.' then fraction
  else
    let read ← someDigits 10
    if ← eat 'n' then return .bigint
    if first = some '0' then
      if read.all (· == '0') then
        if (← position) ≠ start + 1 then return ← oldOctal start
      else if digitsValue 10 read < infinite then
        if read.any (fun c => c == '8' || c == '9') then strictFault start
        else return ← oldOctal start
    fraction

/-- A number that starts with a zero. -/
def zero : Scan Lexeme := do
  match ← following with
  | some 'x' | some 'X' => prefixedNumber 16
  | some 'o' | some 'O' => prefixedNumber 8
  | some 'b' | some 'B' => prefixedNumber 2
  | _ => number

/-! ## Escapes -/

/-- Read a number of hexadecimal digits; nothing if there are fewer. -/
def hexDigits (count : Nat) : Scan (Option Nat) := do
  let read ← digitsUntil 16 (·.length == count)
  return if read.length = count then some (digitsValue 16 read) else none

/-- Read the hexadecimal digits of a code in braces; nothing if there are none or the
code is beyond 32 bits. -/
def bracedDigits : Scan (Option Nat) := do
  let read ← digitsUntil 16 fun read => 0x100000000 ≤ digitsValue 16 read.reverse
  let value := digitsValue 16 read
  return if read.isEmpty || 0x100000000 ≤ value then none else some value

/-- Go past characters up to a closing brace, at most as many as given; returns them. -/
def takeBraced (count : Nat) : Scan Text :=
  modifyGet fun lexer =>
    let taken := (lexer.rest.take count).takeWhile (· != '\x7d')
    (taken,
      { lexer with rest := lexer.rest.drop taken.length, offset := lexer.offset + taken.bytes })

/-- Go past a number of characters; returns them. -/
def take (count : Nat) : Scan Text :=
  modifyGet fun lexer =>
    let taken := lexer.rest.take count
    (taken,
      { lexer with rest := lexer.rest.drop taken.length, offset := lexer.offset + taken.bytes })

/-- Go back to a place that was passed, with the text from there on. -/
def backTo (rest : Text) (offset : Nat) : Scan Unit :=
  modify fun lexer => { lexer with rest, offset }

/-- A Unicode escape from its `u` on, with the text that it stands for. The code of no
character stands for itself as it is written. -/
def unicodeEscape : Scan Text := do
  bump
  let braced ← eat '\x7b'
  let lexer ← get
  let code ← if braced then bracedDigits else hexDigits 4
  let some value := code | throw (← position)
  if 0x10ffff < value then throw (← position)
  let text ←
    if Nat.isValidChar value then pure [Char.ofNat value]
    else
      backTo lexer.rest lexer.offset
      if braced then pure ("\\u\x7b".toList ++ (← takeBraced 6) ++ ['\x7d'])
      else pure ("\\u".toList ++ (← take 4))
  if braced then
    unless ← eat '\x7d' do throw lexer.offset
  return text

/-- Two more octal digits, as far as the value stays below 256. -/
def octalRest (first : Nat) : Scan Nat := do
  match (← current).bind (digitValue? 8) with
  | none => return first
  | some second =>
    bump
    match (← current).bind (digitValue? 8) with
    | none => return 8 * first + second
    | some third =>
      let value := 8 * (8 * first + second) + third
      if value < 256 then
        bump
        return value
      else return 8 * first + second

/-- An escape from its backslash on, with the text that it stands for, which is empty
for a line continuation. -/
def escape (inTemplate : Bool) : Scan Text := do
  let start ← position
  bump
  match ← current with
  | none => throw start
  | some c =>
    match c with
    | 'n' => bump; return ['\n']
    | 'r' => bump; return ['\r']
    | 't' => bump; return ['\t']
    | 'b' => bump; return ['\x08']
    | 'v' => bump; return ['\x0b']
    | 'f' => bump; return ['\x0c']
    | '\r' =>
      bump
      let _ ← eat '\n'
      return []
    | '\n' | '\u2028' | '\u2029' => bump; return []
    | 'x' =>
      bump
      match ← hexDigits 2 with
      | some value => return [Char.ofNat value]
      | none => throw start
    | 'u' =>
      match ← (tryCatch (some <$> unicodeEscape) fun _ => pure none : Scan (Option Text)) with
      | some text => return text
      | none => throw start
    | _ =>
      match digitValue? 8 c with
      | none => bump; return [c]
      | some first =>
        bump
        if first = 0 && !isDigit 8 (← current) then return ['\x00']
        if inTemplate then throw start
        strictFault start
        return [Char.ofNat (← octalRest first)]

/-! ## Words -/

/-- The characters of a word, and whether it holds an escape. -/
def wordText : Scan (Text × Bool) := do
  let (read, escaped, _) ← repeatWhile (fun (read, escaped, isFirst) => do
    match ← current with
    | none => return ((read, escaped, isFirst), false)
    | some c =>
      if Identifier.isPart c then
        bump
        return ((c :: read, escaped, false), true)
      else if c == '\\' then
        let start ← position
        bump
        if (← current) ≠ some 'u' then throw start
        let text ← unicodeEscape
        let fits := if isFirst then Identifier.isStart else Identifier.isPart
        unless (text.head?.map fits).getD false do fault start
        return ((text.reverse ++ read, true, false), true)
      else return ((read, escaped, isFirst), false)) (([] : Text), false, true)
  return (read.reverse, escaped)

/-- A word. An escape in a reserved word is wrong. -/
def word : Scan Lexeme := do
  let start ← position
  let (name, escaped) ← wordText
  let lexeme := Lexeme.word name
  if escaped && (← get).context.isReserved lexeme then throw start
  return lexeme

/-! ## Literals -/

/-- A string from its quotation mark on. A string that is not closed is a fault at
the mark. -/
def string (quote : Char) : Scan Lexeme := do
  let start ← position
  bump
  let (read, verbatim) ← repeatWhile (fun (read, verbatim) => do
    match ← current with
    | none =>
      fault start
      return ((read, verbatim), false)
    | some c =>
      if c == quote then
        bump
        return ((read, verbatim), false)
      else if c == '\\' then
        let text ← escape false
        return ((text.reverse ++ read, false), true)
      else if c == '\n' || c == '\r' then
        fault start
        return ((read, verbatim), false)
      else
        bump
        return ((c :: read, verbatim), true)) (([] : Text), true)
  return .string read.reverse verbatim

/-- A regular expression whose first slash has the given offset, with its flags. -/
def regex (start : Nat) : Scan Lexeme := do
  let _ ← repeatWhile (fun (escaped, inClass) => do
    match ← current with
    | none => throw start
    | some c =>
      if isLineEnd c then throw start
      if escaped then
        bump
        return ((false, inClass), true)
      else if c == '/' && !inClass then return ((false, inClass), false)
      else
        bump
        let inClass := if c == '[' then true else if c == ']' then false else inClass
        return ((c == '\\', inClass), true)) (false, false)
  bump
  match ← current with
  | some c => if Identifier.isStart c then return .regex (← wordText).1 else return .regex []
  | none => return .regex []

/-- The next piece of a template: a text, which may be empty and then comes only
once, the start of a hole, or the end. Of several bad escapes the last one counts. -/
def templatePiece (start : Nat) : Scan Lexeme := do
  let begin ← position
  let afterText := match (← get).previous with
    | some (.template _) => true
    | _ => false
  let piece ← repeatWhile (fun (state : Option Nat × Option Lexeme) => do
    let (bad, _) := state
    let ended ← sees "`"
    let holed ← sees "$\x7b"
    if ended || holed then
      if (← position) = begin && afterText then
        bump
        if holed then
          bump
          return ((bad, some .dollarBrace), false)
        else return ((bad, some .backquote), false)
      else return ((bad, some (.template bad)), false)
    else
      match ← current with
      | none => throw start
      | some '\\' =>
        let escaped ← (tryCatch (do let _ ← escape true; pure none) fun place => pure (some place) :
          Scan (Option Nat))
        return ((escaped.or bad, none), true)
      | some _ =>
        bump
        return ((bad, none), true)) (none, none)
  match piece.2 with
  | some lexeme => return lexeme
  | none => throw start

/-! ## Punctuation -/

/-- A number after a dot, three dots, or a dot. -/
def dots : Scan Lexeme := do
  if isDigit 10 (← following) then number
  else if ← sees "..." then
    bump
    bump
    bump
    return .ellipsis
  else
    bump
    return .dot

/-- Return one lexeme if a sign follows and another one otherwise. -/
def ifNext (c : Char) (present absent : Lexeme) : Scan Lexeme := do
  return if ← eat c then present else absent

def questionMark : Scan Lexeme := do
  bump
  if ← eat '?' then ifNext '=' (.assignBy .coalesce) (.binary .coalesce)
  else return .question

/-- Go past the rest of a line that marks a conflict between two versions of a text;
the given offset is where it starts. -/
def skipMarker (start : Nat) : Scan Unit := do
  fault start
  skipLine
  skipSpace

/-- Whether a text comes next that makes a marker of a conflict of the token that is
read, which is the first one of its line. -/
def isMarker (text : String) : Scan Bool := return (← get).afterBreak && (← sees text)

/-- `|`, `&` and what is built from them. -/
def logical (c : Char) (single double : Operator) : Scan Lexeme := do
  let start ← position
  bump
  if ← eat '=' then return .assignBy single
  if ← eat c then
    if ← eat '=' then return .assignBy double
    if ← pure (c == '|') <&&> isMarker "||||| " then
      skipMarker start
      throw start
    return .binary double
  else return .binary single

def star : Scan Lexeme := do
  bump
  if ← eat '*' then ifNext '=' (.assignBy .power) (.binary .power)
  else ifNext '=' (.assignBy .times) (.binary .times)

/-- `=` and `!` and what is built from them; nothing for a marker of a conflict. -/
def equals (c : Char) : Scan (Option Lexeme) := do
  let start ← position
  bump
  if ← eat '=' then
    if ← eat '=' then
      if c == '!' then return some (.binary .notSame)
      if ← isMarker "====" then
        skipMarker start
        return none
      return some (.binary .same)
    else return some (.binary (if c == '!' then .notEqual else .equal))
  else if c == '!' then return some .bang
  else some <$> ifNext '>' .arrow .assign

/-- Whether the angle brackets that were read start a marker of a conflict. -/
def isAngleMarker : Lexeme → Scan Bool
  | .binary .shiftLeft | .assignBy .shiftLeft => isMarker "<<<<< "
  | .binary .shiftRightUnsigned | .assignBy .shiftRightUnsigned => isMarker ">>>> "
  | _ => pure false

/-- The operators of angle brackets, the first of which was read. -/
def angles (c : Char) : Scan Lexeme := do
  if c == '<' then
    if ← eat '<' then ifNext '=' (.assignBy .shiftLeft) (.binary .shiftLeft)
    else ifNext '=' (.binary .lessEqual) (.binary .less)
  else if ← eat '>' then
    if ← eat '>' then ifNext '=' (.assignBy .shiftRightUnsigned) (.binary .shiftRightUnsigned)
    else ifNext '=' (.assignBy .shiftRight) (.binary .shiftRight)
  else ifNext '=' (.binary .greaterEqual) (.binary .greater)

/-- What a token that starts a comment in the old notation is: nothing. -/
def oldComment (start : Nat) : Scan (Option Lexeme) := do
  skipLine
  skipSpace
  moduleFault start
  return none

/-- `<` or `>`; nothing for a comment in the old notation and for a marker of a
conflict. -/
def angleBracket (c : Char) : Scan (Option Lexeme) := do
  let lexer ← get
  let start ← position
  bump
  if lexer.dialect.typescript && lexer.context.inType && !lexer.context.anglesAreOperators then
    return some (.binary (if c == '<' then .less else .greater))
  if c == '<' && (← sees "!--") then oldComment start
  else
    let lexeme ← angles c
    if ← isAngleMarker lexeme then
      skipMarker start
      return none
    return some lexeme

/-- `+` or `-`; nothing for a comment in the old notation. -/
def sign (c : Char) : Scan (Option Lexeme) := do
  let start ← position
  bump
  if ← eat c then
    if c == '-' && (← get).afterBreak && (← current) = some '>' then oldComment start
    else return some (if c == '+' then .increment else .decrement)
  else
    let operator := if c == '+' then Operator.plus else .minus
    some <$> ifNext '=' (.assignBy operator) (.binary operator)

/-- A sign of its own. -/
def single (lexeme : Lexeme) : Scan (Option Lexeme) := do
  bump
  return some lexeme

/-- The next token outside of templates and elements; nothing for a comment in the
old notation and for a marker of a conflict. -/
def tokenOrComment (c : Char) : Scan (Option Lexeme) := do
  match c with
  | '#' => single .hash
  | '@' => single .atSign
  | '(' => single .parenOpen
  | ')' => single .parenClose
  | '[' => single .bracketOpen
  | ']' => single .bracketClose
  | '\x7b' => single .braceOpen
  | '\x7d' => single .braceClose
  | ';' => single .semicolon
  | ',' => single .comma
  | ':' => single .colon
  | '~' => single .tilde
  | '`' => single .backquote
  | '.' => some <$> dots
  | '?' => some <$> questionMark
  | '"' | '\'' => some <$> string c
  | '|' => some <$> logical c .bitOr .or
  | '&' => some <$> logical c .bitAnd .and
  | '^' => do
    bump
    some <$> ifNext '=' (.assignBy .bitXor) (.binary .bitXor)
  | '%' => do
    bump
    some <$> ifNext '=' (.assignBy .remainder) (.binary .remainder)
  | '/' => do
    bump
    some <$> ifNext '=' (.assignBy .divide) (.binary .divide)
  | '*' => some <$> star
  | '=' | '!' => equals c
  | '<' | '>' => angleBracket c
  | '+' | '-' => sign c
  | '0' => some <$> zero
  | _ =>
    if '1' ≤ c && c ≤ '9' then some <$> number
    else if Identifier.isStart c || c == '\\' then some <$> word
    else do
      let start ← position
      bump
      throw start

/-- The next token outside of templates and elements. The character with the code 0
is passed and stands for the end of the text, although more may follow. -/
def token : Scan (Option Lexeme) :=
  repeatWhile (fun _ => do
    match ← current with
    | none => return (none, false)
    | some '\x00' =>
      bump
      return (none, false)
    | some c =>
      match ← tokenOrComment c with
      | some lexeme => return (some lexeme, false)
      | none => return (none, true)) none

/-! ## Elements -/

/-- `<` where an expression may start: the start of a tag or a marker of a conflict. -/
def tagOrMarker : Scan (Option Lexeme) := do
  let start ← position
  bump
  if ← isMarker "<<<<<< " then
    skipMarker start
    token
  else return some .tagStart

/-- The text inside an element up to the next tag or hole. The signs that close
tags and holes are faults in it. -/
def elementText : Scan (Option Lexeme) := do
  let start ← position
  let isTag ← sees "<"
  let isHole ← sees "\x7b"
  if isTag && (← get).expressionAllowed then single .tagStart
  else if isTag || isHole then token
  else
    let _ ← repeatWhile (fun _ => do
      match ← current with
      | none => throw start
      | some c =>
        if c == '<' || c == '\x7b' then return ((), false)
        else
          if c == '>' || c == '\x7d' then fault (← position)
          bump
          return ((), true)) ()
    return some .tagText

/-- A string inside a tag, which has no escapes. -/
def tagString (quote : Char) : Scan Lexeme := do
  let start ← position
  bump
  let read ← takeWhile fun c => c != quote
  if (← current).isNone then fault start
  -- The closing mark is left when fewer than two characters follow it.
  if ((← get).rest.drop 2).head?.isSome then bump
  return .string read true

/-- A name inside a tag, which may hold hyphens. -/
def tagName : Scan Lexeme := do
  return .tagName (← takeWhile fun c => Identifier.isPart c || c == '-')

/-! ## The next token -/

/-- Whether a brace opens a block rather than an object. -/
def opensBlock (nesting : List Nesting) (previous : Option Lexeme)
    (afterBreak expressionAllowed : Bool) : Bool :=
  match previous, nesting with
  | some .colon, .braceStatement :: _ => true
  | some .colon, .braceExpression :: _ => false
  | none, _ => true
  | some lexeme, _ =>
    if lexeme.isOneOf ["return", "yield"] then afterBreak
    else if lexeme.isWord "else" then true
    else
      match lexeme with
      | .semicolon | .parenClose | .arrow | .binary .less | .binary .greater => true
      | .braceOpen =>
        match nesting with
        | .braceExpression :: .openingTag :: _ => true
        | .braceStatement :: _ => true
        | _ => false
      | _ => !expressionAllowed

/-- The open constructs after a closing sign, and whether an expression may follow. -/
def close : List Nesting → List Nesting × Bool
  | [] => ([], true)
  | [only] => ([only], true)
  | .braceStatement :: .functionExpression :: rest => (rest, false)
  | .braceStatement :: .classExpression :: rest => (rest, false)
  | .hole :: .template :: rest => (.template :: rest, false)
  | .hole :: rest => (rest, true)
  | top :: rest => (rest, !top.isExpression)

/-- The construct that a parenthesis opens. -/
def parenthesis (previous : Option Lexeme) : Nesting :=
  match previous with
  | some lexeme =>
    if lexeme.isOneOf ["if", "with", "while"] then .parenStatement false
    else if lexeme.isWord "for" then .parenStatement true
    else .parenExpression
  | none => .parenExpression

/-- The construct that a brace opens. -/
def brace (lexer : Lexer) : Nesting :=
  match lexer.dialect.jsx, lexer.nesting with
  | true, .openingTag :: _ => .braceExpression
  | true, .element :: _ => .hole
  | _, nesting =>
    if opensBlock nesting lexer.previous lexer.afterBreak lexer.expressionAllowed then
      .braceStatement
    else .braceExpression

/-- The open constructs after the end of a tag, and whether an expression may follow. -/
def closeTag (previous : Option Lexeme) : List Nesting → List Nesting × Bool
  | .openingTag :: rest =>
    if previous = some (.binary .divide) then (rest.drop 1, rest[1]? == some .element)
    else (rest, true)
  | .closingTag :: rest => (rest.drop 1, rest[1]? == some .element)
  | nesting => (nesting.drop 1, true)

/-- The open constructs after a word, and whether an expression may follow. -/
def afterWord (lexer : Lexer) (lexeme : Lexeme) : List Nesting × Bool :=
  let nesting := lexer.nesting
  if lexeme.isKeyword && lexer.previous = some .dot then (nesting, false)
  else if lexeme.isOneOf ["function", "class"] then
    let isExpression := lexer.expressionAllowed
      && !opensBlock nesting lexer.previous lexer.afterBreak lexer.expressionAllowed
    if isExpression then
      ((if lexeme.isWord "function" then .functionExpression else .classExpression) :: nesting, false)
    else (nesting, false)
  else if lexeme.isWord "of" && nesting.head? = some (.parenStatement true) then
    (nesting, !(lexer.previous.map Lexeme.beforeExpression).getD false)
  else if lexeme.isPlainWord then
    let declares := match lexer.previous with
      | some previous => previous.isOneOf ["let", "const", "var"]
      | none => false
    (nesting, declares && lexer.previousAfterBreak)
  else (nesting, lexeme.beforeExpression)

/-- The open constructs after a lexeme, and whether an expression may follow. -/
def after (lexer : Lexer) (lexeme : Lexeme) : List Nesting × Bool :=
  let nesting := lexer.nesting
  match lexeme with
  | .parenClose | .braceClose => close nesting
  | .word _ => afterWord lexer lexeme
  | .colon =>
    match nesting with
    | .functionExpression :: rest => (rest, true)
    | .classExpression :: rest => (rest, true)
    | _ => (nesting, true)
  | .braceOpen => (brace lexer :: nesting, true)
  | .binary .divide =>
    if lexer.dialect.jsx && lexer.previous = some .tagStart then
      (.closingTag :: nesting.drop 2, false)
    else (nesting, true)
  | .dollarBrace => (.hole :: nesting, true)
  | .parenOpen => (parenthesis lexer.previous :: nesting, true)
  | .increment | .decrement => (nesting, lexer.expressionAllowed)
  | .backquote =>
    match nesting with
    | .template :: rest => (rest, false)
    | _ => (.template :: nesting, false)
  | .tagStart => (.openingTag :: .element :: nesting, false)
  | .tagEnd => closeTag lexer.previous nesting
  | _ => (nesting, lexeme.beforeExpression)

/-- The token inside an element or a tag; nothing if it is read like any other. -/
def elementToken (c : Char) : Scan (Option (Option Lexeme)) := do
  let lexer ← get
  let inTag := lexer.nesting.head? = some .openingTag || lexer.nesting.head? = some .closingTag
  if lexer.nesting.head? = some .element then some <$> elementText
  else if inTag && Identifier.isStart c then (some ∘ some) <$> tagName
  else if inTag && c == '>' then some <$> single .tagEnd
  else if lexer.nesting.head? = some .openingTag && (c == '"' || c == '\'') then
    (some ∘ some) <$> tagString c
  else if c == '<' && lexer.expressionAllowed && (← following) ≠ some '!' then
    some <$> tagOrMarker
  else return none

/-- Read the next lexeme; nothing at the end of the text. The result is where it
starts and what it is. -/
def lexeme : Scan (Nat × Option Lexeme) := do
  let lexer ← get
  if lexer.isFirst && (← sees "#!") then
    skipLine
    return (lexer.offset, some .hashbang)
  modify fun lexer => { lexer with afterBreak := lexer.isFirst, isFirst := false }
  unless (lexer.nesting.head?.map Nesting.keepsSpace).getD false do skipSpace
  let start ← position
  let read : Scan (Option Lexeme) := do
    match ← current with
    | none => return none
    | some c =>
      let context := lexer.context
      if lexer.dialect.jsx && !context.inPropertyName && !context.inType then
        if let some lexeme ← elementToken c then return lexeme
      if lexer.nesting.head? = some .template then some <$> templatePiece lexer.templateStart
      else token
  let lexeme ← tryCatch read fun place => pure (some (.invalid place))
  return (start, lexeme)

/-- Note that a lexeme that starts at the given offset was read. -/
def accept (start : Nat) (lexeme : Lexeme) : Scan Unit :=
  modify fun lexer =>
    let (nesting, expressionAllowed) := lexer.after lexeme
    let opens := lexeme = .backquote && nesting.head? = some .template
    { lexer with
      nesting, expressionAllowed, previous := some lexeme, previousAfterBreak := lexer.afterBreak,
      templateStart := if opens then start else lexer.templateStart }

/-- The next token, if the text is not at its end. -/
def next : Scan (Option Lexed) := do
  let (start, lexeme) ← lexeme
  match lexeme with
  | none => return none
  | some lexeme =>
    accept start lexeme
    return some { lexeme, span := ⟨start, ← position⟩, afterBreak := (← get).afterBreak }

/-- The regular expression whose first slash, at the given offset, was the last
token. The result starts behind that token. -/
def nextRegex (text : Text) (slash : Nat) : Scan (Option Lexed) := do
  let start ← position
  modify fun lexer =>
    { lexer with rest := (text.dropBytes? (slash + 1)).getD [], offset := slash + 1 }
  let lexeme ← tryCatch (regex slash) fun place => pure (.invalid place)
  accept start lexeme
  return some { lexeme, span := ⟨start, ← position⟩, afterBreak := false }

end Lexer

end Unawait
