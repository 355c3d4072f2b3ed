import Unawait.Token.Lexer

/-!
# Reading a program token by token

A cursor stands before a token and may look one token further. Tokens are read only
when they are asked for, because what a token is depends on the context at that
moment. A fault that leaves the program readable is recorded and reading goes on;
any other one is a failure. Both are known by their place alone.

An attempt runs on a copy of the cursor without recording faults, and its cursor is
kept only if it succeeds. Every token read is kept for the token stream; reading a
place again replaces what was read there before.
-/

namespace Unawait

/-- A place in a program that is being read. -/
structure Cursor where
  lexer : Lexer
  /-- The whole text. -/
  text : Text
  /-- The number of bytes of the text. -/
  length : Nat
  /-- More than the number of tokens in the text, to bound repetitions. -/
  limit : Nat
  current : Option Lexed := none
  ahead : Option Lexed := none
  /-- The slash that starts a regular expression, while that is to be read. -/
  slash : Option Nat := none
  /-- The span of the token before the cursor. -/
  previous : Span := ⟨0, 0⟩
  /-- The spans of the tokens read, the last one first. -/
  tokens : List Span := []
  /-- The labels of the statements around the place. -/
  labels : List Text := []
  /-- Where an arrow function may start. -/
  arrowStart : Option Nat := none
  /-- Something was met that only a module can hold. -/
  isModule : Bool := false

/-- A step in reading a program. A failure is the place that is wrong; the cursor
stays where it was met. -/
abbrev Parse := EStateM Nat Cursor

namespace Cursor

/-- The cursor before the first token of a text. -/
def ofText (text : Text) (dialect : Dialect) : Cursor :=
  { lexer := .ofText text dialect, text, length := text.bytes, limit := text.length + 2 }

/-- Keep the span of a token. Tokens that start at or after it were read before the
cursor was moved back. -/
def keep (span : Span) (tokens : List Span) : List Span :=
  span :: tokens.dropWhile fun token => span.start ≤ token.start

/-- Read a token from the text. -/
def read (scan : Scan (Option Lexed)) (cursor : Cursor) : Option Lexed × Cursor :=
  match scan cursor.lexer with
  | .ok (some lexed) lexer =>
    let tokens := if lexed.lexeme = .hashbang then cursor.tokens else keep lexed.span cursor.tokens
    (some lexed, { cursor with lexer, tokens })
  | .ok none lexer => (none, { cursor with lexer })
  | .error _ lexer => (none, { cursor with lexer })

/-- Read the next token from the text. -/
def readNext (cursor : Cursor) : Option Lexed × Cursor :=
  match cursor.slash with
  | some slash => cursor.read (Lexer.nextRegex cursor.text slash)
  | none => cursor.read Lexer.next

/-- The token at the cursor, which is read if it was not. -/
def fetch (cursor : Cursor) : Cursor :=
  if cursor.current.isSome then cursor
  else if cursor.ahead.isSome then { cursor with current := cursor.ahead, ahead := none }
  else
    let (lexed, cursor) := cursor.readNext
    { cursor with current := lexed }

/-- The token after the one at the cursor, which is read if it was not. -/
def fetchAhead (cursor : Cursor) : Cursor :=
  let cursor := cursor.fetch
  if cursor.ahead.isSome then cursor
  else
    let (lexed, cursor) := cursor.readNext
    { cursor with ahead := lexed }

end Cursor

namespace Parse

/-- The token at the cursor; nothing at the end. -/
def token? : Parse (Option Lexed) :=
  modifyGet fun cursor =>
    let cursor := cursor.fetch
    (cursor.current, cursor)

/-- The token after the one at the cursor. -/
def tokenAhead? : Parse (Option Lexed) :=
  modifyGet fun cursor =>
    let cursor := cursor.fetchAhead
    (cursor.ahead, cursor)

/-- The lexeme at the cursor; nothing at the end. -/
def lexeme? : Parse (Option Lexeme) := return (← token?).map Lexed.lexeme

def lexemeAhead? : Parse (Option Lexeme) := return (← tokenAhead?).map Lexed.lexeme

/-- Whether the lexeme at the cursor has a property. -/
def sees (holds : Lexeme → Bool) : Parse Bool := return ((← lexeme?).map holds).getD false

/-- Whether the lexeme after the one at the cursor has a property. -/
def seesAhead (holds : Lexeme → Bool) : Parse Bool := return ((← lexemeAhead?).map holds).getD false

/-- Whether a lexeme is at the cursor. -/
def isAt (lexeme : Lexeme) : Parse Bool := sees (· == lexeme)

def isAhead (lexeme : Lexeme) : Parse Bool := seesAhead (· == lexeme)

/-- Whether a word is at the cursor. -/
def isWord (name : String) : Parse Bool := sees (·.isWord name)

def isWordAhead (name : String) : Parse Bool := seesAhead (·.isWord name)

def atEnd : Parse Bool := return (← token?).isNone

/-- Go past the token at the cursor. -/
def bump : Parse Unit :=
  modify fun cursor =>
    let cursor := cursor.fetch
    match cursor.current with
    | some lexed => { cursor with current := none, previous := lexed.span }
    | none => cursor

/-- Go past a lexeme if it is at the cursor. -/
def eat (lexeme : Lexeme) : Parse Bool := do
  if ← isAt lexeme then
    bump
    return true
  else return false

/-- Go past a word if it is at the cursor. -/
def eatWord (name : String) : Parse Bool := do
  if ← isWord name then
    bump
    return true
  else return false

/-! ## Places -/

/-- The span of the token at the cursor, and at the end that of the last token. -/
def span : Parse Span := do
  match ← token? with
  | some lexed => return lexed.span
  | none => return (← get).previous

/-- Where the token at the cursor starts, and at the end where the last one ends. -/
def position : Parse Nat := do
  match ← token? with
  | some lexed => return lexed.span.start
  | none => return (← get).previous.stop

/-- The span of the token before the cursor. -/
def previous : Parse Span := return (← get).previous

/-- The span from a place to the end of the last token. -/
def spanFrom (start : Nat) : Parse Span := return ⟨start, (← get).previous.stop⟩

/-- The span of the token at the cursor if it was looked at, and otherwise that of the
token before it. -/
def lookedAt : Parse Span := do
  let cursor ← get
  return (cursor.current.map Lexed.span).getD cursor.previous

/-- Whether a line break, or the end, is before the token at the cursor. -/
def afterBreak : Parse Bool := return ((← token?).map Lexed.afterBreak).getD true

/-- Whether a line break, or the end, is between the next two tokens. -/
def breakAhead : Parse Bool := return ((← tokenAhead?).map Lexed.afterBreak).getD true

/-! ## The context -/

def context : Parse Context := return (← get).lexer.context

def isTypescript : Parse Bool := return (← get).lexer.dialect.typescript

def isJsx : Parse Bool := return (← get).lexer.dialect.jsx

/-- Set the context. A module turns the faults that count in modules into faults. -/
def setContext (context : Context) : Parse Unit :=
  modify fun cursor =>
    let lexer := cursor.lexer
    let lexer :=
      if context.isModule then
        { lexer with faults := lexer.moduleFaults ++ lexer.faults, moduleFaults := [] }
      else lexer
    { cursor with lexer := { lexer with context } }

/-- Run a step in a changed context; the context is put back also on a failure. -/
def within {α : Type} (change : Context → Context) (step : Parse α) : Parse α := do
  let outer ← context
  setContext (change outer)
  let result ← tryCatch step fun place => do
    setContext outer
    throw place
  setContext outer
  return result

/-- Run a step while a type is read. -/
def withinType {α : Type} (step : Parse α) : Parse α := within ({ · with inType := true }) step

/-- Run a step with `in` as an operator. -/
def allowingIn {α : Type} (step : Parse α) : Parse α := within ({ · with allowIn := true }) step

/-- Run a step with labels and marks of its own. -/
def withFreshState {α : Type} (step : Parse α) : Parse α := do
  let outer ← get
  let restore (cursor : Cursor) : Cursor :=
    { cursor with
      labels := outer.labels, arrowStart := outer.arrowStart, isModule := outer.isModule }
  modify fun cursor => { cursor with labels := [], arrowStart := none, isModule := false }
  let result ← tryCatch step fun place => do
    modify restore
    throw place
  modify restore
  return result

/-! ## Faults and failures -/

/-- Record a fault. An invalid token at the cursor is gone past and recorded before
it. -/
def fault (place : Nat) : Parse Unit :=
  modify fun cursor =>
    if cursor.lexer.context.ignoreFaults then cursor
    else
      let record (places : List Nat) (cursor : Cursor) : Cursor :=
        { cursor with lexer := { cursor.lexer with faults := places ++ cursor.lexer.faults } }
      let cursor := cursor.fetch
      match cursor.current with
      | some { lexeme := .invalid wrong, span, .. } =>
        record [place, wrong] { cursor with current := none, previous := span }
      | _ => record [place] cursor

/-- Record a fault that counts in modules only. -/
def moduleFault (place : Nat) : Parse Unit :=
  modify fun cursor =>
    match Lexer.moduleFault place cursor.lexer with
    | .ok _ lexer => { cursor with lexer }
    | .error _ lexer => { cursor with lexer }

/-- Fail at a place. An invalid token at the cursor is gone past and recorded as a
fault. -/
def failAt {α : Type} (place : Nat) : Parse α := do
  if let some (.invalid wrong) ← lexeme? then
    bump
    fault wrong
  throw place

/-- Fail at the token at the cursor. -/
def unexpected {α : Type} : Parse α := do failAt (← span).start

/-- The token at the cursor. The end of the text is a failure at the end of the last
token, and an invalid token a failure at what is wrong in it. -/
def token : Parse Lexed := do
  match ← token? with
  | none => throw (← get).previous.stop
  | some lexed =>
    match lexed.lexeme with
    | .invalid wrong =>
      bump
      throw wrong
    | _ => return lexed

def lexeme : Parse Lexeme := return (← token).lexeme

/-- Go past a lexeme that has to be at the cursor. -/
def expect (lexeme : Lexeme) : Parse Unit := do
  unless ← eat lexeme do unexpected

/-- Go past a word that has to be at the cursor. -/
def expectWord (name : String) : Parse Unit := do
  unless ← eatWord name do unexpected

/-- Whether a statement may end at the cursor. -/
def isSemicolon : Parse Bool := do
  match ← token? with
  | none => return true
  | some lexed => return lexed.lexeme == .semicolon || lexed.lexeme == .braceClose || lexed.afterBreak

/-- Go past the end of a statement, which may be left out before a closing brace, at
the end, and at a line break. -/
def eatSemicolon : Parse Bool := do
  match ← token? with
  | none => return true
  | some lexed =>
    if lexed.lexeme = .semicolon then
      bump
      return true
    else return lexed.lexeme == .braceClose || lexed.afterBreak

def expectSemicolon : Parse Unit := do
  unless ← eatSemicolon do unexpected

/-- Whether a word that can be a name is at the cursor. -/
def isName : Parse Bool := do
  let context ← context
  sees fun lexeme => lexeme.isAnyWord && !context.isReserved lexeme

def isNameAhead : Parse Bool := do
  let context ← context
  seesAhead fun lexeme => lexeme.isAnyWord && !context.isReserved lexeme

/-! ## Angle brackets

Inside a type every angle bracket is a token of its own, and outside of it an
operator may have several. -/

/-- The operator of two tokens that touch, the first of which is an angle bracket. -/
def merged : Lexeme → Lexeme → Option Lexeme
  | .binary .greater, .binary .greater => some (.binary .shiftRight)
  | .binary .greater, .assign => some (.binary .greaterEqual)
  | .binary .greater, .binary .shiftRight => some (.binary .shiftRightUnsigned)
  | .binary .greater, .binary .greaterEqual => some (.assignBy .shiftRight)
  | .binary .greater, .assignBy .shiftRight => some (.assignBy .shiftRightUnsigned)
  | .binary .less, .binary .less => some (.binary .shiftLeft)
  | .binary .less, .assign => some (.binary .lessEqual)
  | .binary .less, .binary .lessEqual => some (.assignBy .shiftLeft)
  | _, _ => none

/-- Make one operator of the angle bracket at the cursor and the token that touches
it. -/
def mergeAngles : Parse Unit :=
  modify fun cursor =>
    let cursor := cursor.fetchAhead
    match cursor.current, cursor.ahead with
    | some first, some second =>
      match merged first.lexeme second.lexeme with
      | some lexeme =>
        if first.span.stop = second.span.start then
          let span := ⟨first.span.start, second.span.stop⟩
          { cursor with current := some { first with lexeme, span }, ahead := none }
        else cursor
      | none => cursor
    | _, _ => cursor

/-- Go past the first angle bracket of a shift to the left. -/
def cutShift : Parse Unit :=
  modify fun cursor =>
    let cut (lexed : Lexed) : Lexed :=
      { lexeme := .binary .less, span := ⟨lexed.span.start + 1, lexed.span.stop⟩,
        afterBreak := false }
    { cursor with current := cursor.current.map cut }

/-! ## Attempts and repetitions -/

/-- Try a step on a copy of the cursor; its cursor is kept only if it succeeds with
a result. -/
def attempt {α : Type} (step : Parse (Option α)) : Parse (Option α) := fun cursor =>
  let outer := cursor.lexer.context
  let trial :=
    { cursor with lexer := { cursor.lexer with context := { outer with ignoreFaults := true } } }
  match step trial with
  | .ok (some value) after =>
    let context := { after.lexer.context with ignoreFaults := outer.ignoreFaults }
    .ok (some value) { after with lexer := { after.lexer with context } }
  | _ => .ok none cursor

/-- Try a step of TypeScript. -/
def attemptTyped {α : Type} (step : Parse (Option α)) : Parse (Option α) := do
  if ← isTypescript then attempt step else return none

/-- Run a step on a copy of the cursor and forget the copy. -/
def lookAhead {α : Type} (step : Parse α) : Parse α := fun cursor =>
  let outer := cursor.lexer.context
  let trial :=
    { cursor with lexer := { cursor.lexer with context := { outer with ignoreFaults := true } } }
  match step trial with
  | .ok value _ => .ok value cursor
  | .error place _ => .error place cursor

/-- What a repeated step says: go on with a value, or end with one. -/
inductive Progress (α β : Type) where
  | more (value : α)
  | done (result : β)

/-- Repeat a step. The first argument bounds the repetitions. -/
def iterate {α β : Type} (step : α → Parse (Progress α β)) : Nat → α → Parse β
  | 0, _ => do throw (← get).length
  | steps + 1, value => do
    match ← step value with
    | .more value => iterate step steps value
    | .done result => pure result

/-- Repeat a step that reads at least one token whenever it goes on. -/
def repeating {α β : Type} (value : α) (step : α → Parse (Progress α β)) : Parse β := do
  iterate step (← get).limit value

/-- Repeat a step that gives an item as long as a condition holds. -/
def manyWhile {α : Type} (condition : Parse Bool) (item : Parse α) : Parse (List α) := do
  let items ← repeating ([] : List α) fun items => do
    if ← condition then return .more ((← item) :: items)
    else return .done items
  return items.reverse

end Parse

end Unawait
