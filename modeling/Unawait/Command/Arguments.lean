import Unawait.Lowering.Prelude

/-!
# The arguments of the command

There are options that may stand anywhere, one command, and options of that
command. An option is written with two dashes or, if it has a letter, with one; its
value is the next argument or stands behind an equals sign, for a letter also
directly behind it. Letters without a value can be put together. An argument of two
dashes ends the options.
-/

namespace Unawait.Command

/-- Why there is nothing to run. -/
inductive Stop where
  /-- The arguments make no sense. -/
  | misuse
  | help
  | version
deriving DecidableEq

/-- What an option means. -/
inductive Flag where
  | verbose | json | folder | help | version
  | outFolder | config | noHelpers | noFastSkip | sourceMap | force
  | async | asyncGenerator | asyncIterator
deriving DecidableEq

namespace Flag

/-- The name behind two dashes. -/
def name : Flag → String
  | verbose => "verbose"
  | json => "json"
  | folder => "cwd"
  | help => "help"
  | version => "version"
  | outFolder => "out-dir"
  | config => "config"
  | noHelpers => "no-helpers"
  | noFastSkip => "no-fast-skip"
  | sourceMap => "source-map"
  | force => "force"
  | async => "async"
  | asyncGenerator => "async-gen"
  | asyncIterator => "async-iterator"

/-- The letter behind one dash. -/
def letter? : Flag → Option Char
  | verbose => some 'v'
  | help => some 'h'
  | version => some 'V'
  | outFolder => some 'o'
  | config => some 'c'
  | _ => none

/-- Whether a value follows. -/
def takesValue : Flag → Bool
  | folder => true
  | outFolder => true
  | config => true
  | _ => false

/-- Options that may stand before and behind the command. -/
def shared : List Flag := [verbose, json, folder, help]

/-- Options of `transform`. -/
def ofTransform : List Flag :=
  shared ++ [outFolder, config, noHelpers, noFastSkip, sourceMap, force]

/-- Options of `helpers`. -/
def ofHelpers : List Flag := shared ++ [async, asyncGenerator, asyncIterator]

end Flag

/-- Options and words that were met, in reverse. -/
structure Given where
  flags : List (Flag × Text) := []
  words : List Text := []

namespace Given

/-- Whether an option was met. -/
def has (given : Given) (flag : Flag) : Bool := given.flags.any (·.1 == flag)

/-- The value of an option. -/
def value? (given : Given) (flag : Flag) : Option Text :=
  (given.flags.find? (·.1 == flag)).map (·.2)

/-- Take an option without a value. Only verbosity may be asked for twice. -/
def set (given : Given) (flag : Flag) : Except Stop Given :=
  match flag with
  | .help => .error .help
  | .version => .error .version
  | .verbose => .ok given
  | flag =>
    if given.has flag then .error .misuse
    else .ok { given with flags := (flag, []) :: given.flags }

/-- Take an option with its value, which may not be empty. -/
def setValue (given : Given) (flag : Flag) (value : Text) : Except Stop Given :=
  if given.has flag || value.isEmpty then .error .misuse
  else .ok { given with flags := (flag, value) :: given.flags }

/-- Take the options of letters behind one dash. An option that still needs its
value is given back. -/
def letters (allowed : List Flag) (given : Given) : Text → Except Stop (Given × Option Flag)
  | [] => .ok (given, none)
  | letter :: rest =>
    match allowed.find? (·.letter? == some letter) with
    | none => .error .misuse
    | some flag =>
      if !flag.takesValue then do letters allowed (← given.set flag) rest
      else
        match rest with
        | [] => .ok (given, some flag)
        | '=' :: value => return (← given.setValue flag value, none)
        | value => return (← given.setValue flag value, none)

/-- Take the option of a name behind two dashes. An option that still needs its
value is given back. -/
def long (allowed : List Flag) (given : Given) (text : Text) :
    Except Stop (Given × Option Flag) :=
  let name := text.takeWhile (· != '=')
  let attached := text.drop name.length
  match allowed.find? (·.name.toList == name) with
  | none => .error .misuse
  | some flag =>
    match flag.takesValue, attached with
    | true, [] => .ok (given, some flag)
    | true, _ :: value => return (← given.setValue flag value, none)
    | false, [] => return (← given.set flag, none)
    | false, _ :: _ => .error .misuse

/-- Whether an argument can be the value of an option or a word. A single dash can. -/
def isWord : Text → Bool
  | '-' :: _ :: _ => false
  | _ => true

/-- Go through arguments. The first word ends the reading if it is a command. -/
def scan (allowed : List Flag) (stopAtWord : Bool) :
    List Text → Given → Except Stop (Given × List Text)
  | [], given => .ok (given, [])
  | argument :: rest, given =>
    if isWord argument then
      if stopAtWord then .ok (given, argument :: rest)
      else scan allowed stopAtWord rest { given with words := argument :: given.words }
    else if argument == "--".toList then
      if stopAtWord then .error .misuse
      else .ok ({ given with words := rest.reverse ++ given.words }, [])
    else do
      let (given, pending) ←
        match argument with
        | '-' :: '-' :: text => long allowed given text
        | text => letters allowed given text.tail
      match pending, rest with
      | none, rest => scan allowed stopAtWord rest given
      | some _, [] => .error .misuse
      | some flag, value :: rest =>
        if isWord value then scan allowed stopAtWord rest (← given.setValue flag value)
        else .error .misuse

end Given

/-- What `transform` is asked to do. -/
structure Task where
  /-- The files and folders. -/
  paths : List Text
  outFolder : Option Text
  config : Option Text
  noHelpers : Bool
  noFastSkip : Bool
  sourceMap : Bool
  /-- Transform files that the host would not. -/
  force : Bool
deriving DecidableEq

/-- A command. -/
inductive Verb where
  | transform (task : Task)
  | helpers (usage : Usage)
deriving DecidableEq

/-- What is to be run. -/
structure Request where
  json : Bool
  /-- The folder to work in, if it is another one. -/
  folder : Option Text
  verb : Verb
deriving DecidableEq

namespace Request

/-- The request of a command between options before and behind it. -/
def between (before behind : Given) (verb : Verb) : Request :=
  { json := before.has .json || behind.has .json
    folder := (behind.value? .folder).or (before.value? .folder)
    verb }

/-- `transform` with its arguments. It needs a path, and none may be empty. -/
def transform (before : Given) (arguments : List Text) : Except Stop Request := do
  let (given, _) ← Given.scan Flag.ofTransform false arguments {}
  if given.words.isEmpty || given.words.any List.isEmpty then .error .misuse
  else
    let task : Task :=
      { paths := given.words.reverse
        outFolder := given.value? .outFolder
        config := given.value? .config
        noHelpers := given.has .noHelpers
        noFastSkip := given.has .noFastSkip
        sourceMap := given.has .sourceMap
        force := given.has .force }
    pure (between before given (.transform task))

/-- `helpers` with its arguments. Without a choice all are meant. -/
def helpers (before : Given) (arguments : List Text) : Except Stop Request := do
  let (given, _) ← Given.scan Flag.ofHelpers false arguments {}
  if !given.words.isEmpty then .error .misuse
  else
    let usage : Usage :=
      { asyncFunction := given.has .async
        asyncGenerator := given.has .asyncGenerator
        forAwait := given.has .asyncIterator }
    pure (between before given (.helpers (if usage.any then usage else .all)))

/-- Read the arguments of the command. -/
def ofArguments (arguments : List Text) : Except Stop Request := do
  let (before, rest) ← Given.scan (Flag.version :: Flag.shared) true arguments {}
  match rest with
  | [] => .error .misuse
  | word :: rest =>
    if word == "transform".toList then transform before rest
    else if word == "helpers".toList then helpers before rest
    else if word == "help".toList then .error .help
    else .error .misuse

end Request

end Unawait.Command
