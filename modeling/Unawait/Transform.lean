import Unawait.Edit.Rendering
import Unawait.Lowering.Rules
import Unawait.SourceMap.Basic

/-!
# Transforming a source

A source is parsed, its tree is walked with the rules of the lowering, and the
edited text is the result. A source in which the word `async` does not occur is
passed through without parsing, unless that is switched off.
-/

namespace Unawait

/-- The switches of a transform. -/
structure Options where
  /-- Pass a source without the word `async` through. -/
  fastSkip : Bool := true
  /-- Put the definitions that lowered code needs behind it. -/
  includeHelper : Bool := true
  sourceMap : Bool := false
  /-- The source may hold JSX elements. -/
  jsx : Bool := true
  /-- The source is TypeScript. -/
  typescript : Bool := false
deriving DecidableEq, Inhabited

/-- A source that was read: its tree, its tokens and its lines. -/
structure Parsed where
  program : Node
  tokens : Tokens
  lines : Lines

/-- The result of a transform. -/
structure Transformed where
  code : Text
  /-- The source, kept only for a source map. -/
  source : Option Text
  mappings : List Edit.Mapping
  edited : Bool
  usage : Usage

namespace Transformed

/-- The result for a source that was passed through. -/
def unchanged (source : Text) (options : Options) : Transformed :=
  { code := source, source := if options.sourceMap then some source else none, mappings := [],
    edited := false, usage := {} }

/-- The source map of the result, if it was asked for. -/
def map? (result : Transformed) (file : Text) : Option Text :=
  result.source.map fun source =>
    ((SourceMap.ofSource file source).addAll result.mappings).document file

end Transformed

namespace Transform

/-- Whether a source is passed through. -/
def skips (source : Text) (options : Options) : Bool :=
  options.fastSkip && !Text.occursIn "async".toList source

/-- The result for the state in which a walk has ended. -/
def finish (source : Text) (options : Options) (state : Lowering.State) : Transformed :=
  let edited := state.buffer.edited
  let buffer :=
    if edited && options.includeHelper then state.buffer.append (Prelude.render state.usage)
    else state.buffer
  { code := buffer.code, source := if options.sourceMap then some source else none,
    mappings := buffer.mappings, edited, usage := state.usage }

/-- Lower a source that was read. -/
def lower (source : Text) (options : Options) (parsed : Parsed) : Except Failure Transformed :=
  let state := Lowering.State.ofSource source parsed.tokens parsed.lines options.sourceMap
  match Walk.walk Lowering.visitor parsed.program state with
  | .ok _ state => .ok (finish source options state)
  | .error failure _ => .error failure

end Transform

/-- Transform a source with a way to read it. -/
def transformWith (parse : Text → Options → Except Failure Parsed) (source : Text)
    (options : Options) : Except Failure Transformed :=
  if Transform.skips source options then .ok (Transformed.unchanged source options)
  else do Transform.lower source options (← parse source options)

end Unawait
