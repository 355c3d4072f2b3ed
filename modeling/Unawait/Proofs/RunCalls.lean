import Mathlib
import Unawait.Proofs.ConflictDetection
import Unawait.Proofs.EditRendering
import Unawait.Proofs.Fixpoints
import Unawait.Proofs.MappedPlaces

/-!
# The calls of a run

A run that succeeds has made the calls of the script of its tree, and among them, one after
another, those of the rule for each node. So what a rule puts in place of a range can be read
off the result: no range is replaced twice, and in the rendering of the calls the text of a
replacement stands for the bytes of its range. This holds for every tree, whatever the spans
of its nodes are.
-/

namespace Unawait

namespace Edit

/-- In the rendering of a history a text stands for the bytes of a range: it comes where the
first of them would, and nothing comes for the others. -/
def History.Becomes (source : Text) (history : History) (range : Span) (text : Text) : Prop :=
  range.start < range.stop ∧ ∀ index, range.contains index = true →
    history.body source index = if index = range.start then text.encode else []

/-- A range that a call has replaced is its replacement in the result. -/
theorem becomes_of_replaced {source : Text} {history : History} {buffer : Buffer}
    (performed : (Buffer.ofText source).perform history = .ok buffer) {call : Operation}
    {range : Span} {text : Text} (made : call ∈ history)
    (replaced : call.replaced? = some (range, text)) : history.Becomes source range text := by
  have member : (range, text) ∈ history.replacements := List.mem_filterMap.mpr ⟨call, made, replaced⟩
  have reflects := Buffer.reflects_ofText source
  have apart : history.replacements.Pairwise fun first second =>
      ∀ index, first.1.contains index → ¬ second.1.contains index := by
    simpa using reflects.replacements_pairwise performed (by simp [History.replacements])
  refine ⟨(reflects.replacements_inside performed _ member).1, fun index inside => ?_⟩
  have found : history.replacementAt? index = some (range, text) := by
    obtain ⟨front, back, split⟩ := List.append_of_mem member
    rw [History.replacementAt?, List.find?_eq_some_iff_append]
    refine ⟨inside, front, back, split, fun other earlier => ?_⟩
    rw [split] at apart
    have distinct := (List.pairwise_append.mp apart).2.2 other earlier (range, text) (by simp) index
    simpa using mt distinct (not_not_intro inside)
  simp only [History.body, found]

theorem textBefore_of_mem {history : History} {offset : Nat} {text : Text}
    (made : .insertBefore offset text ∈ history) : text <:+: history.textBefore offset := by
  obtain ⟨front, back, rfl⟩ := List.append_of_mem made
  rw [History.textBefore, List.flatMap_append, List.flatMap_cons, Operation.before, if_pos rfl]
  exact ⟨_, _, List.append_assoc _ _ _⟩

/-- How a code comes about: the calls are accepted one after another, and the code is the text
of the buffer that they leave, with definitions behind it or not. Where no call cuts a
character this text is the rendering of the calls. -/
def Made (source : Text) (calls : List Operation) (code : Text) : Prop :=
  ∃ buffer definitions, (Buffer.ofText source).perform calls = .ok buffer ∧
    code = buffer.code ++ definitions ∧
    ((∀ call ∈ calls, call.Aligned source) → buffer.code.encode = History.rendering source calls)

theorem Made.becomes {source : Text} {calls : List Operation} {code : Text}
    (made : Made source calls code) {call : Operation} {range : Span} {text : Text}
    (member : call ∈ calls) (replaced : call.replaced? = some (range, text)) :
    History.Becomes source calls range text := by
  obtain ⟨buffer, -, performed, -⟩ := made
  exact becomes_of_replaced performed member replaced

end Edit

namespace Lowering

/-- A visit that succeeds makes the calls of the rule for each node below, and the rule
succeeds. -/
theorem nodeEffect_of_leads {reading : Reading} {sourceMap : Bool} {node inner : Node}
    {place : Place} {trail : Trail}
    (done : (visitEffect reading sourceMap node place).failure = none)
    (leads : Leads node trail inner) :
    ∃ number,
      (nodeEffect reading inner
        ⟨scopeAlong place.scope trail, trail.head?.or place.parent, number⟩).failure = none ∧
      (nodeEffect reading inner
        ⟨scopeAlong place.scope trail, trail.head?.or place.parent, number⟩).edits <:+:
          (visitEffect reading sourceMap node place).edits := by
  induction node using Node.parts_induction generalizing place trail with
  | _ node ih =>
    rw [visitEffect_eq] at done ⊢
    obtain ⟨marked, visited, lowered⟩ := by simpa only [Effect.failure_andThen] using done
    rw [Effect.edits_andThen _ marked, Effect.edits_andThen _ visited, edits_partsEffect visited]
    obtain ⟨rfl, rfl⟩ | ⟨part, held, trail, below, rfl⟩ := leads_iff.mp leads
    · exact ⟨place.number, lowered,
        List.infix_append_of_infix_right (List.suffix_append _ _).isInfix⟩
    · rw [← placesFrom_fst node place.scope place.number node.parts] at held
      obtain ⟨placed, member, rfl⟩ := List.mem_map.mp held
      obtain ⟨scope, parent⟩ := mem_placesFrom member
      obtain ⟨number, succeeds, within⟩ := ih placed.1 (mem_parts_of_places member)
        (failure_partsEffect visited placed member) below
      rw [scope, parent] at succeeds within
      refine ⟨number, by simpa [List.head?_append] using succeeds, ?_⟩
      have inParts : (visitEffect reading sourceMap placed.1.2 placed.2).edits <:+:
          (places node place).flatMap fun placed =>
            (visitEffect reading sourceMap placed.1.2 placed.2).edits := by
        rw [List.flatMap_def]
        exact List.infix_of_mem_flatten (List.mem_map_of_mem member)
      apply List.infix_append_of_infix_right
      apply List.infix_append_of_infix_left
      simpa [List.head?_append] using within.trans inParts

/-- A call of a script that is no mark is made by the rule for a node. -/
theorem nodeEffect_of_mem_script {reading : Reading} {sourceMap : Bool} {node : Node} {place : Place}
    {edit : Edit.Operation} (made : edit ∈ script reading sourceMap node place)
    (unmarked : edit.isMark = false) :
    ∃ trail inner number, Leads node trail inner ∧ edit ∈ (nodeEffect reading inner
      ⟨scopeAlong place.scope trail, trail.head?.or place.parent, number⟩).edits := by
  induction node using Node.parts_induction generalizing place with
  | _ node ih =>
    rw [script_eq] at made
    rcases List.mem_append.mp made with mark | made
    · unfold markEdits at mark
      split at mark
      · rcases by simpa using mark with rfl | rfl <;> simp [Edit.Operation.isMark] at unmarked
      · simp at mark
    rcases List.mem_append.mp made with inside | own
    · obtain ⟨placed, member, here⟩ := List.mem_flatMap.mp inside
      have part := mem_parts_of_places member
      obtain ⟨trail, inner, number, leads, edited⟩ := ih placed.1 part here
      obtain ⟨scope, parent⟩ := mem_placesFrom member
      rw [scope, parent] at edited
      exact ⟨trail ++ [(node, placed.1.1)], inner, number,
        leads_iff.mpr (.inr ⟨placed.1, part, trail, leads, rfl⟩),
        by simpa [List.head?_append] using edited⟩
    · exact ⟨[], node, place.number, .root, own⟩

end Lowering

namespace Transform

variable {source : Text} {options : Options} {parsed : Parsed} {transformed : Transformed}

theorem eq_error {result : Except Failure Transformed} {failure : Failure}
    (evaluated : (match result with
      | .error reason => some reason
      | .ok _ => none) = some failure) : result = .error failure := by
  cases result with
  | error reason => rw [Option.some.inj evaluated]
  | ok transformed => simp at evaluated

/-- The calls that lowering a source makes on the buffer of its text. -/
def calls (source : Text) (options : Options) (parsed : Parsed) : List Edit.Operation :=
  Lowering.script ⟨source, parsed.tokens, parsed.lines⟩ options.sourceMap parsed.program {}

theorem made_of_lower (done : lower source options parsed = .ok transformed) :
    Edit.Made source (calls source options parsed) transformed.code := by
  obtain ⟨buffer, definitions, performed, code, -⟩ := exists_buffer done
  refine ⟨buffer, definitions, performed, code, fun aligned => ?_⟩
  exact Edit.encode_code ((Edit.Buffer.reflects_ofText source).perform _ performed)
    ((Edit.Buffer.aligned_ofText source).perform _ aligned performed)

/-- A run ends with a refused edit, or it fails as its walk does. -/
theorem lower_cases (source : Text) (options : Options) (parsed : Parsed) :
    let effect := Lowering.visitEffect ⟨source, parsed.tokens, parsed.lines⟩ options.sourceMap
      parsed.program {}
    (∃ refusal, (Edit.Buffer.ofText source).perform effect.edits = .error refusal ∧
      lower source options parsed = .error (.refused refusal)) ∨
    (∃ failure, effect.failure = some failure ∧ lower source options parsed = .error failure) ∨
      effect.failure = none ∧ ∃ transformed, lower source options parsed = .ok transformed := by
  intro effect
  have buffer : (Lowering.State.ofSource source parsed.tokens parsed.lines options.sourceMap).buffer =
    .ofText source := rfl
  rw [lower_eq, Lowering.Effect.apply, buffer]
  cases performed : (Edit.Buffer.ofText source).perform effect.edits with
  | error refusal => exact .inl ⟨refusal, rfl, rfl⟩
  | ok buffer =>
    right
    cases effect.failure with
    | some failure => exact .inl ⟨failure, rfl, rfl⟩
    | none => exact .inr ⟨rfl, _, rfl⟩

theorem walked_of_lower (done : lower source options parsed = .ok transformed) :
    ∃ final, Walk.walk Lowering.visitor parsed.program
      (.ofSource source parsed.tokens parsed.lines options.sourceMap) = .ok () final := by
  unfold lower at done
  dsimp only at done
  split at done
  next final walked => exact ⟨final, walked⟩
  next => simp at done

/-- The rule for a node that has no scope of its own has succeeded, and its calls are among
those of the run. -/
theorem ruleEffect_of_lower (done : lower source options parsed = .ok transformed)
    {trail : Lowering.Trail} {node : Node} (leads : Lowering.Leads parsed.program trail node)
    (plain : node.opensScope = false) :
    ∃ number,
      (Lowering.ruleEffect ⟨source, parsed.tokens, parsed.lines⟩ (Lowering.scopeAlong {} trail)
        number node trail.head?).failure = none ∧
      (Lowering.ruleEffect ⟨source, parsed.tokens, parsed.lines⟩ (Lowering.scopeAlong {} trail)
        number node trail.head?).edits <:+: calls source options parsed := by
  obtain ⟨final, applied, -⟩ := exists_final done
  obtain ⟨succeeded, -, -⟩ := Lowering.Effect.apply_eq_ok applied
  obtain ⟨number, lowered, within⟩ := Lowering.nodeEffect_of_leads succeeded leads
  rw [(Lowering.plays parsed.program {}).ends succeeded] at within
  rw [Lowering.nodeEffect, plain] at lowered within
  exact ⟨_, by simpa using lowered, by simpa [calls] using within⟩

end Transform

end Unawait
