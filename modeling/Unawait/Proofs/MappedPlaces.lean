import Mathlib
import Unawait.Proofs.HelperUsage
import Unawait.Proofs.LineLookup
import Unawait.Proofs.MappingDecoding

/-!
# What a source map relates

With a source map asked for, a walk marks the ends of every node that it enters, and
nothing else makes a mark. The marks that the result holds are those inside the source
and outside of replaced ranges, each once and at growing places of the code. So the
segments of the map are in order and apart from each other when they are added, the map
leaves none of them out, and they are what its text is read as. A mark stands in front of
the character that follows its offset in the source, in the code as in the source, so
that both places of a segment lead to the same character.
-/

namespace Unawait

/-! ### Segments that are in order -/

namespace Sorting

universe u
variable {α : Type u}

theorem sort_of_pairwise {before : α → α → Bool} {entries : List α}
    (sorted : entries.Pairwise fun first second => before first second = true) :
    sort before entries = entries := by
  induction entries with
  | nil => rfl
  | cons entry rest ih =>
    obtain ⟨least, sorted⟩ := List.pairwise_cons.mp sorted
    rw [sort, ih sorted]
    cases rest with
    | nil => rfl
    | cons next more => rw [insert, if_pos (least next (by simp))]

theorem firstOfEach_of_pairwise {κ : Type u} [BEq κ] [LawfulBEq κ] {key : α → κ} {entries : List α}
    (apart : entries.Pairwise fun first second => key first ≠ key second) :
    firstOfEach key entries = entries := by
  induction entries with
  | nil => rfl
  | cons entry rest ih =>
    obtain ⟨differs, apart⟩ := List.pairwise_cons.mp apart
    rw [firstOfEach, ih apart]
    cases rest with
    | nil => rfl
    | cons next more =>
      dsimp only
      rw [if_neg (by simpa using differs next (by simp))]

end Sorting

/-- The generated place of one segment is in front of that of another. -/
def Segment.Before (first second : Segment) : Prop :=
  Edit.Place.Before ⟨first.line, first.column⟩ ⟨second.line, second.column⟩

namespace SourceMap

/-- The text of a map of one source that has a `mappings` text. -/
def textWith (file source mappings : Text) : Text :=
  "\x7b\"version\":3,\"file\":".toList ++ Json.quoted file
    ++ ",\"sources\":[".toList ++ Json.quoted file
    ++ "],\"sourcesContent\":[".toList ++ Json.quoted source
    ++ "],\"names\":[],\"mappings\":".toList ++ ('"' :: mappings ++ ['"']) ++ ['\x7d']

theorem document_eq (map : SourceMap) :
    map.document map.name = textWith map.name map.source map.encode := by
  have plain : Json.quoted map.encode = '"' :: map.encode ++ ['"'] := quoted_encodeFrom {} _
  unfold document textWith
  rw [plain]

theorem ordered_of_increasing {map : SourceMap}
    (increasing : map.segments.Pairwise Segment.Before) : map.ordered = map.segments := by
  have sorted : Sorting.sort Segment.precedes map.segments = map.segments := by
    refine Sorting.sort_of_pairwise (increasing.imp fun {first second} before => ?_)
    rcases before with line | ⟨same, column⟩
    · simp [Segment.precedes, show first.line < second.line from line]
    · simp [Segment.precedes, show first.line = second.line from same,
        show first.column < second.column from column]
  rw [ordered, sorted]
  refine Sorting.firstOfEach_of_pairwise (increasing.imp fun {first second} before same => ?_)
  obtain ⟨line, column⟩ := Prod.mk.inj same
  exact Edit.Place.Before.ne before (by rw [line, column])

end SourceMap

/-! ### Places of offsets -/

namespace Text

/-- Line and column of an offset: the line feeds in front of it and the UTF-16 units behind
the last of them. -/
def placeAt (text : Text) (offset : Nat) : Nat × Nat :=
  ((text.slice 0 offset).count '\n', (text.slice 0 offset).lastLine.units)

theorem placeAt_boundary (before rest : Text) :
    (before ++ rest).placeAt before.bytes =
      ((Edit.Place.advance {} before).line, (Edit.Place.advance {} before).column) := by
  have front : (before ++ rest).slice 0 before.bytes = before := by
    simpa [bytes] using slice_eq [] before rest
  rw [placeAt, front, Edit.Place.advance_eq]

theorem charAtPlace_placeAt (before rest : Text) (c : Char) :
    (before ++ c :: rest).charAtPlace? ((before ++ c :: rest).placeAt before.bytes).1
      ((before ++ c :: rest).placeAt before.bytes).2 = some c := by
  rw [placeAt_boundary]
  exact Edit.Place.charAtPlace_advance before rest c

/-- No two boundaries of a text share a place. -/
theorem placeAt_injective {text : Text} {first second : Nat} (here : text.IsBoundary first)
    (there : text.IsBoundary second) (same : text.placeAt first = text.placeAt second) :
    first = second := by
  obtain ⟨before, rest, rfl, rfl⟩ := isBoundary_iff.mp here
  obtain ⟨other, more, split, rfl⟩ := isBoundary_iff.mp there
  rw [placeAt_boundary, split, placeAt_boundary] at same
  obtain ⟨line, column⟩ := Prod.mk.inj same
  -- what follows a place decides where the text is cut
  have follows := Edit.Place.after_advance before rest
  rw [line, column, split, Edit.Place.after_advance other more] at follows
  obtain rfl := Option.some.inj follows
  rw [List.append_cancel_right split]

theorem nodup_placeAt {text : Text} {offsets : List Nat} (distinct : offsets.Nodup)
    (boundary : ∀ offset ∈ offsets, text.IsBoundary offset) : (offsets.map text.placeAt).Nodup :=
  distinct.map_on fun first here second there =>
    placeAt_injective (boundary first here) (boundary second there)

end Text

/-! ### The marks of a walk -/

namespace Lowering

open Edit (Operation)

/-- A walk marks the ends of the nodes of the tree and nothing else. -/
theorem mark_mem_script {reading : Reading} {node : Node} {place : Place} {offset : Nat} :
    .mark offset ∈ script reading true node place ↔
      ∃ inner ∈ node.nodes, offset = inner.start ∨ offset = inner.stop := by
  induction node using Node.parts_induction generalizing place with
  | _ node ih =>
    have unmarked : .mark offset ∉ (nodeEffect reading node place).edits := fun made => by
      have mark := notes_nodeEffect.unmarked _ made
      simp [Operation.isMark] at mark
    rw [script_eq, List.mem_append, List.mem_append, Node.nodes_eq]
    simp only [markEdits, if_true, List.mem_cons, List.not_mem_nil, or_false, partsScript,
      List.mem_flatMap, unmarked, Operation.mark.injEq]
    constructor
    · rintro (own | ⟨placed, member, made⟩)
      · exact ⟨node, .inl rfl, own⟩
      · have part := mem_parts_of_places member
        obtain ⟨inner, inside, ends⟩ := (ih placed.1 part).mp made
        exact ⟨inner, .inr ⟨placed.1, part, inside⟩, ends⟩
    · rintro ⟨inner, rfl | ⟨part, held, inside⟩, ends⟩
      · exact .inl ends
      · rw [← placesFrom_fst node place.scope place.number node.parts] at held
        obtain ⟨placed, member, rfl⟩ := List.mem_map.mp held
        exact .inr ⟨placed, member, (ih placed.1 (mem_parts_of_places member)).mpr
          ⟨inner, inside, ends⟩⟩

end Lowering

/-! ### The segments of a result -/

namespace Edit

theorem attached_of_perform {source : Text} {buffer : Buffer} {operations : List Operation}
    (aligned : ∀ operation ∈ operations, operation.Aligned source)
    (performed : (Buffer.ofText source).perform operations = .ok buffer) :
    Attached source buffer.pieces :=
  attached_pieces ((Buffer.reflects_ofText source).perform operations performed)
    ((Buffer.aligned_ofText source).perform operations aligned performed)

section Mappings

variable {source : Text} {buffer : Buffer} {mapping : Mapping}

theorem origin_boundary (attached : Attached source buffer.pieces)
    (member : mapping ∈ buffer.mappings) : source.IsBoundary mapping.origin := by
  obtain ⟨-, -, before, after, c, -, -, cut, counted⟩ := attached.exists_split {} mapping member
  exact Text.isBoundary_iff.mpr ⟨before, c :: after, cut, counted⟩

/-- The code goes on from a mapping with the character that follows its origin in the source,
whatever is put behind the code. -/
theorem exists_common_char (attached : Attached source buffer.pieces)
    (member : mapping ∈ buffer.mappings) (behind : Text) :
    ∃ c, (buffer.code ++ behind).charAtPlace? mapping.line mapping.column = some c ∧
      source.charAtPlace? (source.placeAt mapping.origin).1 (source.placeAt mapping.origin).2 =
        some c := by
  obtain ⟨front, back, before, after, c, whole, generated, cut, counted⟩ :=
    attached.exists_split {} mapping member
  refine ⟨c, ?_, ?_⟩
  · have found := Place.charAtPlace_advance front (back ++ behind) c
    rw [← generated] at found
    rwa [Buffer.code, whole, List.append_assoc, List.cons_append]
  · have found := Text.charAtPlace_placeAt before after c
    rwa [← cut, counted] at found

end Mappings

end Edit

namespace SourceMap

/-- The segment of a mapping from a boundary leads to the place of that boundary. -/
theorem segment_eq {file source : Text} {mapping : Edit.Mapping}
    (boundary : source.IsBoundary mapping.origin) :
    (ofSource file source).segment mapping =
      ⟨mapping.line, mapping.column, (source.placeAt mapping.origin).1,
        (source.placeAt mapping.origin).2⟩ := by
  obtain ⟨before, rest, rfl, counted⟩ := Text.isBoundary_iff.mp boundary
  rw [segment, ← counted, sourcePlace_at_boundary, Text.placeAt_boundary]

end SourceMap

namespace Transform

open Edit (Operation History)

/-- The ends of nodes that are inside a source and not in a range that is replaced. -/
def mappedOffsets (source : Text) (edits : List Operation) (program : Node) : List Nat :=
  (program.nodes.flatMap fun node => [node.start, node.stop]).dedup.filter fun offset =>
    offset < source.bytes && (History.replacementAt? edits offset).isNone

theorem nodup_mappedOffsets (source : Text) (edits : List Operation) (program : Node) :
    (mappedOffsets source edits program).Nodup :=
  (List.nodup_dedup _).filter _

/-- The mappings of a walk come from the ends of nodes that are kept, each from another one. -/
theorem origins_of_script {source : Text} {reading : Lowering.Reading} {program : Node}
    {place : Lowering.Place} {buffer : Edit.Buffer}
    (aligned : ∀ edit ∈ Lowering.script reading true program place, edit.Aligned source)
    (performed : (Edit.Buffer.ofText source).perform
      (Lowering.script reading true program place) = .ok buffer) :
    (buffer.mappings.map Edit.Mapping.origin).Perm
      (mappedOffsets source (Lowering.script reading true program place) program) := by
  refine (Edit.origins_perm performed).trans ?_
  have sorted := ((Edit.Buffer.aligned_ofText source).perform _ aligned performed).sorted
  have distinct : buffer.marks.Nodup := sorted.imp Nat.ne_of_lt
  rw [List.perm_ext_iff_of_nodup (distinct.filter _) (nodup_mappedOffsets _ _ _)]
  intro offset
  have marked := Edit.mem_marks_perform (Edit.Buffer.reflects_ofText source) performed offset
  rw [Lowering.mark_mem_script] at marked
  simp only [mappedOffsets, List.mem_filter, List.mem_dedup, List.mem_flatMap, List.mem_cons,
    List.not_mem_nil, or_false, Bool.and_eq_true, decide_eq_true_eq, marked]
  constructor
  · rintro ⟨impossible | ⟨_, ends⟩, kept⟩
    · simp [Edit.Buffer.ofText] at impossible
    · exact ⟨ends, kept⟩
  · rintro ⟨ends, kept⟩
    exact ⟨.inr ⟨kept.1.le, ends⟩, kept⟩

/-- The result of a run is the text of a buffer on which the calls of the script were made, with
definitions behind it or not. -/
theorem exists_buffer {source : Text} {options : Options} {parsed : Parsed}
    {transformed : Transformed} (done : lower source options parsed = .ok transformed) :
    ∃ buffer helpers,
      (Edit.Buffer.ofText source).perform (Lowering.script ⟨source, parsed.tokens, parsed.lines⟩
        options.sourceMap parsed.program {}) = .ok buffer ∧
      transformed.code = buffer.code ++ helpers ∧ transformed.mappings = buffer.mappings ∧
      transformed.source = if options.sourceMap then some source else none := by
  obtain ⟨final, applied, rfl⟩ := exists_final done
  obtain ⟨succeeded, performed, -⟩ := Lowering.Effect.apply_eq_ok applied
  rw [(Lowering.plays parsed.program {}).ends succeeded] at performed
  by_cases defines : (final.buffer.edited && options.includeHelper) = true
  · exact ⟨final.buffer, Prelude.render final.usage, performed,
      by simp only [finish, if_pos defines, Edit.Buffer.code_append],
      by simp only [finish, if_pos defines, Edit.Buffer.mappings_append], rfl⟩
  · exact ⟨final.buffer, [], performed, by simp only [finish, if_neg defines, List.append_nil],
      by simp only [finish, if_neg defines], rfl⟩

end Transform

/-- A result whose mappings are in order has a map whose `mappings` text is read as the segments
of all of them. -/
theorem Transformed.exists_mappings_text {transformed : Transformed} {source : Text} (file : Text)
    (kept : transformed.source = some source)
    (increasing : transformed.mappings.Pairwise fun first second =>
      Edit.Place.Before ⟨first.line, first.column⟩ ⟨second.line, second.column⟩) :
    ∃ field,
      transformed.map? file = some (SourceMap.textWith file source field) ∧
      '"' ∉ field ∧ '\\' ∉ field ∧
      SourceMap.decode field = some (transformed.mappings.map fun mapping =>
        .ofSegment ((SourceMap.ofSource file source).segment mapping)) := by
  let map := (SourceMap.ofSource file source).addAll transformed.mappings
  have apart : map.segments.Pairwise Segment.Before := List.pairwise_map.mpr increasing
  have written : map.encode = SourceMap.encodeFrom {} map.segments := by
    rw [SourceMap.encode, SourceMap.ordered_of_increasing apart]
  have plain := SourceMap.quotedChar_encodeFrom {} map.segments
  refine ⟨SourceMap.encodeFrom {} map.segments, ?_, ?_, ?_, ?_⟩
  · rw [Transformed.map?, kept, Option.map_some]
    exact congrArg some (map.document_eq.trans (by rw [written]; rfl))
  · intro quote
    exact absurd (plain _ quote) (by decide)
  · intro backslash
    exact absurd (plain _ backslash) (by decide)
  · have lines := apart.imp fun {first second} before =>
      (show first.line ≤ second.line by
        rcases before with line | ⟨same, _⟩
        · exact line.le
        · exact same.le)
    rw [SourceMap.decode_encodeFrom lines]
    exact congrArg some (List.map_map ..)

/-- Where a source is read with a source map asked for, all calls are made at boundaries and the
transform succeeds, the `mappings` text of the map is read as segments of the one source. They
lead to the ends of the nodes that are inside the source and not in a replaced range, to each
once, and they are all that was mapped. Their generated places increase, and the code at the
generated place goes on with the same character as the source at the place there. -/
theorem source_map_relates_places (parse : Text → Options → Except Failure Parsed)
    (source file : Text) (options : Options) (parsed : Parsed) (transformed : Transformed)
    (isRead : Transform.skips source options = false) (asked : options.sourceMap = true)
    (parses : parse source options = .ok parsed)
    (aligned : ∀ edit ∈ Lowering.script ⟨source, parsed.tokens, parsed.lines⟩ true
      parsed.program {}, edit.Aligned source)
    (done : transformWith parse source options = .ok transformed) :
    let edits := Lowering.script ⟨source, parsed.tokens, parsed.lines⟩ true parsed.program {}
    (∃ buffer helpers, (Edit.Buffer.ofText source).perform edits = .ok buffer ∧
      transformed.code = buffer.code ++ helpers ∧ transformed.mappings = buffer.mappings) ∧
    ∃ field entries,
      transformed.map? file = some (SourceMap.textWith file source field) ∧
      '"' ∉ field ∧ '\\' ∉ field ∧ SourceMap.decode field = some entries ∧
      (∀ entry ∈ entries, entry.source = 0) ∧
      (entries.map fun entry => (entry.line, entry.column)) =
        (transformed.mappings.map fun mapping => (mapping.line, mapping.column)) ∧
      (entries.map fun entry => (entry.sourceLine, entry.sourceColumn)).Perm
        ((Transform.mappedOffsets source edits parsed.program).map source.placeAt) ∧
      (entries.map fun entry => (entry.sourceLine, entry.sourceColumn)).Nodup ∧
      (entries.Pairwise fun first second => first.toSegment.Before second.toSegment) ∧
      ∀ entry ∈ entries, ∃ c,
        transformed.code.charAtPlace? entry.line entry.column = some c ∧
          source.charAtPlace? entry.sourceLine entry.sourceColumn = some c := by
  intro edits
  rw [Transform.transformWith_eq_lower isRead parses] at done
  obtain ⟨buffer, helpers, performed, code, mappings, kept⟩ := Transform.exists_buffer done
  rw [asked] at performed
  rw [if_pos asked] at kept
  have attached := Edit.attached_of_perform aligned performed
  have increasing := attached.increasing {}
  have leads := Transform.origins_of_script aligned performed
  obtain ⟨field, text, noQuote, noBackslash, decoded⟩ :=
    Transformed.exists_mappings_text file kept (by rw [mappings]; exact increasing)
  rw [mappings] at decoded
  -- a segment leads to the place of the boundary from which its mapping comes
  have segment (mapping : Edit.Mapping) (member : mapping ∈ buffer.mappings) :=
    @SourceMap.segment_eq file source mapping (Edit.origin_boundary attached member)
  have places : (buffer.mappings.map fun mapping =>
      SourceMap.Entry.ofSegment ((SourceMap.ofSource file source).segment mapping)).map
        (fun entry => (entry.sourceLine, entry.sourceColumn)) =
      (buffer.mappings.map Edit.Mapping.origin).map source.placeAt := by
    rw [List.map_map, List.map_map]
    refine List.map_congr_left fun mapping member => ?_
    simp only [Function.comp, SourceMap.Entry.ofSegment, segment mapping member]
  refine ⟨⟨buffer, helpers, performed, code, mappings⟩, field, _, text, noQuote, noBackslash,
    decoded, ?_, ?_, ?_, ?_, List.pairwise_map.mpr increasing, ?_⟩
  · intro entry member
    obtain ⟨mapping, -, rfl⟩ := List.mem_map.mp member
    rfl
  · rw [mappings, List.map_map]
    rfl
  · rw [places]
    exact leads.map source.placeAt
  · rw [places]
    refine Text.nodup_placeAt (leads.nodup_iff.mpr (Transform.nodup_mappedOffsets _ _ _)) ?_
    intro offset origin
    obtain ⟨mapping, member, rfl⟩ := List.mem_map.mp origin
    exact Edit.origin_boundary attached member
  · intro entry member
    obtain ⟨mapping, mapped, rfl⟩ := List.mem_map.mp member
    simpa only [code, SourceMap.Entry.ofSegment, segment mapping mapped] using
      Edit.exists_common_char attached mapped helpers

/-- The program `"😀";`, line feed, `async é=>await é`. -/
def astralArrow : Parsed :=
  let source := "\"😀\";\nasync é=>await é".toList
  let body := .plain .awaitExpression ⟨18, 26⟩ [.one .argument (.plain .identifier ⟨24, 26⟩ [])]
  let arrow := .mk { kind := .arrowFunctionExpression, span := ⟨8, 26⟩, flags := { isAsync := true } }
    [.many .params [.plain .identifier ⟨14, 16⟩ []], .one .body body]
  { program := .plain .program ⟨0, 26⟩ [.many .children [.plain .expression ⟨0, 7⟩ [], arrow]]
    tokens := ⟨source, #[⟨0, 6⟩, ⟨6, 7⟩, ⟨8, 13⟩, ⟨14, 16⟩, ⟨16, 18⟩, ⟨18, 23⟩, ⟨24, 26⟩]⟩
    lines := .ofText source }

/-- What lowering this program with a source map gives. -/
def astralArrowRun : Evaluated (transformWith (fun _ _ => .ok astralArrow)
    astralArrow.tokens.source { sourceMap := true, includeHelper := false })
    (fun transformed => (transformed.code,
      transformed.mappings.map fun mapping => (mapping.line, mapping.column)))
    ("\"😀\";\né=>__async(function*()\x7breturn yield é\x7d())".toList,
      [(0, 0), (0, 5), (1, 0), (1, 1), (1, 36)]) :=
  .ofView (by decide +kernel)

/-- The arrow and the `await` start in ranges that are replaced and most nodes end where the
source does, so five of eight ends are left. The emoji counts two units and the names one. -/
theorem source_map_relates_places_astral :
    let source := astralArrow.tokens.source
    let options : Options := { sourceMap := true, includeHelper := false }
    ∃ transformed field entries,
      transformWith (fun _ _ => .ok astralArrow) source options = .ok transformed ∧
      transformed.code = "\"😀\";\né=>__async(function*()\x7breturn yield é\x7d())".toList ∧
      transformed.map? [] = some (SourceMap.textWith [] source field) ∧
      SourceMap.decode field = some entries ∧
      (entries.map fun entry => (entry.line, entry.column)) =
        [(0, 0), (0, 5), (1, 0), (1, 1), (1, 36)] ∧
      (entries.map fun entry => (entry.sourceLine, entry.sourceColumn)).Perm
        [(0, 0), (0, 5), (1, 6), (1, 7), (1, 15)] ∧
      ∀ entry ∈ entries, ∃ c,
        transformed.code.charAtPlace? entry.line entry.column = some c ∧
          source.charAtPlace? entry.sourceLine entry.sourceColumn = some c := by
  intro source options
  obtain ⟨transformed, done, evaluated⟩ := astralArrowRun
  obtain ⟨code, generated⟩ := Prod.mk.inj evaluated
  have offsets : (Transform.mappedOffsets source (Lowering.script
      ⟨source, astralArrow.tokens, astralArrow.lines⟩ true astralArrow.program {})
      astralArrow.program).map source.placeAt =
      [(0, 0), (0, 5), (1, 6), (1, 7), (1, 15)] := by
    decide +kernel
  obtain ⟨-, field, entries, text, -, -, decoded, -, all, leads, -, -, same⟩ :=
    source_map_relates_places (fun _ _ => .ok astralArrow) source [] options astralArrow
      transformed (by decide +kernel) rfl rfl (by decide +kernel) done
  rw [offsets] at leads
  exact ⟨transformed, field, entries, done, code, text, decoded, all.trans generated, leads, same⟩

end Unawait
