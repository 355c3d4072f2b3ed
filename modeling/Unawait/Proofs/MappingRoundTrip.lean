import Mathlib
import Unawait.Proofs.MappedPlaces
import Unawait.Proofs.SortedEntries

/-!
# Source maps of mappings in any order

Mappings may be added to a map in any order and more than once. The segments that the
map shows are those of the mappings in lexicographic order, and where several have the
same generated place the least of them. The text of the map is read as exactly these
segments. The fields of a segment are numbers of 32 bits, so the difference of two of them
stays within 33 bits with its sign, and its sign and magnitude can be put into one word of
64 bits without loss.
-/

namespace Unawait

/-- No character takes more UTF-16 units than bytes. -/
theorem Text.units_le_bytes (text : Text) : text.units ≤ text.bytes := by
  induction text with
  | nil => exact le_rfl
  | cons c rest ih =>
    have single : unitsOf c ≤ c.utf8Size := by
      simp only [unitsOf, Char.utf8Size, UInt32.lt_iff_toNat_lt, UInt32.le_iff_toNat_le,
        UInt32.reduceToNat, UInt32.toNat_ofNatLT]
      split_ifs <;> omega
    simp only [units, bytes]
    omega

/-- No more lines start up to an offset than there are bytes in front of it. -/
theorem Lines.line_le_offset (text : Text) (offset : Nat) : (ofText text).line offset ≤ offset := by
  rw [line_eq_countP, List.countP_eq_length_filter]
  have increasing := (startsAfterFeeds_increasing 0 text).filter (· ≤ offset)
  have within : (startsAfterFeeds 0 text).filter (· ≤ offset) ⊆ List.range' 1 offset := by
    intro start member
    rw [List.mem_filter, decide_eq_true_eq] at member
    have bounds := startsAfterFeeds_bounds 0 text start member.1
    rw [List.mem_range'_1]
    omega
  have counted := (List.subperm_of_subset (increasing.imp Nat.ne_of_lt) within).length_le
  rwa [List.length_range'] at counted

namespace Segment

/-- The fields of a segment in the order in which segments are compared. -/
def fields (segment : Segment) : Nat ×ₗ Nat ×ₗ Nat ×ₗ Nat :=
  toLex (segment.line, toLex (segment.column, toLex (segment.sourceLine, segment.sourceColumn)))

theorem fields_injective : Function.Injective fields := by
  rintro ⟨line, column, sourceLine, sourceColumn⟩ ⟨line', column', sourceLine', sourceColumn'⟩ same
  simpa [fields] using same

theorem precedes_iff {first second : Segment} :
    precedes first second = true ↔ first.fields ≤ second.fields := by
  simp [precedes, fields, Prod.Lex.toLex_le_toLex]

/-- Segments in order have the same generated place or increasing ones. -/
theorem place_of_fields_le {first second : Segment} (ordered : first.fields ≤ second.fields) :
    first.place = second.place ∨ first.Before second := by
  rw [← precedes_iff] at ordered
  simp only [precedes, Bool.or_eq_true, Bool.and_eq_true, decide_eq_true_eq, beq_iff_eq] at ordered
  rcases ordered with line | ⟨line, column | ⟨column, -⟩⟩
  · exact .inr (.inl line)
  · exact .inr (.inr ⟨line, column⟩)
  · exact .inl (Prod.ext line column)

end Segment

namespace SourceMap

/-! ### The segments of a map -/

/-- Segments as a map shows them: their generated places increase, and of the segments
given for a place the least one is there. -/
structure Condenses (given shown : List Segment) : Prop where
  increasing : shown.Pairwise Segment.Before
  mem_iff : ∀ segment, segment ∈ shown ↔
    segment ∈ given ∧ ∀ other ∈ given, other.place = segment.place → segment.fields ≤ other.fields

/-- Only one list shows what was given. -/
theorem Condenses.unique {given first second : List Segment} (one : Condenses given first)
    (another : Condenses given second) : first = second := by
  have irreflexive (segment : Segment) : ¬ segment.Before segment := fun before => before.ne rfl
  have : Std.Irrefl Segment.Before := ⟨irreflexive⟩
  have : Std.Antisymm Segment.Before :=
    ⟨fun first second before after => absurd (before.trans after) (irreflexive first)⟩
  refine one.increasing.eq_of_mem_iff another.increasing fun segment => ?_
  rw [one.mem_iff, another.mem_iff]

/-- The places of segments, compared as the segments are. -/
def PlaceBefore (first second : Nat × Nat) : Prop :=
  Edit.Place.Before ⟨first.1, first.2⟩ ⟨second.1, second.2⟩

instance : IsStrictOrder (Nat × Nat) PlaceBefore where
  irrefl _ before := before.ne rfl
  trans _ _ _ before after := before.trans after

/-- What a map writes is what it shows of the segments that it was given. -/
theorem condenses_ordered (map : SourceMap) : Condenses map.segments map.ordered := by
  have sorted : (Sorting.sort Segment.precedes map.segments).Pairwise
      fun first second => first.fields ≤ second.fields :=
    (Sorting.pairwise_sort
      (fun first second => by
        simpa only [Segment.precedes_iff] using le_total first.fields second.fields)
      (fun first second third => by
        simpa only [Segment.precedes_iff] using le_trans) map.segments).imp
      Segment.precedes_iff.mp
  have placed : (Sorting.sort Segment.precedes map.segments).Pairwise fun first second =>
      first.place = second.place ∨ PlaceBefore first.place second.place :=
    sorted.imp Segment.place_of_fields_le
  refine ⟨Sorting.pairwise_firstOfEach placed, fun segment => ?_⟩
  rw [ordered, Sorting.mem_firstOfEach placed]
  constructor
  · intro found
    refine ⟨Sorting.mem_sort.mp (List.mem_of_find?_eq_some found), fun other given same => ?_⟩
    have ahead := Sorting.find_precedes sorted (fun entry => le_refl entry.fields) found
      (Sorting.mem_sort.mpr given) (beq_iff_eq.mpr same)
    exact ahead
  · rintro ⟨given, least⟩
    have member := (@Sorting.mem_sort _ Segment.precedes _ _).mpr given
    obtain ⟨first, found⟩ : ∃ first, (Sorting.sort Segment.precedes map.segments).find?
        (fun other => other.place == segment.place) = some first := by
      rw [← Option.isSome_iff_exists, List.find?_isSome]
      exact ⟨segment, member, beq_self_eq_true _⟩
    -- the first segment of the place is not behind this one, and this one is the least
    have ahead := Sorting.find_precedes sorted (fun entry => le_refl entry.fields) found member
      (beq_self_eq_true _)
    have behind := least first (Sorting.mem_sort.mp (List.mem_of_find?_eq_some found))
      (by simpa using List.find?_some found)
    rwa [Segment.fields_injective (le_antisymm ahead behind)] at found

theorem decode_encode (map : SourceMap) :
    decode map.encode = some (map.ordered.map .ofSegment) := by
  refine decode_encodeFrom ((condenses_ordered map).increasing.imp ?_)
  rintro first second (line | ⟨line, -⟩)
  · exact Nat.le_of_lt line
  · exact Nat.le_of_eq line

/-! ### The numbers of a map -/

/-- The numbers that are written for segments from a pen position on. -/
def numbersFrom : Pen → List Segment → List Int
  | _, [] => []
  | pen, segment :: rest =>
    [difference segment.column (if pen.line < segment.line then 0 else pen.column), 0,
      difference segment.sourceLine pen.sourceLine,
      difference segment.sourceColumn pen.sourceColumn]
      ++ numbersFrom ⟨max pen.line segment.line, segment.column, segment.sourceLine,
        segment.sourceColumn, false⟩ rest

/-- Whether a character of a `mappings` text divides segments or lines. -/
def isSeparator (c : Char) : Bool := c == ';' || c == ','

theorem not_isSeparator_of_mem_encode (value : Int) :
    ∀ c ∈ Vlq.encode value, isSeparator c = false := by
  intro c member
  obtain ⟨low, small, rfl⟩ := Vlq.digits_are_base64 _ _ c member
  obtain ⟨noFeed, noComma, -⟩ := Vlq.digit_plain low small
  simp [isSeparator, noFeed, noComma]

theorem filter_encode (value : Int) :
    (Vlq.encode value).filter (fun c => !isSeparator c) = Vlq.encode value := by
  rw [List.filter_eq_self]
  intro c member
  rw [not_isSeparator_of_mem_encode value c member, Bool.not_false]

/-- Apart from separators the text of segments consists of the digits of these numbers. -/
theorem filter_encodeFrom (pen : Pen) (segments : List Segment) :
    (encodeFrom pen segments).filter (fun c => !isSeparator c) =
      (numbersFrom pen segments).flatMap Vlq.encode := by
  induction segments generalizing pen with
  | nil => rfl
  | cons segment rest ih =>
    have feeds : (List.replicate (segment.line - pen.line) ';').filter (fun c => !isSeparator c) =
        [] := by
      simp [isSeparator]
    have comma : (if pen.fresh || pen.line < segment.line then ([] : Text) else [',']).filter
        (fun c => !isSeparator c) = [] := by
      split <;> simp [isSeparator]
    simp only [encodeFrom_cons, segmentText, List.filter_append, feeds, comma, filter_encode, ih,
      numbersFrom, List.flatMap_append, List.flatMap_cons, List.flatMap_nil, List.append_assoc,
      List.nil_append]

/-- Differences of numbers below a bound are less than the bound away from zero. -/
theorem numbersFrom_bounded {bound : Nat} {pen : Pen} {segments : List Segment}
    (column : pen.column < bound) (sourceLine : pen.sourceLine < bound)
    (sourceColumn : pen.sourceColumn < bound)
    (small : ∀ segment ∈ segments, segment.column < bound ∧ segment.sourceLine < bound ∧
      segment.sourceColumn < bound) :
    ∀ number ∈ numbersFrom pen segments, -(bound : Int) < number ∧ number < bound := by
  induction segments generalizing pen with
  | nil => simp [numbersFrom]
  | cons segment rest ih =>
    obtain ⟨columnHere, lineHere, unitsHere⟩ := small segment (by simp)
    intro number member
    simp only [numbersFrom, List.mem_append, List.mem_cons, List.not_mem_nil, or_false] at member
    rcases member with (rfl | rfl | rfl | rfl) | later
    · simp only [difference]
      split <;> omega
    · omega
    · simp only [difference]
      omega
    · simp only [difference]
      omega
    · exact ih columnHere lineHere unitsHere (fun other there => small other (by simp [there]))
        number later

/-! ### Places of offsets -/

/-- Line and column of an offset do not exceed it. -/
theorem sourcePlace_le (name source : Text) (offset : Nat) :
    ((ofSource name source).sourcePlace offset).1 ≤ offset ∧
      ((ofSource name source).sourcePlace offset).2 ≤ offset := by
  have line := Lines.line_le_offset source offset
  simp only [sourcePlace, ofSource]
  generalize (Lines.ofText source).lineStart ((Lines.ofText source).line offset) = start
  cases sliced : source.slice? start offset with
  | none => exact ⟨line, Nat.sub_le _ _⟩
  | some before =>
    refine ⟨line, before.units_le_bytes.trans ?_⟩
    rw [Text.slice?] at sliced
    split at sliced
    · obtain ⟨rest, -, taken⟩ := Option.bind_eq_some_iff.mp sliced
      obtain ⟨-, -, counted⟩ := Text.takeBytes_eq_some_iff.mp taken
      omega
    · cases sliced

theorem segment_bounded {name source : Text} {mapping : Edit.Mapping} {bound : Nat}
    (column : mapping.column < bound) (origin : mapping.origin < bound) :
    ((ofSource name source).segment mapping).column < bound ∧
      ((ofSource name source).segment mapping).sourceLine < bound ∧
      ((ofSource name source).segment mapping).sourceColumn < bound := by
  obtain ⟨line, units⟩ := sourcePlace_le name source mapping.origin
  exact ⟨column, line.trans_lt origin, units.trans_lt origin⟩

/-! ### Numbers in words -/

namespace Vlq

/-- The number with its sign in the lowest bit, computed in words of 64 bits. -/
def signedWord (value : Int64) : UInt64 :=
  (if value < 0 then ((-value) <<< 1) ||| 1 else value <<< 1).toUInt64

/-- Words of 64 bits hold a number, its negation and its magnitude with room for the sign. -/
structure FitsWord (value : Int) : Prop where
  negated : (-Int64.ofInt value).toInt = -value
  shifted : (Int64.ofInt |value| <<< 1).toInt = 2 * |value|
  signed : (signedWord (Int64.ofInt value)).toNat = signed value

section Words

variable {magnitude : Nat} (small : magnitude < 2 ^ 62)
include small

theorem toNat_shiftLeft_ofNat : (Int64.ofInt magnitude <<< 1).toBitVec.toNat = 2 * magnitude := by
  have one : (1 : Int64).toBitVec.smod 64 = 1#64 := by decide
  have bits : (Int64.ofInt magnitude).toBitVec = BitVec.ofNat 64 magnitude := by
    rw [Int64.toBitVec_ofInt, BitVec.ofInt_natCast]
  rw [Int64.toBitVec_shiftLeft, one, bits, BitVec.shiftLeft_eq', BitVec.toNat_shiftLeft,
    Nat.shiftLeft_eq]
  simp only [BitVec.toNat_ofNat, Nat.reducePow, Nat.reduceMod]
  omega

theorem toInt_shiftLeft_ofNat : (Int64.ofInt magnitude <<< 1).toInt = 2 * magnitude := by
  have bits := toNat_shiftLeft_ofNat small
  rw [← Int64.toInt_toBitVec, BitVec.toInt_eq_toNat_of_lt (by omega), bits]
  push_cast
  ring

end Words

theorem signedWord_ofInt {value : Int} (above : -2 ^ 32 < value) (below : value < 2 ^ 32) :
    (signedWord (Int64.ofInt value)).toNat = signed value := by
  have held : (Int64.ofInt value).toInt = value := Int64.toInt_ofInt_of_le (by omega) (by omega)
  have negative : Int64.ofInt value < 0 ↔ value < 0 := by
    rw [Int64.lt_iff_toInt_lt, held, Int64.toInt_zero]
  have doubled := @toNat_shiftLeft_ofNat value.natAbs (by omega)
  rw [signedWord, signed]
  by_cases below : value < 0
  · have magnitude : -Int64.ofInt value = Int64.ofInt value.natAbs := by
      rw [← Int64.ofInt_neg]
      congr 1
      omega
    rw [if_pos (negative.mpr below), if_pos below, magnitude]
    change ((Int64.ofInt value.natAbs <<< 1).toBitVec ||| 1#64).toNat = _
    rw [BitVec.toNat_or, doubled]
    -- the doubled magnitude leaves the lowest bit free
    exact (Nat.two_pow_add_eq_or_of_lt (show 1 < 2 ^ 1 by decide) value.natAbs).symm
  · have magnitude : Int64.ofInt value = Int64.ofInt value.natAbs := by
      congr 1
      omega
    rw [if_neg (mt negative.mp below), if_neg below, magnitude]
    exact doubled

theorem fitsWord {value : Int} (above : -2 ^ 32 < value) (below : value < 2 ^ 32) :
    FitsWord value where
  negated := by rw [← Int64.ofInt_neg, Int64.toInt_ofInt_of_le (by omega) (by omega)]
  shifted := by
    rw [Int.abs_eq_natAbs]
    exact toInt_shiftLeft_ofNat (by omega)
  signed := signedWord_ofInt above below

end Vlq

/-! ### Round trip -/

/-- The text of a map is read as exactly the list that condenses the segments of the
mappings. Apart from separators it consists of the digits of numbers, each of which its
digits are read as; if the mappings are given in words of 32 bits, these numbers are less
than 2³² away from zero, so that putting the sign into the lowest bit is exact in words of
64 bits. -/
theorem decode_encode_condenses (name source : Text) (mappings : List Edit.Mapping) :
    (∃ shown, decode ((ofSource name source).addAll mappings).encode =
        some (shown.map .ofSegment) ∧
      ∀ other, Condenses (mappings.map (ofSource name source).segment) other ↔ other = shown) ∧
    ∃ numbers : List Int,
      ((ofSource name source).addAll mappings).encode.filter (fun c => !isSeparator c) =
        numbers.flatMap Vlq.encode ∧
      (∀ number ∈ numbers, Vlq.read? (Vlq.encode number) = some [number]) ∧
      ((∀ mapping ∈ mappings,
          mapping.line < 2 ^ 32 ∧ mapping.column < 2 ^ 32 ∧ mapping.origin < 2 ^ 32) →
        ∀ number ∈ numbers, (-2 ^ 32 < number ∧ number < 2 ^ 32) ∧ Vlq.FitsWord number) := by
  have given : ((ofSource name source).addAll mappings).segments =
      mappings.map (ofSource name source).segment := by
    simp [addAll, ofSource]
  have condensed := condenses_ordered ((ofSource name source).addAll mappings)
  rw [given] at condensed
  refine ⟨⟨_, decode_encode _, fun other => ?_⟩, _, filter_encodeFrom _ _, ?_, ?_⟩
  · constructor
    · exact fun condenses => condenses.unique condensed
    · rintro rfl
      exact condensed
  · intro number _
    have read := Vlq.read_encode number []
    rwa [List.append_nil] at read
  · intro words number member
    have small : ∀ segment ∈ ((ofSource name source).addAll mappings).ordered,
        segment.column < 2 ^ 32 ∧ segment.sourceLine < 2 ^ 32 ∧ segment.sourceColumn < 2 ^ 32 := by
      intro segment shown
      obtain ⟨mapping, added, rfl⟩ := List.mem_map.mp ((condensed.mem_iff segment).mp shown).1
      obtain ⟨-, column, origin⟩ := words mapping added
      exact segment_bounded column origin
    have bounds := numbersFrom_bounded (by decide) (by decide) (by decide) small number member
    exact ⟨bounds, Vlq.fitsWord bounds.1 bounds.2⟩

/-- Mappings of a text of two lines, not in order, two of them equal and three for one place.
One of them is behind the end of the text. -/
def scattered : List Edit.Mapping :=
  [⟨2, 4, 8⟩, ⟨0, 0, 7⟩, ⟨2, 4, 5⟩, ⟨0, 6, 1⟩, ⟨2, 4, 8⟩, ⟨2, 0, 90⟩]

theorem decode_encode_condenses_scattered :
    decode ((ofSource [] "a😀b\ncd".toList).addAll scattered).encode =
        some ([⟨0, 0, 1, 0⟩, ⟨0, 6, 0, 1⟩, ⟨2, 0, 1, 83⟩, ⟨2, 4, 0, 3⟩].map .ofSegment) ∧
      Condenses (scattered.map (ofSource [] "a😀b\ncd".toList).segment)
        [⟨0, 0, 1, 0⟩, ⟨0, 6, 0, 1⟩, ⟨2, 0, 1, 83⟩, ⟨2, 4, 0, 3⟩] ∧
      ∃ numbers : List Int,
        ((ofSource [] "a😀b\ncd".toList).addAll scattered).encode.filter (fun c => !isSeparator c) =
          numbers.flatMap Vlq.encode ∧
        ∀ number ∈ numbers, (-2 ^ 32 < number ∧ number < 2 ^ 32) ∧ Vlq.FitsWord number := by
  obtain ⟨⟨shown, read, only⟩, numbers, written, -, bounded⟩ :=
    decode_encode_condenses [] "a😀b\ncd".toList scattered
  have evaluated : decode ((ofSource [] "a😀b\ncd".toList).addAll scattered).encode =
      some ([⟨0, 0, 1, 0⟩, ⟨0, 6, 0, 1⟩, ⟨2, 0, 1, 83⟩, ⟨2, 4, 0, 3⟩].map .ofSegment) := by
    decide
  have injective : Function.Injective Entry.ofSegment := fun _ _ same => congrArg (·.toSegment) same
  refine ⟨evaluated, (only _).mpr ?_, numbers, written, bounded (by decide)⟩
  exact List.map_injective_iff.mpr injective (Option.some.inj (evaluated.symm.trans read))

end SourceMap

end Unawait
