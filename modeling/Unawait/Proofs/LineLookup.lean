import Mathlib
import Unawait.SourceMap.Basic
import Unawait.Proofs.MarkPlacement
import Unawait.Proofs.TokenLookup

/-!
# Line and column of an offset

The lines of a text are kept as the offsets at which they start, and the line of an
offset is searched by halving. The starts increase, so the search counts those that are
not behind the offset. At a boundary these are the starts of the lines that begin in the
text in front, one more than it has line feeds, and the last of them is where the last
line of that text starts. So the place that a source map gives for a boundary is the
place behind the text in front of it.

For all offsets, boundaries or not, a line starts behind each byte that is a line feed, so
two offsets are on different lines exactly if such a byte is between them, and the line of
an offset starts behind the last such byte in front of it.
-/

namespace Unawait

namespace Search

/-- In a list whose first entries are exactly those that hold, the search counts them. -/
theorem partitionPoint_eq_countP {starts : List Nat} {offset : Nat}
    (increasing : starts.Pairwise (· < ·)) :
    partitionPoint (fun i => starts.toArray.getD i 0 ≤ offset) starts.length =
      starts.countP (· ≤ offset) := by
  have known {i : Nat} (inside : i < starts.length) : starts.toArray.getD i 0 = starts[i] := by
    simp [inside]
  have monotone : ∀ first second, first ≤ second → second < starts.length →
      decide (starts.toArray.getD second 0 ≤ offset) →
      decide (starts.toArray.getD first 0 ≤ offset) := by
    intro first second less inside held
    rw [known inside, decide_eq_true_eq] at held
    rw [known (less.trans_lt inside), decide_eq_true_eq]
    rcases less.eq_or_lt with rfl | less
    · exact held
    · exact (List.pairwise_iff_getElem.mp increasing first second _ inside less).le.trans held
  obtain ⟨-, below, before, after⟩ :=
    narrow_spec (Nat.zero_le starts.length) (Nat.sub_le _ _) monotone
  refine (countP_eq below fun index inside => ?_).symm
  rw [← known inside]
  constructor
  · intro held
    by_contra high
    rw [after index (not_lt.mp high) inside] at held
    exact Bool.false_ne_true held
  · exact before index (Nat.zero_le index)

end Search

namespace Lines

theorem startsAfterFeeds_append (offset : Nat) (first second : Text) :
    startsAfterFeeds offset (first ++ second) =
      startsAfterFeeds offset first ++ startsAfterFeeds (offset + first.bytes) second := by
  fun_induction startsAfterFeeds offset first with
  | case1 offset => simp [Text.bytes]
  | case2 offset rest ih =>
    have one : '\n'.utf8Size = 1 := rfl
    simp [startsAfterFeeds, ih, Text.bytes, one, Nat.add_assoc]
  | case3 offset c rest plain ih =>
    simp [startsAfterFeeds, plain, ih, Text.bytes, Nat.add_assoc]

/-- The starts of lines are behind the beginning and not behind the end of the text. -/
theorem startsAfterFeeds_bounds (offset : Nat) (text : Text) :
    ∀ start ∈ startsAfterFeeds offset text, offset < start ∧ start ≤ offset + text.bytes := by
  fun_induction startsAfterFeeds offset text with
  | case1 offset => simp
  | case2 offset rest ih =>
    have one : '\n'.utf8Size = 1 := rfl
    intro start member
    rcases List.mem_cons.mp member with rfl | later
    · simp only [Text.bytes, one]
      omega
    · have bounds := ih start later
      simp only [Text.bytes, one]
      omega
  | case3 offset c rest plain ih =>
    intro start member
    have bounds := ih start member
    simp only [Text.bytes]
    omega

theorem startsAfterFeeds_increasing (offset : Nat) (text : Text) :
    (startsAfterFeeds offset text).Pairwise (· < ·) := by
  fun_induction startsAfterFeeds offset text with
  | case1 offset => exact .nil
  | case2 offset rest ih =>
    exact List.pairwise_cons.mpr
      ⟨fun start member => (startsAfterFeeds_bounds _ rest start member).1, ih⟩
  | case3 offset c rest plain ih => exact ih

/-- The starts of all lines increase. -/
theorem starts_increasing (text : Text) : (0 :: startsAfterFeeds 0 text).Pairwise (· < ·) :=
  List.pairwise_cons.mpr ⟨fun start member => (startsAfterFeeds_bounds 0 text start member).1,
    startsAfterFeeds_increasing 0 text⟩

theorem length_startsAfterFeeds (offset : Nat) (text : Text) :
    (startsAfterFeeds offset text).length = text.count '\n' := by
  fun_induction startsAfterFeeds offset text with
  | case1 offset => rfl
  | case2 offset rest ih => simp [ih]
  | case3 offset c rest plain ih => simp [ih, plain]

/-- The line of any offset is the number of lines that start behind the first one and not
behind the offset. -/
theorem line_eq_countP (text : Text) (offset : Nat) :
    (ofText text).line offset = (startsAfterFeeds 0 text).countP (· ≤ offset) := by
  have found := @Search.partitionPoint_eq_countP _ offset (starts_increasing text)
  rw [line, count, ofText, List.size_toArray, found]
  simp

/-- The line of a boundary is the number of line feeds in front of it. -/
theorem line_at_boundary (before rest : Text) :
    (ofText (before ++ rest)).line before.bytes = before.count '\n' := by
  rw [line_eq_countP, startsAfterFeeds_append, List.countP_append, List.countP_eq_length.mpr,
    List.countP_eq_zero.mpr, length_startsAfterFeeds, add_zero]
  · intro start member
    have bounds := startsAfterFeeds_bounds _ rest start member
    simp only [decide_eq_true_eq]
    omega
  · intro start member
    have bounds := startsAfterFeeds_bounds _ before start member
    simp only [decide_eq_true_eq]
    omega

/-- The last line of a text starts where the last of its line starts is. -/
theorem exists_lastLine (before : Text) :
    ∃ head : Text, before = head ++ before.lastLine ∧
      (0 :: startsAfterFeeds 0 before)[before.count '\n']? = some head.bytes := by
  induction before using List.reverseRecOn with
  | nil => exact ⟨[], rfl, rfl⟩
  | append_singleton before c ih =>
    obtain ⟨head, same, start⟩ := ih
    rw [Text.lastLine_concat, startsAfterFeeds_append, ← List.cons_append]
    by_cases feed : c = '\n'
    · refine ⟨before ++ [c], by simp [feed], ?_⟩
      have one : '\n'.utf8Size = 1 := rfl
      rw [List.getElem?_append_right (by simp [feed, length_startsAfterFeeds])]
      simp [feed, length_startsAfterFeeds, startsAfterFeeds, Text.bytes, one]
    · refine ⟨head, ?_, ?_⟩
      · rw [if_neg feed, ← List.append_assoc, ← same]
      · have none : startsAfterFeeds (0 + Text.bytes before) [c] = [] := by
          simp [startsAfterFeeds, feed]
        have counted : (before ++ [c]).count '\n' = before.count '\n' := by simp [feed]
        rw [none, List.append_nil, counted, start]

/-- The line of a boundary starts where the last line of the text in front does. -/
theorem lineStart_at_boundary (before rest : Text) :
    ∃ head : Text, before = head ++ before.lastLine ∧
      (ofText (before ++ rest)).lineStart (before.count '\n') = head.bytes := by
  obtain ⟨head, same, start⟩ := exists_lastLine before
  refine ⟨head, same, ?_⟩
  have found : (0 :: startsAfterFeeds 0 (before ++ rest))[before.count '\n']? = some head.bytes := by
    rw [startsAfterFeeds_append, ← List.cons_append, List.getElem?_append_left, start]
    simp [length_startsAfterFeeds]
  rw [lineStart, ofText]
  simp [Array.getD_eq_getD_getElem?, found]

end Lines

/-! ### Line feeds between offsets -/

namespace Text

/-- A line feed is among the bytes between two offsets, in whatever order they are given. -/
def FeedBetween (text : Text) (first second : Nat) : Prop :=
  ∃ index, min first second ≤ index ∧ index < max first second ∧ text.encode[index]? = some 10

theorem FeedBetween.comm {text : Text} {first second : Nat} :
    text.FeedBetween first second ↔ text.FeedBetween second first := by
  rw [FeedBetween, FeedBetween, min_comm, max_comm]

/-- No other character has the byte of a line feed in its UTF-8 form. -/
theorem feed_not_mem_encodeChar {c : Char} (other : c ≠ '\n') :
    (10 : UInt8) ∉ String.utf8EncodeChar c := by
  have value (number : Nat) : 10 = UInt8.ofNat number ↔ number % 256 = 10 := by
    rw [← UInt8.toNat_inj, UInt8.toNat_ofNat', eq_comm]
    rfl
  have differs : c.val.toNat ≠ 10 := fun same => other (Char.toNat_inj.mp same)
  fun_cases String.utf8EncodeChar c <;>
    simp only [List.mem_cons, List.not_mem_nil, or_false, value] <;> omega

end Text

namespace Lines

/-- Lines start behind the line feeds. -/
theorem mem_startsAfterFeeds {offset start : Nat} {text : Text} :
    start ∈ startsAfterFeeds offset text ↔
      ∃ index, start = offset + index + 1 ∧ text.encode[index]? = some 10 := by
  fun_induction startsAfterFeeds offset text with
  | case1 offset => simp
  | case2 offset rest ih =>
    have bytes : Text.encode ('\n' :: rest) = 10 :: Text.encode rest := rfl
    rw [List.mem_cons, ih, bytes]
    constructor
    · rintro (rfl | ⟨index, rfl, feed⟩)
      · exact ⟨0, rfl, rfl⟩
      · exact ⟨index + 1, by omega, feed⟩
    · rintro ⟨_ | index, rfl, feed⟩
      · exact .inl rfl
      · exact .inr ⟨index, by omega, feed⟩
  | case3 offset c rest plain ih =>
    have size : (String.utf8EncodeChar c).length = c.utf8Size := String.length_utf8EncodeChar c
    rw [ih, Text.encode_cons]
    constructor
    · rintro ⟨index, rfl, feed⟩
      refine ⟨c.utf8Size + index, by omega, ?_⟩
      rwa [List.getElem?_append_right (by omega), size, Nat.add_sub_cancel_left]
    · rintro ⟨index, rfl, feed⟩
      have behind : c.utf8Size ≤ index := by
        by_contra inside
        rw [List.getElem?_append_left (by omega)] at feed
        exact Text.feed_not_mem_encodeChar plain (List.mem_of_getElem? feed)
      rw [List.getElem?_append_right (by omega), size] at feed
      exact ⟨index - c.utf8Size, by omega, feed⟩

/-- Two offsets are on different lines exactly if a line feed is between them. -/
theorem crosses_iff (text : Text) (first second : Nat) :
    (ofText text).crosses first second = true ↔ text.FeedBetween first second := by
  have ordered (first second : Nat) (less : first ≤ second) :
      (ofText text).line first ≠ (ofText text).line second ↔ text.FeedBetween first second := by
    have counted (starts : List Nat) : starts.countP (· ≤ second) =
        starts.countP (· ≤ first) + starts.countP fun start => first < start ∧ start ≤ second := by
      induction starts with
      | nil => rfl
      | cons start rest ih =>
        simp only [List.countP_cons, ih, decide_eq_true_eq]
        split_ifs <;> omega
    rw [line_eq_countP, line_eq_countP, counted, Text.FeedBetween, min_eq_left less, max_eq_right less]
    have between : (startsAfterFeeds 0 text).countP (fun start => first < start ∧ start ≤ second) ≠ 0 ↔
        ∃ index, first ≤ index ∧ index < second ∧ text.encode[index]? = some 10 := by
      rw [← Nat.pos_iff_ne_zero, List.countP_pos_iff]
      simp only [mem_startsAfterFeeds, decide_eq_true_eq]
      constructor
      · rintro ⟨start, ⟨index, rfl, feed⟩, above, below⟩
        exact ⟨index, by omega, by omega, feed⟩
      · rintro ⟨index, above, below, feed⟩
        exact ⟨_, ⟨index, rfl, feed⟩, by omega, by omega⟩
    rw [← between]
    omega
  rw [crosses, bne_iff_ne]
  rcases le_total first second with less | greater
  · exact ordered first second less
  · rw [Text.FeedBetween.comm, ← ordered second first greater, ne_comm]

end Lines

/-! ### Positions -/

/-- The line and the column of an offset, both counted from 1, and columns in bytes. Each line
feed in front of the offset begins a line, and the line of the offset begins behind the last
one of them. -/
structure Text.Position (text : Text) (offset line column : Nat) : Prop where
  line_eq : line = (text.encode.take offset).count 10 + 1
  column_eq : ∃ start ≤ offset, column = offset - start + 1 ∧
    (start = 0 ∨ ∃ index, start = index + 1 ∧ text.encode[index]? = some 10) ∧
    ¬ text.FeedBetween start offset

namespace Lines

/-- The starts of lines that are not behind an offset are the line feeds in front of it. -/
theorem countP_startsAfterFeeds (base offset : Nat) (text : Text) :
    (startsAfterFeeds base text).countP (· ≤ base + offset) = (text.encode.take offset).count 10 := by
  fun_induction startsAfterFeeds base text generalizing offset with
  | case1 base => simp
  | case2 base rest ih =>
    have bytes : Text.encode ('\n' :: rest) = 10 :: Text.encode rest := rfl
    rw [bytes, List.countP_cons]
    cases offset with
    | zero =>
      have later : (startsAfterFeeds (base + 1) rest).countP (· ≤ base + 0) = 0 := by
        rw [List.countP_eq_zero]
        intro start member
        have bounds := startsAfterFeeds_bounds _ rest start member
        simp only [decide_eq_true_eq]
        omega
      rw [later]
      simp
    | succ offset =>
      have shifted := ih offset
      rw [show base + 1 + offset = base + (offset + 1) by omega] at shifted
      simp [shifted]
  | case3 base c rest plain ih =>
    have size : (String.utf8EncodeChar c).length = c.utf8Size := String.length_utf8EncodeChar c
    have none : ((String.utf8EncodeChar c).take offset).count 10 = 0 :=
      List.count_eq_zero.mpr fun feed =>
        Text.feed_not_mem_encodeChar plain (List.mem_of_mem_take feed)
    rw [Text.encode_cons, List.take_append, List.count_append, none, size, Nat.zero_add]
    by_cases inside : offset < c.utf8Size
    · rw [Nat.sub_eq_zero_of_le inside.le, List.take_zero, List.count_nil, List.countP_eq_zero]
      intro start member
      have bounds := startsAfterFeeds_bounds _ rest start member
      simp only [decide_eq_true_eq]
      omega
    · rw [← ih, show base + c.utf8Size + (offset - c.utf8Size) = base + offset by omega]

/-- In an increasing list the entries up to a bound come first. -/
theorem getElem_le_iff {starts : List Nat} (increasing : starts.Pairwise (· < ·)) {i offset : Nat}
    (inside : i < starts.length) : starts[i] ≤ offset ↔ i < starts.countP (· ≤ offset) := by
  induction starts generalizing i with
  | nil => simp at inside
  | cons start rest ih =>
    obtain ⟨above, later⟩ := List.pairwise_cons.mp increasing
    rw [List.countP_cons]
    by_cases here : start ≤ offset
    · cases i with
      | zero => simp [here]
      | succ i => simp [here, ih later (by simpa using inside)]
    · have none : rest.countP (· ≤ offset) = 0 := by
        rw [List.countP_eq_zero]
        intro other member
        have behind := above other member
        simp only [decide_eq_true_eq]
        omega
      cases i with
      | zero => simp [here, none]
      | succ i =>
        have behind := above _ (List.getElem_mem (by simpa using inside))
        simp only [List.getElem_cons_succ, none, here, decide_false, Bool.false_eq_true, if_false]
        omega

/-- The line of an offset is one of the lines. -/
theorem line_lt_length (text : Text) (offset : Nat) :
    (ofText text).line offset < (0 :: startsAfterFeeds 0 text).length := by
  have bound := @List.countP_le_length _ (· ≤ offset) (startsAfterFeeds 0 text)
  rw [line_eq_countP, List.length_cons]
  omega

theorem lineStart_eq (text : Text) {line : Nat} (inside : line < (0 :: startsAfterFeeds 0 text).length) :
    (ofText text).lineStart line = (0 :: startsAfterFeeds 0 text)[line] := by
  have listed : (ofText text).starts = (0 :: startsAfterFeeds 0 text).toArray := rfl
  rw [lineStart, listed, Array.getD_eq_getD_getElem?, List.getElem?_toArray,
    List.getElem?_eq_getElem inside, Option.getD_some]

theorem position_eq (text : Text) (offset : Nat) :
    (ofText text).position offset = ((ofText text).line offset,
      offset - (ofText text).lineStart ((ofText text).line offset)) := by
  have listed : (ofText text).starts = (0 :: startsAfterFeeds 0 text).toArray := rfl
  have inside := line_lt_length text offset
  rw [position, lineStart_eq text inside, listed, Array.getD_eq_getD_getElem?, List.getElem?_toArray,
    List.getElem?_eq_getElem inside, Option.getD_some]

/-- The lines that do not start behind an offset are those up to the line of the offset. -/
theorem lineStart_le_iff (text : Text) (offset : Nat) {line : Nat}
    (inside : line < (0 :: startsAfterFeeds 0 text).length) :
    (ofText text).lineStart line ≤ offset ↔ line ≤ (ofText text).line offset := by
  rw [lineStart_eq text inside, getElem_le_iff (starts_increasing text) inside, line_eq_countP]
  simp

/-- The line of an offset does not start behind it. -/
theorem lineStart_line_le (text : Text) (offset : Nat) :
    (ofText text).lineStart ((ofText text).line offset) ≤ offset :=
  (lineStart_le_iff text offset (line_lt_length text offset)).mpr le_rfl

/-- The line of any offset is the number of line feeds in front of it. -/
theorem line_eq_count (text : Text) (offset : Nat) :
    (ofText text).line offset = (text.encode.take offset).count 10 := by
  rw [line_eq_countP, ← countP_startsAfterFeeds 0, Nat.zero_add]

/-- A line starts at the beginning of the text or behind a line feed. -/
theorem lineStart_line_cases (text : Text) (offset : Nat) :
    (ofText text).lineStart ((ofText text).line offset) = 0 ∨
      ∃ index, (ofText text).lineStart ((ofText text).line offset) = index + 1 ∧
        text.encode[index]? = some 10 := by
  have inside := line_lt_length text offset
  rw [lineStart_eq text inside]
  rcases List.mem_cons.mp (List.getElem_mem inside) with first | later
  · exact .inl first
  · obtain ⟨index, same, feed⟩ := mem_startsAfterFeeds.mp later
    exact .inr ⟨index, by omega, feed⟩

/-- No line feed is between the start of the line of an offset and the offset. -/
theorem not_feedBetween_lineStart (text : Text) (offset : Nat) :
    ¬ text.FeedBetween ((ofText text).lineStart ((ofText text).line offset)) offset := by
  rw [← crosses_iff, crosses, bne_iff_ne, not_not]
  have inside := line_lt_length text offset
  have low := lineStart_line_le text offset
  -- the line begins at its own start, and a line further down begins behind the offset
  apply le_antisymm
  · rw [← lineStart_le_iff text offset (line_lt_length text _)]
    exact (lineStart_line_le text _).trans low
  · exact (lineStart_le_iff text _ inside).mp le_rfl

/-- Lines and columns are found for every offset. -/
theorem position_spec (text : Text) (offset : Nat) :
    text.Position offset (((ofText text).position offset).1 + 1)
      (((ofText text).position offset).2 + 1) := by
  rw [position_eq]
  exact ⟨by rw [line_eq_count], _, lineStart_line_le text offset, rfl,
    lineStart_line_cases text offset, not_feedBetween_lineStart text offset⟩

end Lines

namespace SourceMap

/-- The place of a boundary is the place behind the text in front of it. -/
theorem sourcePlace_at_boundary (name before rest : Text) :
    (ofSource name (before ++ rest)).sourcePlace before.bytes =
      ((Edit.Place.advance {} before).line, (Edit.Place.advance {} before).column) := by
  obtain ⟨head, same, start⟩ := Lines.lineStart_at_boundary before rest
  have line := Lines.line_at_boundary before rest
  have sliced : (before ++ rest).slice? head.bytes before.bytes = some before.lastLine := by
    have between := Text.slice_eq_some head before.lastLine rest
    rwa [← same, ← Text.bytes_append, ← same] at between
  rw [Edit.Place.advance_eq]
  simp only [sourcePlace, ofSource, line, start, sliced]

/-- The place of a boundary is its line with the number of UTF-16 units from the start of the line
up to the boundary. -/
theorem sourcePlace_eq_units {text : Text} {offset : Nat} (name : Text)
    (boundary : text.IsBoundary offset) :
    ∃ head row rest : Text, text = head ++ row ++ rest ∧ (head ++ row).bytes = offset ∧
      head.bytes = (Lines.ofText text).lineStart ((Lines.ofText text).line offset) ∧
      (ofSource name text).sourcePlace offset = ((Lines.ofText text).line offset, row.units) := by
  obtain ⟨rest, dropped⟩ := Option.isSome_iff_exists.mp boundary
  obtain ⟨before, rfl, rfl⟩ := Text.dropBytes_eq_some_iff.mp dropped
  obtain ⟨head, same, start⟩ := Lines.lineStart_at_boundary before rest
  have line := Lines.line_at_boundary before rest
  refine ⟨head, before.lastLine, rest, by rw [← same], by rw [← same], by rw [line, start], ?_⟩
  rw [sourcePlace_at_boundary, Edit.Place.advance_eq, line]

end SourceMap

/-! ### All lookups -/

/-- The lines of a text. The line of any offset, also one past the end, is the number of line feeds
in front of it. It is one of the lines that were found, its start is not behind the offset, and
start and column add up to the offset. Lines do not decrease with offsets, and two offsets are on
different lines exactly if a line feed is between them. At a boundary of the text a source map
gives the line and the UTF-16 units of the text from the start of the line on. -/
theorem line_lookups_exact (text name : Text) :
    let lines := Lines.ofText text
    (∀ offset, lines.line offset = (text.encode.take offset).count 10 ∧
      lines.line offset < lines.count ∧
      lines.lineStart (lines.line offset) ≤ offset ∧
      (lines.position offset).1 = lines.line offset ∧
      lines.lineStart (lines.line offset) + (lines.position offset).2 = offset) ∧
    Monotone lines.line ∧
    (∀ first second, lines.crosses first second = true ↔
      ∃ index, min first second ≤ index ∧ index < max first second ∧
        text.encode[index]? = some 10) ∧
    ∀ offset, text.IsBoundary offset →
      ∃ head row rest : Text, text = head ++ row ++ rest ∧ (head ++ row).bytes = offset ∧
        head.bytes = lines.lineStart (lines.line offset) ∧
        (SourceMap.ofSource name text).sourcePlace offset = (lines.line offset, row.units) := by
  intro lines
  refine ⟨fun offset => ?_, fun first second less => ?_, Lines.crosses_iff text,
    fun offset => SourceMap.sourcePlace_eq_units name⟩
  · have low := Lines.lineStart_line_le text offset
    have found := Lines.line_lt_length text offset
    refine ⟨Lines.line_eq_count text offset, by simpa [lines, Lines.count, Lines.ofText] using found,
      low, ?_, ?_⟩ <;> rw [Lines.position_eq text offset]
    exact Nat.add_sub_cancel' low
  · rw [← Lines.lineStart_le_iff text second (Lines.line_lt_length text first)]
    exact (Lines.lineStart_line_le text first).trans less

/-- Behind a line feed and two characters of several bytes: the second line, which starts at
offset 3, and as its column one unit for the first character and two for the second. -/
theorem line_lookups_exact_astral :
    Text.IsBoundary "é\né😀b".toList 9 ∧
      (SourceMap.ofSource [] "é\né😀b".toList).sourcePlace 9 = (1, 3) := by
  obtain ⟨lookups, -, -, places⟩ := line_lookups_exact "é\né😀b".toList []
  have boundary : Text.IsBoundary "é\né😀b".toList 9 := by decide
  obtain ⟨head, row, rest, whole, stops, starts, place⟩ := places 9 boundary
  have line : (Lines.ofText "é\né😀b".toList).line 9 = 1 := (lookups 9).1.trans (by decide)
  have start : head.bytes = 3 := by rw [starts, line]; decide
  -- the row is what stands between the start of the line and the boundary
  have cut := Text.slice_eq_some head row rest
  rw [← whole, ← Text.bytes_append, stops, start] at cut
  obtain rfl : "é😀".toList = row := Option.some.inj ((by decide : _ = _).trans cut)
  exact ⟨boundary, by rw [place, line]; rfl⟩

end Unawait
