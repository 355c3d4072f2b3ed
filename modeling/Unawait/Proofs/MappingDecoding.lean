import Mathlib
import Unawait.SourceMap.Basic

/-!
# Reading the mappings of a source map

The `mappings` text of a source map has a line for each generated line, divided by
semicolons, and on a line a text for each segment, divided by commas. The text of a
segment is a row of numbers in base-64 digits: how far the generated column, the index of
the source, the line and the column there are behind those of the segment before. The
column starts anew on each line, the others go on.

Reading is defined here by these rules alone. Digits have the values of their place in
the alphabet, five bits belong to the number and the sixth says that more digits follow.
What is written for segments whose lines do not decrease is read back as these segments.
-/

namespace Unawait.SourceMap

namespace Vlq

/-- The value of a base-64 digit. -/
def valueOf? (c : Char) : Option Nat :=
  if 'A' ≤ c ∧ c ≤ 'Z' then some (c.toNat - 'A'.toNat)
  else if 'a' ≤ c ∧ c ≤ 'z' then some (c.toNat - 'a'.toNat + 26)
  else if '0' ≤ c ∧ c ≤ '9' then some (c.toNat - '0'.toNat + 52)
  else if c = '+' then some 62
  else if c = '/' then some 63
  else none

/-- The numbers without sign that a row of digits stands for. A digit with the sixth bit
gives the low bits of the number that the digits behind it start with. -/
def numbers? : Text → Option (List Nat)
  | [] => some []
  | c :: rest =>
    match valueOf? c, numbers? rest with
    | some value, some more =>
      if value < 32 then some (value :: more)
      else
        match more with
        | [] => none
        | high :: others => some ((value - 32 + 32 * high) :: others)
    | _, _ => none

/-- The number whose sign is the lowest bit. -/
def signedValue (number : Nat) : Int :=
  if number % 2 = 1 then -((number / 2 : Nat) : Int) else ((number / 2 : Nat) : Int)

/-- The numbers that a row of digits stands for. -/
def read? (text : Text) : Option (List Int) := (numbers? text).map (List.map signedValue)

theorem valueOf_digit : ∀ value < 64, valueOf? (digit value) = some value := by
  decide +kernel

theorem numbers_final {value : Nat} (final : value < 32) (rest : Text) :
    numbers? (digit value :: rest) = (numbers? rest).map (value :: ·) := by
  rw [numbers?, valueOf_digit value (by omega)]
  cases numbers? rest <;> simp [final]

/-- The digits of a number are read as this number, whatever follows them. -/
theorem numbers_digits {bound value : Nat} (enough : value ≤ bound) (rest : Text) :
    numbers? (digits bound value ++ rest) = (numbers? rest).map (value :: ·) := by
  fun_induction digits bound value with
  | case1 value =>
    obtain rfl : value = 0 := by omega
    exact numbers_final (by decide) rest
  | case2 bound value small => exact numbers_final small rest
  | case3 bound value large ih =>
    rw [List.cons_append, numbers?, valueOf_digit _ (by omega), ih (by omega)]
    cases numbers? rest with
    | none => rfl
    | some more =>
      simp [Nat.mod_add_div]

theorem signedValue_signed (value : Int) : signedValue (signed value) = value := by
  rw [signed, signedValue]
  split <;> split <;> omega

/-- What is written for a number is read as this number, whatever follows. -/
theorem read_encode (value : Int) (rest : Text) :
    read? (encode value ++ rest) = (read? rest).map (value :: ·) := by
  rw [read?, encode, numbers_digits le_rfl, read?]
  cases numbers? rest <;> simp [signedValue_signed]

theorem digits_are_base64 (bound value : Nat) :
    ∀ c ∈ digits bound value, ∃ low < 64, c = digit low := by
  fun_induction digits bound value with
  | case1 value => simpa using ⟨value % 32, by omega, rfl⟩
  | case2 bound value small => simpa using ⟨value, by omega, rfl⟩
  | case3 bound value large ih =>
    intro c member
    rcases List.mem_cons.mp member with rfl | later
    · exact ⟨32 + value % 32, by omega, rfl⟩
    · exact ih c later

/-- A base-64 digit is no separator and needs no escape in a quoted text. -/
theorem digit_plain : ∀ value < 64, digit value ≠ ';' ∧ digit value ≠ ',' ∧
    Json.quotedChar (digit value) = [digit value] := by
  decide +kernel

end Vlq

/-! ### Reading -/

/-- A segment as it is read, with the index of its source. -/
structure Entry extends Segment where
  source : Nat
deriving DecidableEq

namespace Entry

/-- What the first segment is relative to. -/
def origin : Entry := ⟨⟨0, 0, 0, 0⟩, 0⟩

/-- What the first segment of the next line is relative to. -/
def nextLine (last : Entry) : Entry := { last with line := last.line + 1, column := 0 }

/-- A segment of the only source of a map. -/
def ofSegment (segment : Segment) : Entry := ⟨segment, 0⟩

/-- The segment that a text stands for behind another one. Every number counts from the
one before and none is below 0. A segment without a source would have one number and a
segment with a name five; neither is read. -/
def read? (last : Entry) (text : Text) : Option Entry :=
  match Vlq.read? text with
  | some [column, source, sourceLine, sourceColumn] => do
    let column ← Int.toNat? (last.column + column)
    let source ← Int.toNat? (last.source + source)
    let sourceLine ← Int.toNat? (last.sourceLine + sourceLine)
    let sourceColumn ← Int.toNat? (last.sourceColumn + sourceColumn)
    return { line := last.line, column, source, sourceLine, sourceColumn }
  | _ => none

end Entry

/-- The segments of one line. Where nothing stands there is no segment. -/
def readSegments : Entry → List Text → Option (List Entry)
  | _, [] => some []
  | last, [] :: rest => readSegments last rest
  | last, text :: rest =>
    (last.read? text).bind fun entry => (readSegments entry rest).map (entry :: ·)

/-- The segments of lines one after another. -/
def readLines : Entry → List Text → Option (List Entry)
  | _, [] => some []
  | last, line :: rest =>
    (readSegments last (line.splitOn ',')).bind fun entries =>
      (readLines (entries.getLastD last).nextLine rest).map (entries ++ ·)

/-- The segments of a text behind another segment. -/
def readFrom (last : Entry) (text : Text) : Option (List Entry) :=
  readLines last (text.splitOn ';')

/-- The segments of a `mappings` text. -/
def decode (mappings : Text) : Option (List Entry) := readFrom .origin mappings

/-! ### Reading step by step -/

section Split

variable {front rest : Text} {separator : Char}

theorem splitOn_append_cons (absent : separator ∉ front) :
    (front ++ separator :: rest).splitOn separator = front :: rest.splitOn separator := by
  have split := @List.splitOnP_append_cons Char (· == separator) front rest separator (by simp)
  simp only [← List.splitOn_eq_splitOnP] at split
  rw [split, List.splitOn_eq_singleton absent, List.singleton_append]

theorem splitOn_append (absent : separator ∉ front) :
    (front ++ rest).splitOn separator = (rest.splitOn separator).modifyHead (front ++ ·) := by
  induction front with
  | nil =>
    rw [List.nil_append]
    cases rest.splitOn separator <;> rfl
  | cons c more ih =>
    obtain ⟨other, later⟩ := List.ne_and_not_mem_of_not_mem_cons absent
    have plain : (c == separator) = false := by simpa using Ne.symm other
    rw [List.cons_append, List.splitOn_eq_splitOnP, List.splitOnP_cons_eq_if_modifyHead,
      if_neg (by simp [plain]), ← List.splitOn_eq_splitOnP, ih later, List.modifyHead_modifyHead]
    rfl

end Split

theorem readSegments_cons {last entry : Entry} {text : Text} (found : last.read? text = some entry)
    (rest : List Text) :
    readSegments last (text :: rest) = (readSegments entry rest).map (entry :: ·) := by
  cases text with
  | nil => simp [Entry.read?, Vlq.read?, Vlq.numbers?] at found
  | cons c more =>
    rw [readSegments, found, Option.bind_some]
    simp

section Steps

variable {last entry : Entry} {text : Text}

theorem readFrom_feed (rest : Text) : readFrom last (';' :: rest) = readFrom last.nextLine rest := by
  have split := @splitOn_append_cons [] rest ';' (by simp)
  rw [List.nil_append] at split
  rw [readFrom, split, readLines, List.splitOn_nil, readFrom]
  simp [readSegments]

theorem readFrom_last (noFeed : ';' ∉ text) (noComma : ',' ∉ text)
    (found : last.read? text = some entry) : readFrom last text = some [entry] := by
  rw [readFrom, List.splitOn_eq_singleton noFeed, readLines, List.splitOn_eq_singleton noComma,
    readSegments_cons found]
  rfl

/-- Behind a segment and a semicolon reading goes on with the next line. -/
theorem readFrom_segment_feed (noFeed : ';' ∉ text) (noComma : ',' ∉ text)
    (found : last.read? text = some entry) (rest : Text) :
    readFrom last (text ++ ';' :: rest) = (readFrom entry.nextLine rest).map (entry :: ·) := by
  rw [readFrom, splitOn_append_cons noFeed, readLines, List.splitOn_eq_singleton noComma,
    readSegments_cons found, readFrom]
  rfl

/-- Behind a segment and a comma reading goes on with the next segment of the line. -/
theorem readFrom_segment_comma (noFeed : ';' ∉ text) (noComma : ',' ∉ text)
    (found : last.read? text = some entry) (rest : Text) :
    readFrom last (text ++ ',' :: rest) = (readFrom entry rest).map (entry :: ·) := by
  obtain ⟨line, others, split⟩ := List.exists_cons_of_ne_nil (List.splitOn_ne_nil ';' rest)
  have whole : (text ++ ',' :: rest).splitOn ';' = (text ++ ',' :: line) :: others := by
    have noFeedBoth : ';' ∉ text ++ [','] := by simpa using noFeed
    have joined := @splitOn_append (text ++ [',']) rest ';' noFeedBoth
    rw [split] at joined
    simpa using joined
  rw [readFrom, whole, readLines, splitOn_append_cons noComma, readSegments_cons found, readFrom,
    split, readLines]
  cases readSegments entry (line.splitOn ',') with
  | none => rfl
  | some entries =>
    simp only [Option.map_some, Option.bind_some, List.getLastD_cons, Option.map_map]
    rfl

end Steps

/-- Semicolons at the beginning of a line only count lines. -/
theorem readFrom_feeds {last : Entry} (start : last.column = 0) (count : Nat) (rest : Text) :
    readFrom last (List.replicate count ';' ++ rest) =
      readFrom { last with line := last.line + count } rest := by
  induction count generalizing last with
  | zero => rfl
  | succ count ih =>
    rw [List.replicate_succ, List.cons_append, readFrom_feed, @ih last.nextLine rfl]
    simp [Entry.nextLine, start, Nat.add_assoc, Nat.add_comm 1]

/-! ### Reading what is written -/

/-- The numbers of a segment relative to another one. -/
def segmentText (last : Entry) (segment : Segment) : Text :=
  Vlq.encode (difference segment.column last.column) ++ Vlq.encode 0
    ++ Vlq.encode (difference segment.sourceLine last.sourceLine)
    ++ Vlq.encode (difference segment.sourceColumn last.sourceColumn)

theorem add_difference (last next : Nat) : Int.toNat? (last + difference next last) = some next := by
  rw [Int.mem_toNat?, difference]
  omega

theorem read_segmentText {last : Entry} {segment : Segment} (sameLine : last.line = segment.line)
    (sameSource : last.source = 0) :
    last.read? (segmentText last segment) = some (.ofSegment segment) := by
  have numbers : Vlq.read? (segmentText last segment) =
      some [difference segment.column last.column, 0,
        difference segment.sourceLine last.sourceLine,
        difference segment.sourceColumn last.sourceColumn] := by
    have ended := Vlq.read_encode (difference segment.sourceColumn last.sourceColumn) []
    rw [List.append_nil] at ended
    simp only [segmentText, List.append_assoc, Vlq.read_encode, ended]
    rfl
  have only : Int.toNat? (last.source + 0) = some 0 := by rw [sameSource]; rfl
  simp only [Entry.read?, numbers, add_difference, only, sameLine]
  rfl

theorem mem_segmentText {last : Entry} {segment : Segment} {c : Char}
    (member : c ∈ segmentText last segment) : ∃ value < 64, c = Vlq.digit value := by
  simp only [segmentText, List.mem_append, Vlq.encode] at member
  rcases member with ((first | second) | third) | fourth
  all_goals exact Vlq.digits_are_base64 _ _ c ‹_›

theorem separators_not_mem_segmentText (last : Entry) (segment : Segment) :
    ';' ∉ segmentText last segment ∧ ',' ∉ segmentText last segment := by
  constructor
  · intro member
    obtain ⟨value, small, same⟩ := mem_segmentText member
    exact (Vlq.digit_plain value small).1 same.symm
  · intro member
    obtain ⟨value, small, same⟩ := mem_segmentText member
    exact (Vlq.digit_plain value small).2.1 same.symm

/-- The pen when a segment was just written. -/
def Pen.behind (segment : Segment) : Pen :=
  ⟨segment.line, segment.column, segment.sourceLine, segment.sourceColumn, false⟩

@[simp] theorem encodeFrom_nil (pen : Pen) : encodeFrom pen [] = [] := rfl

/-- Behind separators a segment is written relative to where the pen is. -/
theorem encodeFrom_cons (pen : Pen) (next : Segment) (rest : List Segment) :
    encodeFrom pen (next :: rest) =
      List.replicate (next.line - pen.line) ';'
        ++ (if pen.fresh || pen.line < next.line then [] else [','])
        ++ segmentText ⟨⟨next.line, if pen.line < next.line then 0 else pen.column,
          pen.sourceLine, pen.sourceColumn⟩, 0⟩ next
        ++ encodeFrom ⟨max pen.line next.line, next.column, next.sourceLine, next.sourceColumn,
          false⟩ rest :=
  rfl

section Writing

variable {segment next : Segment} (rest : List Segment)

theorem encodeFrom_start :
    encodeFrom {} (next :: rest) =
      List.replicate next.line ';' ++ (segmentText ⟨⟨next.line, 0, 0, 0⟩, 0⟩ next
        ++ encodeFrom (.behind next) rest) := by
  simp [encodeFrom_cons, Pen.behind]

theorem encodeFrom_stay (same : segment.line = next.line) :
    encodeFrom (.behind segment) (next :: rest) =
      ',' :: (segmentText (.ofSegment segment) next ++ encodeFrom (.behind next) rest) := by
  simp [encodeFrom_cons, Pen.behind, ← same, Entry.ofSegment]

theorem encodeFrom_move (later : segment.line < next.line) :
    encodeFrom (.behind segment) (next :: rest) =
      List.replicate (next.line - segment.line) ';'
        ++ (segmentText ⟨⟨next.line, 0, segment.sourceLine, segment.sourceColumn⟩, 0⟩ next
          ++ encodeFrom (.behind next) rest) := by
  simp [encodeFrom_cons, Pen.behind, later, later.le]

end Writing

/-- Segments are read back behind the text of one that was written before. -/
theorem readFrom_behind {last : Entry} {text : Text} {segment : Segment} (rest : List Segment)
    (noFeed : ';' ∉ text) (noComma : ',' ∉ text) (found : last.read? text = some (.ofSegment segment))
    (ordered : (segment :: rest).Pairwise fun first second => first.line ≤ second.line) :
    readFrom last (text ++ encodeFrom (.behind segment) rest) =
      some ((segment :: rest).map .ofSegment) := by
  -- the text of a segment is read together with the separator behind it
  induction rest generalizing last text segment with
  | nil =>
    rw [encodeFrom_nil, List.append_nil, readFrom_last noFeed noComma found]
    rfl
  | cons next rest ih =>
    obtain ⟨least, ordered⟩ := List.pairwise_cons.mp ordered
    have step (base : Entry) (sameLine : base.line = next.line) (sameSource : base.source = 0) :
        readFrom base (segmentText base next ++ encodeFrom (.behind next) rest) =
          some ((next :: rest).map .ofSegment) :=
      ih (separators_not_mem_segmentText base next).1 (separators_not_mem_segmentText base next).2
        (read_segmentText sameLine sameSource) ordered
    rcases (least next (by simp)).eq_or_lt with same | later
    · rw [encodeFrom_stay rest same, readFrom_segment_comma noFeed noComma found, step _ same rfl]
      rfl
    · obtain ⟨lines, counted⟩ : ∃ lines, next.line - segment.line = lines + 1 :=
        ⟨next.line - segment.line - 1, by omega⟩
      have reached : (Entry.ofSegment segment).nextLine.line + lines = next.line := by
        simp only [Entry.nextLine, Entry.ofSegment]
        omega
      rw [encodeFrom_move rest later, counted, List.replicate_succ, List.cons_append,
        readFrom_segment_feed noFeed noComma found, readFrom_feeds rfl, reached]
      exact congrArg (Option.map (.ofSegment segment :: ·))
        (step ⟨⟨next.line, 0, segment.sourceLine, segment.sourceColumn⟩, 0⟩ rfl rfl)

/-- What is written for segments in the order of their lines is read as these segments. -/
theorem decode_encodeFrom {segments : List Segment}
    (ordered : segments.Pairwise fun first second => first.line ≤ second.line) :
    decode (encodeFrom {} segments) = some (segments.map .ofSegment) := by
  cases segments with
  | nil => rfl
  | cons next rest =>
    obtain ⟨noFeed, noComma⟩ := separators_not_mem_segmentText ⟨⟨next.line, 0, 0, 0⟩, 0⟩ next
    rw [encodeFrom_start, decode, readFrom_feeds rfl]
    simp only [Entry.origin, Nat.zero_add]
    exact readFrom_behind rest noFeed noComma (read_segmentText rfl rfl) ordered

/-- A segment is written relative to some other one. -/
theorem exists_encodeFrom_cons (pen : Pen) (next : Segment) (rest : List Segment) :
    ∃ (separators : Text) (last : Entry) (later : Pen),
      encodeFrom pen (next :: rest) = separators ++ (segmentText last next ++ encodeFrom later rest)
        ∧ ∀ c ∈ separators, c = ';' ∨ c = ',' := by
  refine ⟨_, _, _, (encodeFrom_cons pen next rest).trans (List.append_assoc ..), ?_⟩
  intro c member
  rcases List.mem_append.mp member with feed | comma
  · exact .inl (List.eq_of_mem_replicate feed)
  · right
    split at comma <;> simp_all

/-- No character that is written for segments needs an escape. -/
theorem quotedChar_encodeFrom (pen : Pen) (segments : List Segment) :
    ∀ c ∈ encodeFrom pen segments, Json.quotedChar c = [c] := by
  induction segments generalizing pen with
  | nil => simp
  | cons next rest ih =>
    intro c member
    obtain ⟨separators, last, later, written, separates⟩ := exists_encodeFrom_cons pen next rest
    rw [written, List.mem_append, List.mem_append] at member
    rcases member with separator | digit | more
    · rcases separates c separator with rfl | rfl <;> rfl
    · obtain ⟨value, small, rfl⟩ := mem_segmentText digit
      exact (Vlq.digit_plain value small).2.2
    · exact ih later c more

/-- What is written for segments stands between quotation marks as it is. -/
theorem quoted_encodeFrom (pen : Pen) (segments : List Segment) :
    Json.quoted (encodeFrom pen segments) = '"' :: encodeFrom pen segments ++ ['"'] := by
  rw [Json.quoted, List.flatMap_congr (quotedChar_encodeFrom pen segments),
    List.flatMap_singleton']

end Unawait.SourceMap
