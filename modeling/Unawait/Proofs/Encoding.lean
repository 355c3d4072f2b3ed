import Mathlib
import Unawait.Text.Basic

/-!
# Texts as bytes

A text is a list of characters while every offset counts bytes, so statements
that go offset by offset are made about the UTF-8 form of a text. Cutting a text
at a boundary is cutting its bytes: a slice between two boundaries is the range of
bytes between them. At any other offset a cut fails and nothing is claimed.
-/

namespace Unawait

/-- A sequence of bytes. -/
abbrev Bytes := List UInt8

namespace Text

/-- The UTF-8 form of a text. -/
def encode (text : Text) : Bytes := text.flatMap String.utf8EncodeChar

/-- An offset at which the text can be cut: it is not past the end and not inside
the bytes of one character. -/
def IsBoundary (text : Text) (offset : Nat) : Prop := (text.dropBytes? offset).isSome

instance (text : Text) (offset : Nat) : Decidable (text.IsBoundary offset) :=
  inferInstanceAs (Decidable (_ = true))

@[simp] theorem encode_nil : encode [] = [] := rfl

@[simp] theorem encode_cons (c : Char) (rest : Text) :
    encode (c :: rest) = String.utf8EncodeChar c ++ encode rest := rfl

@[simp] theorem encode_append (first second : Text) :
    encode (first ++ second) = encode first ++ encode second := by
  simp [encode]

@[simp] theorem length_encode (text : Text) : text.encode.length = text.bytes := by
  induction text with
  | nil => rfl
  | cons c rest ih => simp [bytes, ih]

@[simp] theorem bytes_append (first second : Text) :
    bytes (first ++ second) = bytes first + bytes second := by
  induction first with
  | nil => simp [bytes]
  | cons c rest ih => simp [bytes, ih, Nat.add_assoc]

/-- Dropping succeeds exactly where the text splits, and returns the second part. -/
theorem dropBytes_eq_some_iff {text rest : Text} {offset : Nat} :
    text.dropBytes? offset = some rest ↔ ∃ taken, text = taken ++ rest ∧ taken.bytes = offset := by
  fun_induction dropBytes? text offset with
  | case1 text =>
    constructor
    · intro same
      exact ⟨[], by simpa using same, rfl⟩
    · rintro ⟨taken, rfl, empty⟩
      cases taken with
      | nil => rfl
      | cons c more =>
        have positive := Char.utf8Size_pos c
        simp only [bytes] at empty
        omega
  | case2 n =>
    simp only [reduceCtorEq, false_iff, not_exists, not_and]
    intro taken same
    have none : taken = [] := (List.append_eq_nil_iff.mp same.symm).1
    simp [none, bytes]
  | case3 c more n fits ih =>
    rw [ih]
    clear ih
    constructor
    · rintro ⟨taken, rfl, counted⟩
      refine ⟨c :: taken, rfl, ?_⟩
      simp only [bytes]
      omega
    · rintro ⟨taken, same, counted⟩
      cases taken with
      | nil => simp [bytes] at counted
      | cons d others =>
        obtain ⟨rfl, rfl⟩ := List.cons.inj same
        exact ⟨others, rfl, by simp only [bytes] at counted; omega⟩
  | case4 c more n large =>
    simp only [reduceCtorEq, false_iff, not_exists, not_and]
    intro taken same counted
    cases taken with
    | nil => simp [bytes] at counted
    | cons d others =>
      obtain ⟨rfl, rfl⟩ := List.cons.inj same
      simp only [bytes] at counted
      omega

/-- Taking succeeds exactly where the text splits, and returns the first part. -/
theorem takeBytes_eq_some_iff {text taken : Text} {offset : Nat} :
    text.takeBytes? offset = some taken ↔ ∃ rest, text = taken ++ rest ∧ taken.bytes = offset := by
  fun_induction takeBytes? text offset generalizing taken with
  | case1 text =>
    constructor
    · intro same
      obtain rfl : [] = taken := by simpa using same
      exact ⟨text, rfl, rfl⟩
    · rintro ⟨rest, rfl, empty⟩
      cases taken with
      | nil => rfl
      | cons c more =>
        have positive := Char.utf8Size_pos c
        simp only [bytes] at empty
        omega
  | case2 n =>
    simp only [reduceCtorEq, false_iff, not_exists, not_and]
    intro rest same
    have none : taken = [] := (List.append_eq_nil_iff.mp same.symm).1
    simp [none, bytes]
  | case3 c more n fits ih =>
    simp only [Option.map_eq_some_iff]
    constructor
    · rintro ⟨others, found, rfl⟩
      obtain ⟨rest, rfl, counted⟩ := ih.mp found
      refine ⟨rest, rfl, ?_⟩
      simp only [bytes]
      omega
    · rintro ⟨rest, same, counted⟩
      cases taken with
      | nil => simp [bytes] at counted
      | cons d others =>
        obtain ⟨rfl, rfl⟩ := List.cons.inj same
        exact ⟨others, ih.mpr ⟨rest, rfl, by simp only [bytes] at counted; omega⟩, rfl⟩
  | case4 c more n large =>
    simp only [reduceCtorEq, false_iff, not_exists, not_and]
    intro rest same counted
    cases taken with
    | nil => simp [bytes] at counted
    | cons d others =>
      obtain ⟨rfl, rfl⟩ := List.cons.inj same
      simp only [bytes] at counted
      omega

theorem isBoundary_iff {text : Text} {offset : Nat} :
    text.IsBoundary offset ↔ ∃ taken rest, text = taken ++ rest ∧ taken.bytes = offset := by
  rw [IsBoundary, Option.isSome_iff_exists]
  simp only [dropBytes_eq_some_iff]
  exact exists_comm

@[simp] theorem isBoundary_zero (text : Text) : text.IsBoundary 0 :=
  isBoundary_iff.mpr ⟨[], text, rfl, rfl⟩

@[simp] theorem isBoundary_bytes (text : Text) : text.IsBoundary text.bytes :=
  isBoundary_iff.mpr ⟨text, [], by simp, rfl⟩

/-- Two boundaries in order cut the text in three. -/
theorem split_between {text : Text} {start stop : Nat} (first : text.IsBoundary start)
    (second : text.IsBoundary stop) (ordered : start ≤ stop) :
    ∃ before between after, text = before ++ between ++ after ∧ before.bytes = start ∧
      between.bytes = stop - start := by
  obtain ⟨before, rest, same, counted⟩ := isBoundary_iff.mp first
  obtain ⟨long, after, sameLong, countedLong⟩ := isBoundary_iff.mp second
  rw [same] at sameLong
  rcases List.append_eq_append_iff.mp sameLong with ⟨between, rfl, rfl⟩ | ⟨extra, rfl, rfl⟩
  · refine ⟨before, between, after, by simp [same], counted, ?_⟩
    simp only [bytes_append] at countedLong
    omega
  · have none : bytes extra = 0 := by
      simp only [bytes_append] at counted
      omega
    refine ⟨long ++ extra, [], rest, by simp [same], counted, ?_⟩
    simp only [bytes_append] at counted
    simp only [bytes]
    omega

/-- A slice between boundaries is the range of bytes between them. -/
theorem encode_slice {text : Text} {start stop : Nat} (first : text.IsBoundary start)
    (second : text.IsBoundary stop) (ordered : start ≤ stop) :
    (text.slice start stop).encode = (text.encode.drop start).take (stop - start) := by
  obtain ⟨before, between, after, same, counted, length⟩ := split_between first second ordered
  have dropped : text.dropBytes? start = some (between ++ after) :=
    dropBytes_eq_some_iff.mpr ⟨before, by simp [same], counted⟩
  have taken : (between ++ after).takeBytes? (stop - start) = some between :=
    takeBytes_eq_some_iff.mpr ⟨after, rfl, length⟩
  have sliced : text.slice start stop = between := by
    simp [slice, slice?, ordered, dropped, taken]
  rw [sliced, same, ← length, ← counted]
  simp [List.append_assoc]

theorem IsBoundary.le {text : Text} {offset : Nat} (boundary : text.IsBoundary offset) :
    offset ≤ text.bytes := by
  obtain ⟨taken, rest, rfl, rfl⟩ := isBoundary_iff.mp boundary
  simp

end Text

end Unawait
