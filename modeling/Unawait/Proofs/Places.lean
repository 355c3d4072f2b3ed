import Mathlib
import Unawait.Edit.Rendering
import Unawait.Proofs.Encoding

/-!
# Places in a text

A place is a line and a column in UTF-16 units. The place behind a text is found by
going through the text; it is the number of line feeds in the text and the length of
what follows the last of them. Going back, a place selects what follows it: whole lines
are skipped first, then units of a line. A place inside a character of two units selects
nothing, and neither does one past the end of a line.

The place behind a text selects what follows the text, and a longer text has a later
place, so that no two cuts of one text share a place.
-/

namespace Unawait

namespace Text

theorem unitsOf_pos (c : Char) : 0 < unitsOf c := by
  unfold unitsOf
  split <;> omega

@[simp] theorem units_append (first second : Text) :
    units (first ++ second) = units first + units second := by
  induction first with
  | nil => simp [units]
  | cons c rest ih => simp [units, ih, Nat.add_assoc]

/-- What follows the last line feed of a text. -/
def lastLine (text : Text) : Text := text.rtakeWhile (· ≠ '\n')

theorem lastLine_concat (text : Text) (c : Char) :
    lastLine (text ++ [c]) = if c = '\n' then [] else lastLine text ++ [c] := by
  rw [lastLine, List.rtakeWhile_concat]
  by_cases feed : c = '\n' <;> simp [feed, lastLine]

/-- What follows a number of line feeds. -/
def afterLines : Nat → Text → Option Text
  | 0, text => some text
  | _ + 1, [] => none
  | lines + 1, c :: rest =>
    if c = '\n' then afterLines lines rest else afterLines (lines + 1) rest

/-- What follows a number of UTF-16 units on the first line. -/
def afterUnits : Nat → Text → Option Text
  | 0, text => some text
  | _ + 1, [] => none
  | units + 1, c :: rest =>
    if c = '\n' ∨ units + 1 < unitsOf c then none else afterUnits (units + 1 - unitsOf c) rest

/-- The character with which a text goes on from a line and a column of UTF-16 units. -/
def charAtPlace? (text : Text) (line column : Nat) : Option Char :=
  ((text.afterLines line).bind (afterUnits column)).bind List.head?

theorem afterLines_feed (before rest : Text) :
    (before ++ '\n' :: rest).afterLines (before.count '\n' + 1) = some rest := by
  induction before with
  | nil => simp [afterLines]
  | cons c more ih =>
    rw [List.cons_append, afterLines]
    by_cases feed : c = '\n'
    · rw [if_pos feed, feed, List.count_cons_self]
      exact ih
    · rw [if_neg feed, List.count_cons_of_ne (by simpa using feed)]
      exact ih

/-- A character of the line makes it a few units more. -/
theorem afterUnits_add {text rest : Text} {c : Char} {column : Nat} (plain : c ≠ '\n')
    (found : text.afterUnits column = some (c :: rest)) :
    text.afterUnits (column + unitsOf c) = some rest := by
  have whole (text : Text) (found : text.afterUnits 0 = some (c :: rest)) :
      text.afterUnits (unitsOf c) = some rest := by
    obtain rfl : text = c :: rest := by simpa [afterUnits] using found
    have positive := unitsOf_pos c
    obtain ⟨more, counted⟩ : ∃ more, unitsOf c = more + 1 := ⟨unitsOf c - 1, by omega⟩
    rw [counted, afterUnits, if_neg (by simp [plain, counted]), counted, Nat.sub_self, afterUnits]
  fun_induction afterUnits column text with
  | case1 text => simpa using whole text (by simpa [afterUnits] using found)
  | case2 column => simp at found
  | case3 column d more stuck => simp at found
  | case4 column d more steps ih =>
    rw [show column + 1 + unitsOf c = column + unitsOf c + 1 by omega, afterUnits,
      if_neg (by simp only [not_or, not_lt] at steps ⊢; exact ⟨steps.1, by omega⟩)]
    simp only [not_or, not_lt] at steps
    rw [show column + unitsOf c + 1 - unitsOf d = column + 1 - unitsOf d + unitsOf c by omega]
    exact ih found

end Text

namespace Edit.Place

/-- One place is in front of another. -/
def Before (first second : Place) : Prop :=
  first.line < second.line ∨ first.line = second.line ∧ first.column < second.column

instance (first second : Place) : Decidable (first.Before second) :=
  inferInstanceAs (Decidable (_ ∨ _))

theorem Before.trans {first second third : Place} (here : first.Before second)
    (after : second.Before third) : first.Before third := by
  simp only [Before] at *
  omega

theorem Before.ne {first second : Place} (before : first.Before second) : first ≠ second := by
  rintro rfl
  simp [Before] at before

@[simp] theorem advance_append (place : Place) (first second : Text) :
    place.advance (first ++ second) = (place.advance first).advance second := by
  fun_induction advance place first with
  | case1 place => rfl
  | case2 place rest ih => simpa [advance] using ih
  | case3 place c rest plain ih => simpa [advance, plain] using ih

theorem before_advance_cons (place : Place) (c : Char) (rest : Text) :
    place.Before (place.advance (c :: rest)) := by
  induction rest using List.reverseRecOn with
  | nil =>
    have positive := Text.unitsOf_pos c
    by_cases feed : c = '\n' <;> simp [advance, Before, feed, positive]
  | append_singleton more last ih =>
    rw [← List.cons_append, advance_append]
    refine ih.trans ?_
    have positive := Text.unitsOf_pos last
    by_cases feed : last = '\n' <;> simp [advance, Before, feed, positive]

/-- The place behind a text is the number of its line feeds and the length of its last
line. -/
theorem advance_eq (text : Text) :
    advance {} text = ⟨text.count '\n', text.lastLine.units⟩ := by
  induction text using List.reverseRecOn with
  | nil => rfl
  | append_singleton before c ih =>
    rw [advance_append, ih, Text.lastLine_concat]
    by_cases feed : c = '\n'
    · simp [advance, feed, Text.units]
    · simp [advance, feed, Text.units]

/-- The place behind a text selects what follows the text. -/
theorem after_advance (before rest : Text) :
    ((before ++ rest).afterLines (advance {} before).line).bind
      (Text.afterUnits (advance {} before).column) = some rest := by
  induction before using List.reverseRecOn generalizing rest with
  | nil => simp [advance, Text.afterLines, Text.afterUnits]
  | append_singleton before c ih =>
    rw [List.append_assoc, List.singleton_append, advance_append]
    by_cases feed : c = '\n'
    · subst feed
      simp [advance, advance_eq, Text.afterLines_feed, Text.afterUnits]
    · obtain ⟨line, skipped, found⟩ := Option.bind_eq_some_iff.mp (ih (c :: rest))
      simp only [advance, feed, if_false]
      rw [skipped]
      exact Text.afterUnits_add feed found

theorem charAtPlace_advance (before rest : Text) (c : Char) :
    (before ++ c :: rest).charAtPlace? (advance {} before).line (advance {} before).column =
      some c := by
  rw [Text.charAtPlace?, after_advance]
  rfl

end Edit.Place

namespace Edit.Piece

@[simp] theorem mappings_append (place : Place) (first second : List Piece) :
    mappings place (first ++ second) =
      mappings place first ++ mappings (place.advance (code first)) second := by
  fun_induction mappings place first with
  | case1 place => rfl
  | case2 place piece rest ih => simpa [mappings, code] using ih
  | case3 place offset rest ih => simpa [mappings, code] using ih

end Edit.Piece

end Unawait
