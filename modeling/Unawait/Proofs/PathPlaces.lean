import Mathlib
import Unawait.Proofs.FileWrites

/-!
# The places that paths name

A path is read piece by piece, and pieces that are names lead one folder further down.
So a path that is made of names, seen from a folder, names the place that these names
lead to from the place of the folder, and different names name different places.
-/

namespace Unawait

namespace Text

theorem startsWith_iff {text part : Text} : text.startsWith part = true ↔ part <+: text := by
  fun_induction startsWith text part with
  | case1 text => simp
  | case2 d more => simp
  | case3 c rest d more ih =>
    rw [Bool.and_eq_true, beq_iff_eq, ih, List.cons_prefix_cons, eq_comm]

end Text

namespace Path

/-- A text that can be the name of a file: it has no slash in it and does not name a folder
relative to another one. -/
def IsName (text : Text) : Prop := '/' ∉ text ∧ staysPut text = false ∧ goesUp text = false

instance (text : Text) : Decidable (IsName text) := inferInstanceAs (Decidable (_ ∧ _ ∧ _))

theorem IsName.ne_nil {text : Text} (named : IsName text) : text ≠ [] := by
  rintro rfl
  exact absurd named (by decide)

theorem isAbsolute_iff {path : Text} : isAbsolute path = true ↔ path.head? = some '/' := by
  cases path with
  | nil => simp [isAbsolute]
  | cons c rest =>
    rw [List.head?_cons, Option.some.injEq]
    unfold isAbsolute
    split <;> simp_all

theorem IsName.isAbsolute_eq_false {text : Text} (named : IsName text) :
    isAbsolute text = false := by
  rw [← Bool.not_eq_true, isAbsolute_iff]
  exact fun first => named.1 (List.mem_of_head? first)

/-! ### Pieces -/

theorem pieces_ne_nil (path : Text) : pieces path ≠ [] := by
  fun_induction pieces path <;> simp

theorem pieces_cons_of_ne {c : Char} (other : c ≠ '/') {path first : Text} {rest : List Text}
    (split : pieces path = first :: rest) : pieces (c :: path) = (c :: first) :: rest := by
  rw [pieces]
  · rw [split]
  · simpa using other

/-- A slash divides the pieces. -/
theorem pieces_append (first second : Text) :
    pieces (first ++ '/' :: second) = pieces first ++ pieces second := by
  induction first with
  | nil => rfl
  | cons c rest ih =>
    by_cases slash : c = '/'
    · subst slash
      change [] :: pieces (rest ++ '/' :: second) = [] :: pieces rest ++ pieces second
      rw [ih, List.cons_append]
    · obtain ⟨piece, more, split⟩ := List.exists_cons_of_ne_nil (pieces_ne_nil rest)
      have joined : pieces (rest ++ '/' :: second) = piece :: (more ++ pieces second) := by
        rw [ih, split, List.cons_append]
      rw [List.cons_append, pieces_cons_of_ne slash joined, pieces_cons_of_ne slash split,
        List.cons_append]

theorem pieces_of_notMem {text : Text} (whole : '/' ∉ text) : pieces text = [text] := by
  induction text with
  | nil => rfl
  | cons c rest ih =>
    simp only [List.mem_cons, not_or] at whole
    exact pieces_cons_of_ne (Ne.symm whole.1) (ih whole.2)

theorem notMem_of_mem_pieces {path piece : Text} (member : piece ∈ pieces path) : '/' ∉ piece := by
  induction path generalizing piece with
  | nil => simp_all [pieces]
  | cons c rest ih =>
    by_cases slash : c = '/'
    · subst slash
      rcases List.mem_cons.mp (show piece ∈ [] :: pieces rest from member) with rfl | later
      · simp
      · exact ih later
    · obtain ⟨first, more, split⟩ := List.exists_cons_of_ne_nil (pieces_ne_nil rest)
      rw [pieces_cons_of_ne slash split] at member
      rcases List.mem_cons.mp member with rfl | later
      · have := @ih first (by simp [split])
        simp [this, Ne.symm slash]
      · exact ih (by simp [split, later])

theorem ofComponents_cons (first second : Text) (rest : List Text) :
    ofComponents (first :: second :: rest) = first ++ '/' :: ofComponents (second :: rest) := by
  simp [ofComponents, Text.joined]

/-- The pieces of a path that is made of components are the components. -/
theorem pieces_ofComponents {components : List Text} (filled : components ≠ [])
    (whole : ∀ component ∈ components, '/' ∉ component) :
    pieces (ofComponents components) = components := by
  induction components with
  | nil => exact absurd rfl filled
  | cons first rest ih =>
    cases rest with
    | nil => exact pieces_of_notMem (whole first (by simp))
    | cons second more =>
      have below := ih (by simp) fun component member => whole component (by simp [member])
      rw [ofComponents_cons, pieces_append, below, pieces_of_notMem (whole first (by simp)),
        List.singleton_append]

theorem isAbsolute_ofComponents {names : List Text} (named : ∀ name ∈ names, IsName name) :
    isAbsolute (ofComponents names) = false := by
  cases names with
  | nil => rfl
  | cons first rest =>
    have relative := (named first (by simp)).isAbsolute_eq_false
    cases rest with
    | nil => exact relative
    | cons second more =>
      rw [← Bool.not_eq_true, isAbsolute_iff] at relative ⊢
      rwa [ofComponents_cons, List.head?_append_of_ne_nil _ (named first (by simp)).ne_nil]

/-- The last component of a path is a name. -/
theorem isName_of_fileName {path name : Text} (last : fileName? path = some name) :
    IsName name := by
  unfold fileName? at last
  cases found : ((pieces path).filter (!staysPut ·)).getLast? with
  | none => simp [found] at last
  | some piece =>
    rw [found] at last
    obtain ⟨member, stays⟩ := List.mem_filter.mp (List.mem_of_getLast? found)
    cases up : goesUp piece with
    | true => simp [up] at last
    | false =>
      simp only [up, Bool.false_eq_true, if_false, Option.some.injEq] at last
      subst last
      exact ⟨notMem_of_mem_pieces member, by simpa using stays, up⟩

/-! ### Paths that are made of names -/

/-- A path of names one in another. -/
def Named (path : Text) : Prop :=
  ∃ names, names ≠ [] ∧ (∀ name ∈ names, IsName name) ∧ path = ofComponents names

theorem Named.of_isName {name : Text} (named : IsName name) : Named name :=
  ⟨[name], by simp, by simpa using named, rfl⟩

theorem Named.isAbsolute_eq_false {path : Text} (named : Named path) : isAbsolute path = false := by
  obtain ⟨names, -, all, rfl⟩ := named
  exact isAbsolute_ofComponents all

theorem Named.isName {path : Text} (named : Named path) : ∀ piece ∈ pieces path, IsName piece := by
  obtain ⟨names, filled, all, rfl⟩ := named
  rwa [pieces_ofComponents filled fun name member => (all name member).1]

/-- More characters at the end of a path belong to its last component. -/
theorem ofComponents_append {components : List Text} (filled : components ≠ []) (more : Text) :
    ofComponents components ++ more =
      ofComponents (components.dropLast ++ [components.getLast filled ++ more]) := by
  induction components with
  | nil => exact absurd rfl filled
  | cons first rest ih =>
    cases rest with
    | nil => rfl
    | cons second others =>
      have below := ih (by simp)
      rw [ofComponents_cons, List.append_assoc, List.cons_append, below]
      cases others <;> simp [ofComponents_cons]

theorem IsName.append {name more : Text} (named : IsName name) (long : 2 < more.length)
    (whole : '/' ∉ more) : IsName (name ++ more) := by
  have differs (other : Text) (short : other.length ≤ 2) : (name ++ more == other) = false := by
    refine beq_false_of_ne fun same => ?_
    have := congrArg List.length same
    simp only [List.length_append] at this
    omega
  refine ⟨by simp [named.1, whole], ?_, differs _ (by simp)⟩
  rw [staysPut, differs _ (by simp), differs _ (by simp)]
  rfl

theorem Named.append {path more : Text} (named : Named path) (long : 2 < more.length)
    (whole : '/' ∉ more) : Named (path ++ more) := by
  obtain ⟨names, filled, all, rfl⟩ := named
  refine ⟨_, by simp, ?_, ofComponents_append filled more⟩
  intro name member
  rcases List.mem_append.mp member with early | last
  · exact all name (List.mem_of_mem_dropLast early)
  · rw [List.mem_singleton.mp last]
    exact (all _ (List.getLast_mem filled)).append long whole

/-- Such paths are told apart by their pieces. -/
theorem Named.eq_of_pieces {first second : Text} (named : Named first) (other : Named second)
    (same : pieces first = pieces second) : first = second := by
  obtain ⟨names, filled, all, rfl⟩ := named
  obtain ⟨others, otherFilled, otherAll, rfl⟩ := other
  rw [pieces_ofComponents filled fun name member => (all name member).1,
    pieces_ofComponents otherFilled fun name member => (otherAll name member).1] at same
  rw [same]

end Path

namespace Files

/-! ### Places -/

theorem target_append (place : List Text) (first second : List Text) :
    target place (first ++ second) =
      (target place first).bind fun found => target found second := by
  induction first generalizing place with
  | nil => rfl
  | cons piece rest ih =>
    rw [List.cons_append, target, target]
    split
    · exact ih place
    · split
      · split
        · rfl
        · exact ih _
      · exact ih _

/-- Names lead further down. -/
theorem target_names {names : List Text} (named : ∀ name ∈ names, Path.IsName name)
    (place : List Text) :
    target place names = some (place ++ names) := by
  induction names generalizing place with
  | nil => simp [target]
  | cons name rest ih =>
    obtain ⟨-, stays, up⟩ := named name (by simp)
    rw [target, stays, up]
    simp [ih fun other member => named other (by simp [member])]

/-- The folder of the files has an absolute path without a slash at its end, and what stands for a
file are names. -/
structure Proper (files : Files) : Prop where
  absolute : Path.isAbsolute files.root = true
  closed : files.root.getLast? ≠ some '/'
  named : ∀ entry ∈ files.entries, ∀ name ∈ entry.1, Path.IsName name

/-- What follows a folder in a path is followed from the place of the folder. -/
theorem target_pieces_join {folder path : Text} {sign : Text}
    (joint : sign = ['/'] ∨ sign = [] ∧ folder.getLast? = some '/') :
    target [] (Path.pieces (folder ++ sign ++ path)) =
      (target [] (Path.pieces folder)).bind fun place => target place (Path.pieces path) := by
  rcases joint with rfl | ⟨rfl, ends⟩
  · rw [List.append_assoc, List.singleton_append, Path.pieces_append, target_append]
  · obtain ⟨stem, rfl⟩ := List.getLast?_eq_some_iff.mp ends
    have whole : Path.pieces (stem ++ ['/']) = Path.pieces stem ++ [[]] :=
      Path.pieces_append stem []
    -- the empty piece behind the slash leads nowhere
    have still (place : List Text) : target place [[]] = some place := rfl
    rw [List.append_nil, List.append_assoc, List.singleton_append, Path.pieces_append, whole,
      target_append, target_append]
    simp [still]

theorem join_eq {folder : Text} (filled : folder ≠ []) :
    ∃ sign, (sign = ['/'] ∨ sign = [] ∧ folder.getLast? = some '/') ∧
      ∀ path, Path.isAbsolute path = false → Path.join folder path = folder ++ sign ++ path := by
  have joined (path : Text) (relative : Path.isAbsolute path = false) : Path.join folder path =
      if folder.getLast? == some '/' then folder ++ path else folder ++ '/' :: path := by
    rw [Path.join, relative, Bool.false_or, if_neg (by simpa using filled)]
  by_cases ends : folder.getLast? = some '/'
  · exact ⟨[], .inr ⟨rfl, ends⟩, fun path relative => by simp [joined path relative, ends]⟩
  · exact ⟨['/'], .inl rfl, fun path relative => by simp [joined path relative, ends]⟩

variable {files : Files}

/-- Whether a path starts with the path of the folder of the files. -/
def holds (files : Files) (path : Text) : Bool :=
  path == files.root || path.startsWith (files.root ++ ['/'])

theorem holds_of_relative (proper : files.Proper) {path : Text}
    (relative : Path.isAbsolute path = false) :
    files.holds path = false := by
  have first := Path.isAbsolute_iff.mp proper.absolute
  rw [← Bool.not_eq_true, Path.isAbsolute_iff] at relative
  rw [← Bool.not_eq_true, holds, Bool.or_eq_true, beq_iff_eq, Text.startsWith_iff]
  rintro (rfl | starts)
  · exact relative first
  · obtain ⟨rest, rfl⟩ := starts
    exact relative (by simp [List.head?_append, first])

theorem pieces_of_holds {path : Text} (inside : files.holds path = true) :
    files.pieces? path = some (Path.pieces (path.drop files.root.length)) := if_pos inside

theorem pieces_of_not_holds {path : Text} (outside : files.holds path = false) :
    files.pieces? path = if Path.isAbsolute path then none else some (Path.pieces path) := by
  rw [holds] at outside
  simp [pieces?, outside]

/-- What follows a path inside the folder of the files is inside it, and is followed from there. -/
theorem place_append_of_holds (proper : files.Proper) {folder sign path : Text}
    (inside : files.holds folder = true)
    (joint : sign = ['/'] ∨ sign = [] ∧ folder.getLast? = some '/') :
    files.place? (folder ++ sign ++ path) =
      (files.place? folder).bind fun place => target place (Path.pieces path) := by
  have starts : files.root <+: folder ∧ (folder ≠ files.root → files.root ++ ['/'] <+: folder) := by
    rw [holds, Bool.or_eq_true, beq_iff_eq, Text.startsWith_iff] at inside
    rcases inside with rfl | starts
    · exact ⟨List.prefix_rfl, fun other => absurd rfl other⟩
    · exact ⟨(List.prefix_append _ _).trans starts, fun _ => starts⟩
  have still : files.holds (folder ++ sign ++ path) = true := by
    rw [holds, Bool.or_eq_true, Text.startsWith_iff]
    right
    by_cases same : folder = files.root
    · subst same
      rcases joint with rfl | ⟨-, ends⟩
      · exact List.prefix_append _ _
      · exact absurd ends proper.closed
    · rw [List.append_assoc]
      exact (starts.2 same).trans (List.prefix_append _ _)
  obtain ⟨tail, rfl⟩ := starts.1
  have below : sign = ['/'] ∨ sign = [] ∧ tail.getLast? = some '/' := by
    refine joint.imp_right fun ⟨bare, ends⟩ => ⟨bare, ?_⟩
    cases tail with
    | nil => exact absurd (by simpa using ends) proper.closed
    | cons c rest => rwa [List.getLast?_append_of_ne_nil _ (by simp)] at ends
  rw [place?, place?, pieces_of_holds inside, pieces_of_holds still, List.append_assoc,
    List.append_assoc, List.drop_left, List.drop_left, ← List.append_assoc, Option.bind_some,
    Option.bind_some, target_pieces_join below]

/-- What follows a relative path is followed from its place. -/
theorem place_append_of_relative (proper : files.Proper) {folder sign path : Text}
    (filled : folder ≠ []) (relative : Path.isAbsolute folder = false)
    (joint : sign = ['/'] ∨ sign = [] ∧ folder.getLast? = some '/') :
    files.place? (folder ++ sign ++ path) =
      (files.place? folder).bind fun place => target place (Path.pieces path) := by
  have still : Path.isAbsolute (folder ++ sign ++ path) = false := by
    rw [← Bool.not_eq_true, Path.isAbsolute_iff] at relative ⊢
    rwa [List.append_assoc, List.head?_append_of_ne_nil _ filled]
  rw [place?, place?, pieces_of_not_holds (holds_of_relative proper relative),
    pieces_of_not_holds (holds_of_relative proper still), relative, still]
  simp only [Bool.false_eq_true, if_false, Option.bind_some, target_pieces_join joint]

/-- A path from a folder that is one of the files names what is followed from the place of the
folder. -/
theorem place_join (proper : files.Proper) {folder path : Text} {place : List Text}
    (there : files.place? folder = some place) (relative : Path.isAbsolute path = false) :
    files.place? (Path.join folder path) = target place (Path.pieces path) := by
  by_cases empty : folder = []
  · subst empty
    have outside := holds_of_relative proper (show Path.isAbsolute [] = false from rfl)
    have same : Path.join [] path = path := by simp [Path.join]
    rw [place?, pieces_of_not_holds outside] at there
    rw [place?, same, pieces_of_not_holds (holds_of_relative proper relative), relative]
    obtain rfl : [] = place := Option.some.inj there
    rfl
  · obtain ⟨sign, joint, joined⟩ := join_eq empty
    rw [joined path relative]
    cases inside : files.holds folder with
    | true => rw [place_append_of_holds proper inside joint, there, Option.bind_some]
    | false =>
      cases absolute : Path.isAbsolute folder with
      | true =>
        rw [place?, pieces_of_not_holds inside, absolute] at there
        simp at there
      | false => rw [place_append_of_relative proper empty absolute joint, there, Option.bind_some]

/-- A path of names that comes into the folder of the files from a folder around it: the first
names lead to the folder of the files, and the place has the others. -/
theorem pieces_of_outside {folder sign path : Text} {place : List Text}
    (outside : files.holds folder = false) (absolute : Path.isAbsolute folder = true)
    (joint : sign = ['/'] ∨ sign = [] ∧ folder.getLast? = some '/') (named : Path.Named path)
    (there : files.place? (folder ++ sign ++ path) = some place) :
    Path.pieces path = Path.pieces (files.root.drop (folder ++ sign).length) ++ place := by
  have inside : files.holds (folder ++ sign ++ path) = true := by
    by_contra out
    have still : Path.isAbsolute (folder ++ sign ++ path) = true := by
      rw [Path.isAbsolute_iff] at absolute ⊢
      rw [List.append_assoc, List.head?_append, absolute]
      rfl
    rw [place?, pieces_of_not_holds (by simpa using out), still] at there
    simp at there
  rw [place?, pieces_of_holds inside, Option.bind_some] at there
  rw [holds, Bool.or_eq_true, beq_iff_eq, Text.startsWith_iff] at inside
  rcases inside with same | ⟨rest, starts⟩
  · rw [← same, List.drop_length] at there
    obtain rfl : [] = place := Option.some.inj there
    rw [← same, List.drop_left, List.append_nil]
  · rw [List.append_assoc, List.singleton_append] at starts
    have around : folder ++ sign <+: files.root := by
      have front : folder ++ sign <+: files.root ++ '/' :: rest := ⟨path, starts.symm⟩
      refine List.prefix_of_prefix_length_le front (List.prefix_append _ _)
        (not_lt.mp fun long => ?_)
      -- the folder would be the folder of the files or inside it
      have inside : files.root ++ ['/'] <+: folder ++ sign :=
        List.prefix_of_prefix_length_le ⟨rest, by simp⟩ front (by simpa using long)
      rw [← Bool.not_eq_true, holds, Bool.or_eq_true, beq_iff_eq, Text.startsWith_iff] at outside
      rcases joint with rfl | ⟨rfl, -⟩
      · rcases List.prefix_concat_iff.mp inside with same | within
        · exact outside (.inl (List.append_cancel_right same).symm)
        · exact outside (.inr within)
      · exact outside (.inr (by simpa using inside))
    obtain ⟨skipped, whole⟩ := around
    have behind : path = skipped ++ '/' :: rest := by
      rw [← whole, List.append_assoc] at starts
      exact (List.append_cancel_left starts).symm
    have names : ∀ piece ∈ Path.pieces rest, Path.IsName piece := by
      intro piece member
      refine named.isName piece ?_
      rw [behind, Path.pieces_append]
      exact List.mem_append_right _ member
    have reached : target [] (Path.pieces rest) = some place := by
      rw [← starts, List.drop_left] at there
      exact there
    rw [target_names names, List.nil_append, Option.some.injEq] at reached
    rw [behind, Path.pieces_append, reached, ← whole, List.drop_left]

/-- Different paths of names lead from a folder to different places. -/
theorem place_join_inj (proper : files.Proper) {folder first second : Text} {place : List Text}
    (named : Path.Named first) (other : Path.Named second)
    (there : files.place? (Path.join folder first) = some place)
    (same : files.place? (Path.join folder second) = some place) : first = second := by
  -- in each case what comes before the names is the same for both
  cases around : files.place? folder with
  | some base =>
    rw [place_join proper around named.isAbsolute_eq_false, target_names named.isName] at there
    rw [place_join proper around other.isAbsolute_eq_false, target_names other.isName, ← there,
      Option.some.injEq] at same
    exact named.eq_of_pieces other (List.append_cancel_left same).symm
  | none =>
    have filled : folder ≠ [] := by
      rintro rfl
      have outside := holds_of_relative proper (show Path.isAbsolute [] = false from rfl)
      rw [place?, pieces_of_not_holds outside] at around
      simp [Path.isAbsolute, Path.pieces, target, Path.staysPut] at around
    obtain ⟨sign, joint, joined⟩ := join_eq filled
    rw [joined first named.isAbsolute_eq_false] at there
    rw [joined second other.isAbsolute_eq_false] at same
    cases inside : files.holds folder with
    | true =>
      rw [place_append_of_holds proper inside joint, around] at there
      simp at there
    | false =>
      cases absolute : Path.isAbsolute folder with
      | false =>
        rw [place_append_of_relative proper filled absolute joint, around] at there
        simp at there
      | true =>
        refine named.eq_of_pieces other ?_
        rw [pieces_of_outside inside absolute joint named there,
          pieces_of_outside inside absolute joint other same]

end Files

end Unawait
