import Mathlib
import Unawait.Text.Identifier
import Unawait.Proofs.RunCalls
import Unawait.Proofs.VisitOrder

/-!
# The names of lowered loops

The texts that stand for a loop use names of their own. They are made of a dollar sign, a letter
that says what the name is for, and the number of the loop in decimal digits. Loops are numbered
in the order in which they are left, over the whole program and across its functions, so two
loops never share a name.

The number is all that the names depend on. No name of the source is looked at, and a name that
the source spells in the same way is not told apart from that of a loop.
-/

namespace Unawait.Lowering

open Edit (Operation)

/-! ### Names in texts -/

/-- The names in a text that begin with a dollar sign. -/
def dollarNames (text : Text) : List Text :=
  (text.splitOnP fun c => !Identifier.isPart c).filter fun name => name.head? == some '$'

/-- The same for a text in which `#` stands for a number. -/
def dollarTemplates (template : String) : List Text :=
  (template.toList.splitOnP fun c => !(Identifier.isPart c || c == '#')).filter fun name =>
    name.head? == some '$'

/-- Put a number for each `#`. -/
def fill (number : Nat) (template : Text) : Text :=
  template.flatMap fun c => if c = '#' then Text.ofNat number else [c]

theorem numbered_eq_fill (number : Nat) (template : String) :
    numbered number template = fill number template.toList := rfl

theorem isDigit_of_mem_ofNat {number : Nat} {c : Char} (member : c ∈ Text.ofNat number) :
    c.isDigit = true :=
  Nat.isDigit_of_mem_toDigits (by decide) (by decide) member

theorem isPart_of_isDigit {c : Char} (digit : c.isDigit = true) : Identifier.isPart c = true := by
  have small : c.toNat < 128 := by
    simp only [Char.isDigit, Bool.and_eq_true, decide_eq_true_eq] at digit
    have last : c.toNat ≤ 57 := UInt32.le_iff_toNat_le.mp digit.2
    omega
  simp [Identifier.isPart, small, Char.isAlphanum, digit]

theorem splitOnP_append_of_forall {p : Char → Bool} {first : Text}
    (unsplit : ∀ c ∈ first, p c = false) (rest : Text) :
    (first ++ rest).splitOnP p = (rest.splitOnP p).modifyHead (first ++ ·) := by
  induction first with
  | nil =>
    rw [List.nil_append]
    cases rest.splitOnP p <;> rfl
  | cons c first ih =>
    obtain ⟨here, later⟩ := List.forall_mem_cons.mp unsplit
    rw [List.cons_append, List.splitOnP_cons_eq_if_modifyHead, here, ih later]
    simp [Function.comp_def]

theorem map_modifyHead_of_comp {f g h : Text → Text} (same : ∀ text, f (g text) = h (f text))
    (texts : List Text) : (texts.modifyHead g).map f = (texts.map f).modifyHead h := by
  cases texts with
  | nil => rfl
  | cons text rest => simp [same]

/-- The digits of a number are parts of names. So a number that is filled in neither splits a
name nor joins two. -/
theorem splitOnP_fill (number : Nat) (template : Text) :
    (fill number template).splitOnP (fun c => !Identifier.isPart c) =
      (template.splitOnP fun c => !(Identifier.isPart c || c == '#')).map (fill number) := by
  induction template with
  | nil => rfl
  | cons c rest ih =>
    have filled : fill number (c :: rest) = fill number [c] ++ fill number rest := by simp [fill]
    rw [filled, List.splitOnP_cons_eq_if_modifyHead]
    by_cases part : (Identifier.isPart c || c == '#') = true
    · have unsplit : ∀ digit ∈ fill number [c], (!Identifier.isPart digit) = false := by
        intro digit member
        by_cases hole : c = '#'
        · simp only [fill, hole, List.flatMap_singleton, if_true] at member
          simp [isPart_of_isDigit (isDigit_of_mem_ofNat member)]
        · simp only [fill, hole, List.flatMap_singleton, if_false, List.mem_singleton] at member
          simpa [member, hole] using part
      rw [splitOnP_append_of_forall unsplit, ih, part]
      exact (map_modifyHead_of_comp (fun text => by simp [fill]) _).symm
    · obtain ⟨separates, plain⟩ : Identifier.isPart c = false ∧ c ≠ '#' := by simpa using part
      have kept : fill number [c] = [c] := by simp [fill, plain]
      rw [kept, List.singleton_append, List.splitOnP_cons_eq_if_modifyHead, ih, separates,
        beq_false_of_ne plain]
      rfl

theorem head?_fill (number : Nat) (template : Text) :
    ((fill number template).head? == some '$') = (template.head? == some '$') := by
  cases template with
  | nil => rfl
  | cons c rest =>
    by_cases hole : c = '#'
    · obtain ⟨digit, digits, same⟩ := List.exists_cons_of_ne_nil (@Nat.toDigits_ne_nil number 10)
      have isDigit : digit.isDigit = true :=
        @isDigit_of_mem_ofNat number digit (by simp [Text.ofNat, same])
      have other : digit ≠ '$' := by
        rintro rfl
        exact absurd isDigit (by decide)
      simp [fill, hole, Text.ofNat, same, other]
    · simp [fill, hole]

/-- The names of a numbered text are those of its template, with the number filled in. -/
theorem dollarNames_numbered (number : Nat) (template : String) :
    dollarNames (numbered number template) = (dollarTemplates template).map (fill number) := by
  rw [dollarNames, dollarTemplates, numbered_eq_fill, splitOnP_fill, List.filter_map]
  simp [Function.comp_def, head?_fill]

/-! ### The names of a loop -/

/-- A name of a loop. -/
def temporary (number : Nat) (letter : Char) : Text := '$' :: letter :: Text.ofNat number

/-- The names that stand for the state of a loop: whether something is owed to the iterator, an
error of the loop, the current step, the iterator and a caught error. -/
def temporaries (number : Nat) : List Text := ['d', 'e', 's', 'i', 'x'].map (temporary number)

theorem temporaries_nodup (number : Nat) : (temporaries number).Nodup :=
  List.Nodup.map (fun _ _ same => by simpa [temporary] using same) (by decide)

theorem ofNat_injective {first second : Nat} (same : Text.ofNat first = Text.ofNat second) :
    first = second := by
  have digits := congrArg (Nat.ofDigitChars 10 · 0) same
  simpa [Text.ofNat, Nat.ofDigitChars_toDigits] using digits

/-- Loops with different numbers have no name in common. -/
theorem temporaries_disjoint {first second : Nat} (different : first ≠ second) :
    (temporaries first).Disjoint (temporaries second) := by
  intro name here there
  obtain ⟨letter, -, rfl⟩ := List.mem_map.mp here
  obtain ⟨other, -, same⟩ := List.mem_map.mp there
  simp only [temporary, List.cons.injEq, true_and] at same
  exact different (ofNat_injective same.2).symm

theorem numbered_append (number : Nat) (first second : String) :
    numbered number first ++ numbered number second = numbered number (first ++ second) := by
  simp only [numbered, String.toList_append, List.flatMap_append]

theorem awaited_numbered (number : Nat) (marker : Bool) (template : String) :
    awaited marker (numbered number template) = numbered number
      (if marker then "yield\x7b__await:" ++ template ++ "\x7d" else "yield " ++ template) := by
  cases marker <;> simp [awaited, numbered]

theorem dollarNames_eq {number : Nat} {template : String} {letters : List Char}
    (found : dollarTemplates template = letters.map fun letter => ['$', letter, '#'])
    (unnumbered : '#' ∉ letters) :
    dollarNames (numbered number template) = letters.map (temporary number) := by
  rw [dollarNames_numbered, found, List.map_map]
  apply List.map_congr_left
  intro letter member
  have other : letter ≠ '#' := fun same => unnumbered (same ▸ member)
  simp [fill, other, temporary]

theorem dollarNames_loopHead (number : Nat) :
    dollarNames (loopHead number) = ['d', 'e', 's', 'i'].map (temporary number) :=
  dollarNames_eq (by decide) (by decide)

theorem dollarNames_loopTest (number : Nat) (marker : Bool) :
    dollarNames (loopTest number marker) = ['d', 's', 'i', 'd'].map (temporary number) := by
  rw [loopTest, awaited_numbered, numbered_append, numbered_append]
  cases marker <;> exact dollarNames_eq (by decide) (by decide)

set_option maxRecDepth 2000 in
theorem dollarNames_loopCleanup (number : Nat) (marker : Bool) :
    dollarNames (loopCleanup number marker) =
      ['x', 'e', 'x', 'd', 'i', 'i', 'x', 'e', 'x', 'e', 'e'].map (temporary number) := by
  rw [loopCleanup, awaited_numbered, numbered_append, numbered_append]
  cases marker <;> exact dollarNames_eq (by decide) (by decide)

theorem dollarNames_loopBinding (number : Nat) (left : Node) :
    (if left.is .variableDeclaration then
        [Operation.insertBefore left.stop (numbered number "=$s#.value;")]
      else
        [.insertAfter left.start "(".toList,
          .insertBefore left.stop (numbered number "=$s#.value);")]).flatMap
      (fun call => dollarNames call.text) = ['s'].map (temporary number) := by
  have parenthesis : dollarNames "(".toList = [] := by decide
  split
  · exact (List.append_nil _).trans (dollarNames_eq (by decide) (by decide))
  · rw [List.flatMap_cons, List.flatMap_singleton]
    simp only [Operation.text, parenthesis, List.nil_append]
    exact dollarNames_eq (by decide) (by decide)

theorem dollarNames_loopBraces (body : Node) :
    (if body.is .blockStatement then []
      else [Operation.insertBefore body.start "\x7b".toList,
        .insertBefore body.stop "\x7d".toList]).flatMap (fun call => dollarNames call.text) = [] := by
  have opening : dollarNames "\x7b".toList = [] := by decide
  have closing : dollarNames "\x7d".toList = [] := by decide
  split
  · rfl
  · simp only [List.flatMap_cons, List.flatMap_nil, Operation.text, opening, closing,
      List.append_nil]

/-- The names that the calls for a loop bring are those of its number. -/
theorem mem_dollarNames_loopEdits {number : Nat} {marker : Bool} {wrapped : Nat}
    {particles : LoopParticles} {node left right body : Node} {name : Text} :
    (∃ call ∈ loopEdits number marker wrapped particles node left right body,
      name ∈ dollarNames call.text) ↔ name ∈ temporaries number := by
  have wraps : dollarNames "try\x7b".toList = [] := by decide
  have none : dollarNames [] = [] := by decide
  let letters := ['s', 'd', 'e', 's', 'i', 'd', 's', 'i', 'd', 'x', 'e', 'x', 'd', 'i', 'i', 'x', 'e',
    'x', 'e', 'e']
  have all : (loopEdits number marker wrapped particles node left right body).flatMap
      (fun call => dollarNames call.text) = letters.map (temporary number) := by
    rw [loopEdits]
    simp only [List.cons_append, List.flatMap_cons, List.flatMap_append, dollarNames_loopBraces,
      dollarNames_loopBinding]
    simp only [Operation.text, wraps, none, dollarNames_loopHead, dollarNames_loopTest,
      dollarNames_loopCleanup, List.nil_append, List.flatMap_nil, List.append_nil]
    rfl
  rw [← List.mem_flatMap, all, temporaries]
  constructor
  · intro member
    exact List.map_subset _ (by decide) member
  · intro member
    exact List.map_subset _ (by decide) member

/-! ### Numbers in order -/

/-- The loops of a tree that are lowered, in the order in which they are left. -/
def loweredLoops (root : Node) : List (Trail × Node) := (postorder root []).filter isLoweredLoop

/-- A loop is left with its place among the lowered loops for its number. -/
theorem mem_numberedFrom {order : List (Trail × Node)} {start number : Nat} {loop : Trail × Node}
    (here : (order.filter isLoweredLoop)[number]? = some loop) :
    (loop, start + number) ∈ numberedFrom start order := by
  induction order generalizing start number with
  | nil => simp at here
  | cons visited rest ih =>
    rw [numberedFrom]
    by_cases lowered : isLoweredLoop visited = true
    · rw [List.filter_cons_of_pos lowered] at here
      cases number with
      | zero =>
        obtain rfl : visited = loop := by simpa using here
        exact List.mem_cons_self
      | succ number =>
        have later := @ih (start + 1) number (by simpa using here)
        rw [if_pos lowered, show start + (number + 1) = start + 1 + number by omega]
        exact List.mem_cons_of_mem _ later
    · rw [List.filter_cons_of_neg lowered] at here
      rw [if_neg lowered]
      exact List.mem_cons_of_mem _ (ih here)

/-- The calls of the rule for a loop, if it succeeds. -/
theorem edits_of_loop_succeeds {reading : Reading} {loop : Trail × Node} {number : Nat}
    (lowered : isLoweredLoop loop = true)
    (succeeds : (leavingEffect reading loop number).failure = none) :
    ∃ particles left right body, loop.2.child? .left = some left ∧
      loop.2.child? .right = some right ∧
      (leavingEffect reading loop number).edits =
        loopEdits number (scopeAlong {} loop.1).isAsyncGenerator (wrapStart loop.2 loop.1.head?)
          particles loop.2 left right body := by
  obtain ⟨left, right, body, target, iterable, inner⟩ := children_of_isLoweredLoop lowered
  have rule := leavingEffect_of_isLoweredLoop lowered reading number target iterable inner
  cases found : findParticles reading.tokens loop.2 body with
  | error failure => simp [rule, found, Effect.failing] at succeeds
  | ok particles =>
    refine ⟨particles, left, right, body, target, iterable, ?_⟩
    simp [rule, found, Effect.ofEdits, Effect.andThen, Effect.noting]

theorem unmarked_loopEdits {number : Nat} {marker : Bool} {wrapped : Nat} {particles : LoopParticles}
    {node left right body : Node} :
    (loopEdits number marker wrapped particles node left right body).filter
        (fun edit => !edit.isMark) =
      loopEdits number marker wrapped particles node left right body := by
  rw [List.filter_eq_self]
  by_cases block : body.is .blockStatement <;> by_cases declared : left.is .variableDeclaration <;>
    simp [loopEdits, block, declared, Operation.isMark]

end Unawait.Lowering

namespace Unawait

open Lowering

namespace Transform

variable {source : Text} {options : Options} {parsed : Parsed} {transformed : Transformed}

/-- A run that succeeds has made the calls for each of its lowered loops, with the place of the loop
among them for its number. -/
theorem edits_of_loweredLoops (done : lower source options parsed = .ok transformed) {number : Nat}
    {loop : Trail × Node} (here : (loweredLoops parsed.program)[number]? = some loop) :
    ∃ particles left right body, loop.2.child? .left = some left ∧
      loop.2.child? .right = some right ∧
      (leavingEffect ⟨source, parsed.tokens, parsed.lines⟩ loop number).edits =
        loopEdits number (scopeAlong {} loop.1).isAsyncGenerator (wrapStart loop.2 loop.1.head?)
          particles loop.2 left right body ∧
      (leavingEffect ⟨source, parsed.tokens, parsed.lines⟩ loop number).edits.Sublist
        (calls source options parsed) := by
  have member : loop ∈ loweredLoops parsed.program := List.mem_of_getElem? here
  obtain ⟨visited, lowered⟩ := List.mem_filter.mp member
  obtain ⟨final, applied, -⟩ := exists_final done
  obtain ⟨succeeded, -, -⟩ := Effect.apply_eq_ok applied
  rw [show visitEffect _ _ parsed.program {} = visitEffect _ _ parsed.program (.along [] 0) from rfl,
    failure_visitEffect_along, List.findSome?_eq_none_iff] at succeeded
  have succeeds := (failure_leavingEffect _ loop number).trans (succeeded loop visited)
  obtain ⟨particles, left, right, body, target, iterable, edits⟩ :=
    edits_of_loop_succeeds lowered succeeds
  refine ⟨particles, left, right, body, target, iterable, edits, ?_⟩
  -- the calls of a walk with marks are those of one without, and loops make no marks
  have ordered := calls_eq_postorder ⟨source, parsed.tokens, parsed.lines⟩ parsed.program [] 0
  have inOrder : (leavingEffect ⟨source, parsed.tokens, parsed.lines⟩ loop number).edits.Sublist
      (Lowering.calls ⟨source, parsed.tokens, parsed.lines⟩ (parsed.program, {})) := by
    rw [show Lowering.calls _ (parsed.program, {}) = _ from ordered, List.flatMap_def]
    have numbered : (loop, number) ∈ numberedFrom 0 (postorder parsed.program []) := by
      simpa using @mem_numberedFrom _ 0 _ _ here
    exact List.sublist_flatten_of_mem (List.mem_map_of_mem numbered)
  have unmarked := inOrder.filter fun edit => !edit.isMark
  rw [edits, unmarked_loopEdits, ← filter_script options.sourceMap, ← edits] at unmarked
  exact unmarked.trans List.filter_sublist

end Transform

/-- The names of a run. The loop with a number is given the names of that number, and its texts have
no other name with a dollar sign; its variables are declared where the text between its target and
its iterable was. Loops with different numbers have no name in common, and the names of one loop are
different. But any name of the source that is spelled like one of the loops below their number is
one of these names: whether a name is fresh does not depend on what the source contains. -/
theorem loop_names_determined_by_order (parse : Text → Options → Except Failure Parsed)
    (source : Text) (options : Options) (parsed : Parsed) (transformed : Transformed)
    (isRead : Transform.skips source options = false)
    (parses : parse source options = .ok parsed)
    (done : transformWith parse source options = .ok transformed) :
    let calls := Transform.calls source options parsed
    let loops := loweredLoops parsed.program
    let edits := fun loop number =>
      (leavingEffect ⟨source, parsed.tokens, parsed.lines⟩ loop number).edits
    Edit.Made source calls transformed.code ∧
    (∀ number loop, loops[number]? = some loop →
      (edits loop number).Sublist calls ∧
      (∀ name, (∃ call ∈ edits loop number, name ∈ dollarNames call.text) ↔
        name ∈ temporaries number) ∧
      ∃ left right, loop.2.child? .left = some left ∧ loop.2.child? .right = some right ∧
        Edit.History.Becomes source calls ⟨left.stop, right.start⟩ (loopHead number)) ∧
    (∀ number, (temporaries number).Nodup ∧
      ∀ other, number ≠ other → (temporaries number).Disjoint (temporaries other)) ∧
    ∀ name, (∃ number loop, loops[number]? = some loop ∧
        ∃ call ∈ edits loop number, name ∈ dollarNames call.text) ↔
      ∃ letter ∈ ['d', 'e', 's', 'i', 'x'], ∃ number < loops.length,
        name = '$' :: letter :: Text.ofNat number := by
  intro calls loops edits
  rw [Transform.transformWith_eq_lower isRead parses] at done
  have made : Edit.Made source calls transformed.code := Transform.made_of_lower done
  have names : ∀ number loop, loops[number]? = some loop → ∀ name,
      (∃ call ∈ edits loop number, name ∈ dollarNames call.text) ↔ name ∈ temporaries number := by
    intro number loop here name
    obtain ⟨particles, left, right, body, -, -, same, -⟩ := Transform.edits_of_loweredLoops done here
    rw [show edits loop number = _ from same]
    exact mem_dollarNames_loopEdits
  refine ⟨made, fun number loop here => ⟨?_, names number loop here, ?_⟩,
    fun number => ⟨temporaries_nodup number, fun other => temporaries_disjoint⟩, fun name => ?_⟩
  · obtain ⟨-, -, -, -, -, -, -, within⟩ := Transform.edits_of_loweredLoops done here
    exact within
  · obtain ⟨particles, left, right, body, target, iterable, same, within⟩ :=
      Transform.edits_of_loweredLoops done here
    have declares : Edit.Operation.overwrite left.stop right.start (loopHead number) ∈
        edits loop number := by
      rw [show edits loop number = _ from same, loopEdits]
      simp
    exact ⟨left, right, target, iterable, made.becomes (within.subset declares) rfl⟩
  · constructor
    · rintro ⟨number, loop, here, brought⟩
      obtain ⟨letter, member, same⟩ := List.mem_map.mp ((names number loop here name).mp brought)
      exact ⟨letter, member, number, (List.getElem?_eq_some_iff.mp here).1, same.symm⟩
    · rintro ⟨letter, member, number, inside, rfl⟩
      have here := List.getElem?_eq_getElem inside
      exact ⟨number, _, here,
        (names number _ here _).mpr (List.mem_map.mpr ⟨letter, member, rfl⟩)⟩

/-- The program `async function f($d0){for await(x of y)z($d0)}`, with a parameter that is called
like a name of a loop. -/
def loopOverParameter : Parsed :=
  let source := "async function f($d0)\x7bfor await(x of y)z($d0)\x7d".toList
  let call := .plain .statement ⟨39, 45⟩ [.many .children [.plain .callExpression ⟨39, 45⟩
    [.one .callee (.plain .identifier ⟨39, 40⟩ []),
      .many .arguments [.plain .identifier ⟨41, 44⟩ []]]]]
  let loop := .mk { kind := .forOfStatement, span := ⟨22, 45⟩, flags := { isAwait := true } }
    [.one .left (.plain .identifier ⟨32, 33⟩ []), .one .right (.plain .identifier ⟨37, 38⟩ []),
      .one .body call]
  let function := .mk
    { kind := .functionDeclaration, span := ⟨0, 46⟩, flags := { isAsync := true } }
    [.many .params [.plain .identifier ⟨17, 20⟩ []],
      .one .body (.plain .blockStatement ⟨21, 46⟩ [.many .children [loop]])]
  { program := .plain .program ⟨0, 46⟩ [.many .children [function]]
    tokens := ⟨source, #[⟨0, 5⟩, ⟨6, 14⟩, ⟨15, 16⟩, ⟨16, 17⟩, ⟨17, 20⟩, ⟨20, 21⟩, ⟨21, 22⟩, ⟨22, 25⟩,
      ⟨26, 31⟩, ⟨31, 32⟩, ⟨32, 33⟩, ⟨34, 36⟩, ⟨37, 38⟩, ⟨38, 39⟩, ⟨39, 40⟩, ⟨40, 41⟩, ⟨41, 44⟩,
      ⟨44, 45⟩, ⟨45, 46⟩]⟩
    lines := .ofText source }

def loopOverParameterCode : Text :=
  ("function f($d0)\x7breturn __async(function*()\x7btry\x7bfor (var $d0=1,$e0,$s0,"
    ++ "$i0=__asyncIterator(y);$d0=1,!($s0=yield $i0.next()).done&&!($d0=0);)"
    ++ "\x7b(x=$s0.value);z($d0)\x7d\x7dcatch($x0)\x7b$e0=\x7be:$x0\x7d\x7d"
    ++ "finally\x7btry\x7b$d0||!$i0.return||(yield $i0.return())\x7d"
    ++ "catch($x0)\x7bif(!$e0)throw $x0\x7dif($e0)throw $e0.e\x7d\x7d())\x7d").toList

/-- What lowering this program gives. -/
def loopOverParameterRun : Evaluated (transformWith (fun _ _ => .ok loopOverParameter)
    loopOverParameter.tokens.source { includeHelper := false }) Transformed.code
    loopOverParameterCode :=
  .ofSpelled (Text.toList_literals _ _ _ _ _) (by decide +kernel)

/-- The parameter is lost: the loop declares its name again, inside the function that reads it. -/
theorem loop_names_determined_by_order_parameter :
    let source := loopOverParameter.tokens.source
    ∃ transformed, transformWith (fun _ _ => .ok loopOverParameter) source { includeHelper := false } =
        .ok transformed ∧
      transformed.code = loopOverParameterCode ∧
      (∃ node ∈ loopOverParameter.program.nodes, node.is .identifier = true ∧
        node.span = ⟨41, 44⟩ ∧ source.extract 41 44 = "$d0".toList) ∧
      ∃ number loop, (loweredLoops loopOverParameter.program)[number]? = some loop ∧
        ∃ call ∈ (leavingEffect ⟨source, loopOverParameter.tokens, loopOverParameter.lines⟩ loop
          number).edits, "$d0".toList ∈ dollarNames call.text := by
  intro source
  obtain ⟨transformed, done, code⟩ := loopOverParameterRun
  refine ⟨transformed, done, code, by decide +kernel, ?_⟩
  obtain ⟨-, -, -, clash⟩ := loop_names_determined_by_order (fun _ _ => .ok loopOverParameter) source
    { includeHelper := false } loopOverParameter transformed (by decide +kernel) rfl done
  exact (clash "$d0".toList).mpr ⟨'d', by decide, 0, by decide +kernel, by decide +kernel⟩

end Unawait
