import Mathlib
import Unawait.Grammar.Typing

/-!
# Steps of a reader

What a reader gives is known from what its steps give where they succeed. A step that only
looks at the token at the cursor leaves the cursor before that token, so that what is
known of the token is still known after it.
-/

namespace Unawait.Parse

variable {α β : Type}

/-- What a step gives has a property. -/
def Gives (step : Parse α) (property : α → Prop) : Prop :=
  ∀ cursor value after, step cursor = .ok value after → property value

/-- What a step gives before a token has a property. -/
def GivesAt (lexed : Lexed) (step : Parse α) (property : α → Prop) : Prop :=
  ∀ cursor value after, cursor.current = some lexed → step cursor = .ok value after → property value

/-- A step leaves the cursor before a token, and what it gives there has a property. -/
def Looks (lexed : Lexed) (step : Parse α) (property : α → Prop) : Prop :=
  ∀ cursor value after, cursor.current = some lexed → step cursor = .ok value after →
    after.current = some lexed ∧ property value

/-- What a repeated step says has a property if it goes on, and another one if it ends. -/
def Progress.Holds (goesOn : α → Prop) (ends : β → Prop) : Progress α β → Prop
  | .more value => goesOn value
  | .done result => ends result

theorem bind_eq_ok {step : Parse α} {next : α → Parse β} {cursor after : Cursor} {value : β}
    (done : (step >>= next) cursor = .ok value after) :
    ∃ first between, step cursor = .ok first between ∧ next first between = .ok value after := by
  change EStateM.bind step next cursor = _ at done
  unfold EStateM.bind at done
  split at done
  next first between ran => exact ⟨first, between, ran, done⟩
  next => cases done

theorem bind_of_ok {step : Parse α} {next : α → Parse β} {cursor between : Cursor} {first : α}
    (ran : step cursor = .ok first between) : (step >>= next) cursor = next first between := by
  change EStateM.bind step next cursor = _
  rw [EStateM.bind, ran]

theorem tryCatch_eq_ok {step : Parse α} {handler : Nat → Parse α} {cursor after : Cursor}
    {value : α} (done : tryCatch step handler cursor = .ok value after) :
    step cursor = .ok value after ∨
      ∃ place failed, step cursor = .error place failed ∧
        handler place failed = .ok value after := by
  change EStateM.tryCatch step handler cursor = _ at done
  unfold EStateM.tryCatch at done
  split at done
  next place failed ran => exact .inr ⟨place, failed, ran, done⟩
  next => exact .inl done

/-! ### What steps give -/

section Gives

variable {step : Parse α} {property : α → Prop} {result : β → Prop}

theorem Gives.at (gives : Gives step property) (lexed : Lexed) : GivesAt lexed step property :=
  fun cursor value after _ done => gives cursor value after done

theorem Gives.pure {value : α} (holds : property value) : Gives (pure value) property := by
  intro cursor given after done
  cases done
  exact holds

theorem Gives.bind {next : α → Parse β} (first : Gives step property)
    (later : ∀ value, property value → Gives (next value) result) :
    Gives (step >>= next) result := by
  intro cursor value after done
  obtain ⟨given, between, ran, rest⟩ := bind_eq_ok done
  exact later given (first cursor given between ran) between value after rest

/-- Nothing has to be known of a first step. -/
theorem Gives.after {next : α → Parse β} (later : ∀ value, Gives (next value) result) :
    Gives (step >>= next) result := by
  intro cursor value after done
  obtain ⟨given, between, -, rest⟩ := bind_eq_ok done
  exact later given between value after rest

theorem Gives.map {change : α → β} (first : Gives step property)
    (changed : ∀ value, property value → result (change value)) : Gives (change <$> step) result :=
  Gives.bind first fun value holds => .pure (changed value holds)

theorem Gives.throw (place : Nat) : Gives (throw place) property := by
  intro cursor value after done
  cases done

theorem Gives.failAt (place : Nat) : Gives (failAt place) property :=
  Gives.after fun seen => by
    split
    · exact .after fun _ => .after fun _ => .throw place
    · exact .throw place

theorem Gives.unexpected : Gives unexpected property := .after fun span => .failAt span.start

theorem Gives.tryCatch {handler : Nat → Parse α} (gives : Gives step property)
    (handled : ∀ place, Gives (handler place) property) :
    Gives (tryCatch step handler) property := by
  intro cursor value after done
  rcases tryCatch_eq_ok done with ran | ⟨place, failed, -, again⟩
  · exact gives cursor value after ran
  · exact handled place failed value after again

/-- What is put back after a step, whether it succeeds or fails, does not change what it gives. -/
theorem Gives.restoring (gives : Gives step property) (restore : Parse Unit) :
    Gives (do
      let value ← MonadExcept.tryCatch step fun place : Nat => do
        restore
        MonadExcept.throw place
      restore
      return value) property :=
  .bind (gives.tryCatch fun _ => .after fun _ => .throw _) fun _ holds =>
    .after fun _ => .pure holds

/-- A step in another context gives what it gives. -/
theorem Gives.within (change : Context → Context) (gives : Gives step property) :
    Gives (within change step) property :=
  .after fun outer => .after fun _ => gives.restoring (setContext outer)

theorem Gives.attempt {step : Parse (Option α)}
    (gives : Gives step fun found => ∀ value ∈ found, property value) :
    Gives (attempt step) fun found => ∀ value ∈ found, property value := by
  intro cursor found after done
  unfold Parse.attempt at done
  dsimp only at done
  split at done
  next value inner ran =>
    cases done
    exact gives _ _ _ ran
  next =>
    cases done
    simp

theorem Gives.attemptTyped {step : Parse (Option α)}
    (gives : Gives step fun found => ∀ value ∈ found, property value) :
    Gives (attemptTyped step) fun found => ∀ value ∈ found, property value := by
  refine .after fun isTyped => ?_
  split
  · exact gives.attempt
  · exact .pure (by simp)

/-- What a repeated step keeps holds in the end. -/
theorem Gives.repeating {next : α → Parse (Progress α β)} {start : α} (initial : property start)
    (keeps : ∀ value, property value → Gives (next value) (Progress.Holds property result)) :
    Gives (repeating start next) result := by
  refine .after fun cursor => ?_
  generalize cursor.limit = steps
  induction steps generalizing start with
  | zero => exact .after fun _ => .throw _
  | succ steps ih =>
    refine .bind (keeps start initial) fun progress held => ?_
    cases progress with
    | more value => exact ih held
    | done value => exact .pure held

/-- Items that are collected from the last to the first all have what each step keeps. -/
theorem Gives.collecting {next : List α → Parse (Progress (List α) (List α))}
    (keeps : ∀ items, (∀ value ∈ items, property value) →
      Gives (next items) (Progress.Holds (fun more => ∀ value ∈ more, property value)
        fun all => ∀ value ∈ all, property value)) :
    Gives (do return (← Parse.repeating [] next).reverse) fun items =>
      ∀ value ∈ items, property value := by
  have empty : ∀ value ∈ ([] : List α), property value := by simp
  exact .bind (.repeating empty keeps) fun items all => .pure (by simpa using all)

theorem Gives.manyWhile {condition : Parse Bool} {item : Parse α} (gives : Gives item property) :
    Gives (manyWhile condition item) fun items => ∀ value ∈ items, property value := by
  refine .collecting fun items all => .after fun goesOn => ?_
  split
  · exact .bind gives fun value holds => .pure (List.forall_mem_cons.mpr ⟨holds, all⟩)
  · exact .pure all

theorem Gives.separated {isEnd : Parse Bool} {item : Parse α} (gives : Gives item property) :
    Gives (Typing.separated isEnd item) fun items => ∀ value ∈ items, property value := by
  refine .collecting fun items all => .after fun ends => ?_
  split
  · exact .pure all
  · refine .bind gives fun value holds => .after fun goesOn => ?_
    have both : ∀ each ∈ value :: items, property each := List.forall_mem_cons.mpr ⟨holds, all⟩
    split
    · exact .pure both
    · refine .after fun ends => ?_
      split
      · exact .pure both
      · exact .unexpected

theorem Gives.outsideElements (gives : Gives step property) :
    Gives (Typing.outsideElements step) property :=
  .after fun _ => .after fun _ => gives.restoring _

end Gives

/-! ### Looking at a token -/

section Looks

variable {lexed : Lexed} {step : Parse α} {property : α → Prop} {result : β → Prop}

theorem GivesAt.bind {next : α → Parse β} (looks : Looks lexed step property)
    (later : ∀ value, property value → GivesAt lexed (next value) result) :
    GivesAt lexed (step >>= next) result := by
  intro cursor value after here done
  obtain ⟨given, between, ran, rest⟩ := bind_eq_ok done
  obtain ⟨still, holds⟩ := looks cursor given between here ran
  exact later given holds between value after still rest

/-- The step that goes past the token decides what the rest gives. -/
theorem GivesAt.thenGives {next : α → Parse β} (first : GivesAt lexed step property)
    (later : ∀ value, property value → Gives (next value) result) :
    GivesAt lexed (step >>= next) result := by
  intro cursor value after here done
  obtain ⟨given, between, ran, rest⟩ := bind_eq_ok done
  exact later given (first cursor given between here ran) between value after rest

theorem Looks.bind {next : α → Parse β} (first : Looks lexed step property)
    (later : ∀ value, property value → Looks lexed (next value) result) :
    Looks lexed (step >>= next) result := by
  intro cursor value after here done
  obtain ⟨given, between, ran, rest⟩ := bind_eq_ok done
  obtain ⟨still, holds⟩ := first cursor given between here ran
  exact later given holds between value after still rest

theorem Looks.pure {value : α} (holds : property value) : Looks lexed (pure value) property := by
  intro cursor given after here done
  cases done
  exact ⟨here, holds⟩

theorem Looks.token : Looks lexed token? (· = some lexed) := by
  intro cursor value after here done
  have still : cursor.fetch = cursor := by simp [Cursor.fetch, here]
  cases done
  rw [still]
  exact ⟨here, here⟩

theorem Looks.lexeme : Looks lexed lexeme? (· = some lexed.lexeme) :=
  .bind .token fun _ found => .pure (by rw [found]; rfl)

theorem Looks.sees (holds : Lexeme → Bool) : Looks lexed (sees holds) (· = holds lexed.lexeme) :=
  .bind .lexeme fun _ found => .pure (by rw [found]; rfl)

theorem Looks.map {change : α → β} (first : Looks lexed step property)
    (changed : ∀ value, property value → result (change value)) :
    Looks lexed (change <$> step) result :=
  Looks.bind first fun value holds => .pure (changed value holds)

theorem Looks.isAt (lexeme : Lexeme) : Looks lexed (isAt lexeme) (· = (lexed.lexeme == lexeme)) :=
  .sees _

theorem Looks.isWord (name : String) : Looks lexed (isWord name) (· = lexed.lexeme.isWord name) :=
  .sees _

theorem Looks.eat {lexeme : Lexeme} (differs : (lexed.lexeme == lexeme) = false) :
    Looks lexed (eat lexeme) (· = false) := by
  refine .bind (.isAt lexeme) fun seen same => ?_
  rw [same, differs]
  exact .pure rfl

theorem Looks.eatWord {name : String} (differs : lexed.lexeme.isWord name = false) :
    Looks lexed (eatWord name) (· = false) := by
  refine .bind (.isWord name) fun seen same => ?_
  rw [same, differs]
  exact .pure rfl

theorem Looks.position : Looks lexed position (· = lexed.span.start) := by
  refine .bind .token fun found same => ?_
  subst same
  exact .pure rfl

theorem Looks.get : Looks lexed get fun _ => True := by
  intro cursor value after here done
  cases done
  exact ⟨here, trivial⟩

theorem Looks.context : Looks lexed context fun _ => True := .bind .get fun _ _ => .pure trivial

theorem Looks.isTypescript : Looks lexed isTypescript fun _ => True :=
  .bind .get fun _ _ => .pure trivial

theorem Looks.isJsx : Looks lexed isJsx fun _ => True := .bind .get fun _ _ => .pure trivial

theorem Looks.setContext (context : Context) : Looks lexed (setContext context) fun _ => True := by
  intro cursor value after here done
  cases done
  exact ⟨here, trivial⟩

theorem GivesAt.within (change : Context → Context) (gives : GivesAt lexed step property) :
    GivesAt lexed (within change step) property := by
  refine .bind .context fun outer _ => .bind (.setContext _) fun _ _ => .thenGives
    (fun cursor value after here done => ?_) fun _ holds => .after fun _ => .pure holds
  rcases tryCatch_eq_ok done with ran | ⟨place, failed, -, again⟩
  · exact gives cursor value after here ran
  · have never : Gives (Parse.setContext outer >>= fun _ => throw place) property :=
      .after fun _ => .throw place
    exact never failed value after again

end Looks

end Unawait.Parse
