import Mathlib.Data.List.Forall2
import Supercov.Js.Declarations
import Supercov.Js.Shapes

/-!
# The two runs side by side

How the states of a program's run and of the instrumented one match while points are owed or hit ahead
of the decision, what of the frames a piece of code leaves alone, and how such facts compose.
-/

namespace Supercov.Js

open Machine

/-- The closure is what the transformer left of the function. -/
structure Leaves (tables : List SelectionTable) (outer inner : LogicalValueTransformer)
    (function : List Source × List Source) (closure : Closure) : Prop where
  parameters : closure.parameters = (visitAll true false function.1 outer).1
  clear : outer.afterDeclaration = [] ∨ Source.listlessAll function.1
  tabled : (visitAll true false function.1 outer).2.trees <+: tables
  sound : Source.soundAll true false function.1
  body : closure.body = (visitStatements false function.2 inner).1
  clearBody : inner.afterDeclaration = [] ∨ function.2 = []
  tabledBody : (visitStatements false function.2 inner).2.trees <+: tables
  soundBody : Source.soundStatements false function.2
  temporaries : closure.temporaries = (visitStatements false function.2 inner).2.scopeDeclarations

/-- The machines stand at one place of the script; and the points hit with those still owed are the
points decided with those hit ahead, until a declaration is cut. -/
structure Matches (tables : List SelectionTable) (owed ahead : List Nat) (state : Source.State)
    (code : Code.State) : Prop where
  script : code.script = state.script
  functions : List.Forall₂ (fun function closure => ∃ outer inner,
    Leaves tables outer inner function closure) state.functions code.functions
  points : state.store.cut = false → ∀ point,
    (code.store.hits ++ owed).count point = (state.store.decided ++ ahead).count point

/-- Of the activations begun, only `place`'s frames from `names` on may have changed. -/
structure Kept (place : Option Nat) (names : Nat) (one other : Code.Store) : Prop where
  activations : one.activations ≤ other.activations
  frames : ∀ holder frame, holder < one.activations → (place = some holder → frame < names) →
    other.frames holder frame = one.frames holder frame

variable {tables : List SelectionTable} {place : Option Nat} {names : Nat} {owed ahead : List Nat}

namespace Kept

variable {one two three : Code.Store}

theorem refl (place : Option Nat) (names : Nat) (store : Code.Store) : Kept place names store store :=
  ⟨Nat.le_refl _, fun _ _ _ _ => rfl⟩

theorem trans (first : Kept place names one two) (second : Kept place names two three) :
    Kept place names one three where
  activations := Nat.le_trans first.activations second.activations
  frames holder frame begun below :=
    (second.frames holder frame (Nat.lt_of_lt_of_le begun first.activations) below).trans
      (first.frames holder frame begun below)

theorem fewer {fewer : Nat} (kept : Kept place names one two) (le : fewer ≤ names) :
    Kept place fewer one two :=
  ⟨kept.activations, fun holder frame begun below =>
    kept.frames holder frame begun fun same => Nat.lt_of_lt_of_le (below same) le⟩

theorem anywhere (kept : Kept none names one two) (place : Option Nat) (names : Nat) :
    Kept place names one two :=
  ⟨kept.activations, fun holder frame begun _ => kept.frames holder frame begun nofun⟩

end Kept

namespace Matches

variable {state : Source.State} {code : Code.State}

theorem update (matched : Matches tables owed ahead state code) {owed' ahead' : List Nat}
    (changeState : Source.Store → Source.Store) (changeCode : Code.Store → Code.Store)
    (cut : (changeState state.store).cut = false → state.store.cut = false)
    (points : (changeState state.store).cut = false → ∀ point,
      (code.store.hits ++ owed).count point = (state.store.decided ++ ahead).count point →
      ((changeCode code.store).hits ++ owed').count point =
        ((changeState state.store).decided ++ ahead').count point) :
    Matches tables owed' ahead' (state.update changeState) (code.update changeCode) :=
  ⟨matched.script, matched.functions, fun uncut point =>
    points uncut point (matched.points (cut uncut) point)⟩

theorem congr (matched : Matches tables owed ahead state code) {owed' ahead' : List Nat}
    (same : ∀ point, owed'.count point + ahead.count point = owed.count point + ahead'.count point) :
    Matches tables owed' ahead' state code :=
  matched.update id id id fun _ point counts => by
    have := same point
    simp only [List.count_append, id] at counts ⊢
    omega

theorem decide (matched : Matches tables owed ahead state code) (point : Nat) :
    Matches tables (point :: owed) ahead (state.update (Source.decide point)) code :=
  matched.update (Source.decide point) id id fun _ other counts => by
    simp only [List.count_append, List.count_cons, List.count_nil, Source.decide, id] at counts ⊢
    omega

theorem hit (matched : Matches tables owed ahead state code) (points : List Nat) :
    Matches tables owed (points ++ ahead) state (code.update (Code.hit points)) :=
  matched.update id (Code.hit points) id fun _ point counts => by
    simp only [List.count_append, Code.hit, id] at counts ⊢
    omega

theorem pay {points : List Nat} (matched : Matches tables (points ++ owed) ahead state code) :
    Matches tables owed ahead state (code.update (Code.hit points)) :=
  (matched.hit points).congr fun point => by simp only [List.count_append]; omega

theorem assign (matched : Matches tables owed ahead state code) (activation frame leaf : Nat) :
    Matches tables owed ahead state (code.update (Code.assign activation frame leaf)) :=
  matched.update id (Code.assign activation frame leaf) id fun _ _ counts => counts

theorem create (matched : Matches tables owed ahead state code)
    {function : List Source × List Source} {closure : Closure}
    {outer inner : LogicalValueTransformer} (leaves : Leaves tables outer inner function closure) :
    Matches tables owed ahead (state.create function).2 (code.create closure).2 :=
  ⟨matched.script, List.rel_append matched.functions (.cons ⟨outer, inner, leaves⟩ .nil),
    matched.points⟩

end Matches

/-! ### Results -/

@[simp] theorem andThen_value {Function Store : Type} (result : Outcome × Machine Function Store) :
    (andThen result fun value machine => (.value value, machine)) = result := by
  obtain ⟨outcome, machine⟩ := result
  cases outcome <;> rfl

/-- From states of the two runs, results with one outcome that fulfil `post`. -/
structure Meets (place : Option Nat) (names : Nat)
    (post : Outcome → Source.State → Code.State → Prop) (state : Source.State) (code : Code.State)
    (left : Outcome × Source.State) (right : Outcome × Code.State) : Prop where
  same : right.1 = left.1
  kept : Kept place names code.store right.2.store
  cut : left.2.store.cut = false → state.store.cut = false
  post : post left.1 left.2 right.2

namespace Meets

variable {post post' postLeft : Outcome → Source.State → Code.State → Prop}
  {state : Source.State} {code : Code.State} {left : Outcome × Source.State}
  {right : Outcome × Code.State}

theorem now {outcome : Outcome} (holds : post outcome state code) :
    Meets place names post state code (outcome, state) (outcome, code) :=
  ⟨rfl, .refl .., id, holds⟩

theorem after {base : Source.State} {baseCode : Code.State} (kept : Kept place names baseCode.store
      code.store) (cut : state.store.cut = false → base.store.cut = false)
    (meets : Meets place names post state code left right) :
    Meets place names post base baseCode left right :=
  ⟨meets.same, kept.trans meets.kept, fun uncut => cut (meets.cut uncut), meets.post⟩

theorem imp (meets : Meets place names post state code left right)
    (weaker : ∀ outcome state code, post outcome state code → post' outcome state code) :
    Meets place names post' state code left right :=
  { meets with post := weaker _ _ _ meets.post }

theorem fewer {fewer : Nat} (meets : Meets place names post state code left right)
    (le : fewer ≤ names) : Meets place fewer post state code left right :=
  { meets with kept := meets.kept.fewer le }

theorem anywhere (meets : Meets none names post state code left right) (place : Option Nat)
    (names : Nat) : Meets place names post state code left right :=
  { meets with kept := meets.kept.anywhere place names }

theorem andThen {nextLeft : Value → Source.State → Outcome × Source.State}
    {nextRight : Value → Code.State → Outcome × Code.State}
    (meets : Meets place names post state code left right)
    (next : ∀ value state' code', post (.value value) state' code' →
      Kept place names code.store code'.store →
      Meets place names post' state' code' (nextLeft value state') (nextRight value code'))
    (leaves : ∀ outcome state code, (∀ value, outcome ≠ .value value) → post outcome state code →
      post' outcome state code) :
    Meets place names post' state code (andThen left nextLeft) (andThen right nextRight) := by
  obtain ⟨outcome, state'⟩ := left
  obtain ⟨other, code'⟩ := right
  obtain ⟨same, kept, cut, holds⟩ := meets
  obtain rfl : other = outcome := same
  cases other with
  | value value => exact (next value _ _ holds kept).after kept cut
  | abrupt => exact ⟨rfl, kept, cut, leaves _ _ _ nofun holds⟩
  | unfinished => exact ⟨rfl, kept, cut, leaves _ _ _ nofun holds⟩

theorem andThenCode {nextRight : Value → Code.State → Outcome × Code.State}
    (meets : Meets place names post state code left right)
    (next : ∀ value state' code', post (.value value) state' code' →
      Meets place names post' state' code' (.value value, state') (nextRight value code'))
    (leaves : ∀ outcome state code, (∀ value, outcome ≠ .value value) → post outcome state code →
      post' outcome state code) :
    Meets place names post' state code left (Machine.andThen right nextRight) := by
  have joined : Meets place names post' state code
      (Machine.andThen left fun value state => (.value value, state))
      (Machine.andThen right nextRight) :=
    meets.andThen (fun value state' code' holds _ => next value state' code' holds) leaves
  rwa [andThen_value] at joined

theorem select {operator : Operator} {first : Nat} {rightState : Source.State → Outcome × Source.State}
    {rightCode : Code.State → Outcome × Code.State}
    (meets : Meets place names postLeft state code left right)
    (postRight : Outcome → Source.State → Code.State → Prop)
    (cuts : ∀ value state code, operator.short value → postLeft (.value value) state code →
      post (.value value) (state.update (Source.decide (first + value.isTruthy.toNat))) code)
    (goes : ∀ value state' code', operator.short value = false → postLeft (.value value) state' code' →
      Kept place names code.store code'.store →
      Meets place names postRight state' code' (rightState state') (rightCode code'))
    (decides : ∀ value state code, postRight (.value value) state code →
      post (.value value) (state.update (Source.decide (first + 2 + value.isTruthy.toNat))) code)
    (leaves : ∀ outcome state code, (∀ value, outcome ≠ .value value) →
      postLeft outcome state code ∨ postRight outcome state code → post outcome state code) :
    Meets place names post state code (Source.select operator first left rightState)
      (Machine.andThen right fun value code =>
        if operator.short value then (.value value, code) else rightCode code) := by
  refine meets.andThen (fun value state' code' holds kept => ?_)
    fun outcome _ _ left holds => leaves _ _ _ left (.inl holds)
  cases short : operator.short value with
  | true =>
    simp only [if_true]
    exact ⟨rfl, .refl .., id, cuts value state' code' short holds⟩
  | false =>
    have onRight := goes value state' code' short holds kept
    have joined : Meets place names post state' code'
        (Machine.andThen (rightState state') fun value state => (.value value,
          state.update (Source.decide (first + 2 + value.isTruthy.toNat))))
        (Machine.andThen (rightCode code') fun value code => (.value value, code)) :=
      onRight.andThen (fun value state code holds _ =>
          ⟨rfl, .refl .., id, decides value state code holds⟩)
        fun outcome _ _ left holds => leaves _ _ _ left (.inr holds)
    simpa using joined

end Meets

theorem meets_interpret {operand : Nat → Source.State → Outcome × Source.State}
    {operandCode : Nat → Code.State → Outcome × Code.State}
    {enter : List Source × List Source → Source.State → Outcome × Source.State}
    {enterCode : Closure → Code.State → Outcome × Code.State}
    {begun : Nat} (operands : ∀ index (state : Source.State) (code : Code.State),
      begun ≤ code.store.activations → Matches tables owed ahead state code →
      Meets place names (fun _ => Matches tables owed ahead) state code (operand index state)
        (operandCode index code))
    (enters : ∀ function closure outer inner state code, Matches tables owed ahead state code →
      Leaves tables outer inner function closure →
      Meets place names (fun _ => Matches tables owed ahead) state code (enter function state)
        (enterCode closure code))
    (fuel : Nat) (state : Source.State) (code : Code.State) (later : begun ≤ code.store.activations)
    (matched : Matches tables owed ahead state code) :
    Meets place names (fun _ => Matches tables owed ahead) state code
      (interpret operand enter fuel state) (interpret operandCode enterCode fuel code) := by
  induction fuel generalizing state code with
  | zero => exact .now matched
  | succ fuel inductionHypothesis =>
    obtain ⟨script, functions, store⟩ := state
    obtain ⟨scriptCode, closures, codeStore⟩ := code
    obtain rfl : scriptCode = script := matched.script
    -- What is left of the script after a command, and a result to go on from.
    have goesOn : ∀ (state : Source.State) (code : Code.State) (left : Outcome × Source.State)
        (right : Outcome × Code.State), begun ≤ code.store.activations →
        Meets place names (fun _ => Matches tables owed ahead) state code left right →
        Meets place names (fun _ => Matches tables owed ahead) state code
          (if left.1 = .unfinished then left else interpret operand enter fuel left.2)
          (if right.1 = .unfinished then right else interpret operandCode enterCode fuel right.2) := by
      intro state code left right later meets
      rw [meets.same]
      split
      · exact meets
      · exact (inductionHypothesis _ _ (Nat.le_trans later meets.kept.activations) meets.post).after meets.kept meets.cut
    cases scriptCode with
    | nil => exact .now matched
    | cons command script =>
      have read : Matches tables owed ahead ⟨script, functions, store⟩ ⟨script, closures, codeStore⟩ :=
        ⟨rfl, matched.functions, matched.points⟩
      cases command with
      | finish value => exact ⟨rfl, .refl .., id, read⟩
      | abandon => exact ⟨rfl, .refl .., id, read⟩
      | operand index =>
        have meets := goesOn _ ⟨script, closures, codeStore⟩ _ _ later
           (operands index _ ⟨script, closures, codeStore⟩ later read)
        exact ⟨meets.same, meets.kept, meets.cut, meets.post⟩
      | call index =>
        simp only [interpret]
        rcases found : functions[index]? with _ | function
        · have none : closures[index]? = none := by
            rw [List.getElem?_eq_none_iff] at found ⊢
            exact (List.Forall₂.length_eq matched.functions) ▸ found
          simp only [none]
          have meets := inductionHypothesis _ ⟨script, closures, codeStore⟩ later read
          exact ⟨meets.same, meets.kept, meets.cut, meets.post⟩
        · obtain ⟨within, rfl⟩ := List.getElem?_eq_some_iff.mp found
          have withinCode : index < closures.length :=
            (List.Forall₂.length_eq matched.functions) ▸ within
          obtain ⟨outer, inner, leaves⟩ := List.Forall₂.get matched.functions within withinCode
          simp only [List.getElem?_eq_getElem withinCode]
          have meets := goesOn _ ⟨script, closures, codeStore⟩ _ _ later
            (enters _ _ outer inner _ _ read leaves)
          exact ⟨meets.same, meets.kept, meets.cut, meets.post⟩

end Supercov.Js
