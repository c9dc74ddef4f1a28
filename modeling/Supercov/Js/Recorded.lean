import Supercov.Js.Trees

/-!
# Selections are recorded

Whole programs: what stands in an expression is recorded where it stands, and a constant's tree by the
statement behind its declaration, in a run that leaves no declaration between the two.
-/

namespace Supercov.Js

open Machine LogicalValueTransformer

/-! ### Constants whose trees are to be recorded -/

/-- The constant holds the tree's value and the frame its leaf, so that its record hits the points. -/
structure Due (tables : List SelectionTable) (environment : Environment) (activation : Nat)
    (store : Code.Store) (transformer : LogicalValueTransformer) (record : SelectionSite × Nat)
    (points : List Nat) : Prop where
  held : ∃ value leaf, environment.constants.lookup record.2 = some value ∧
    store.frames activation record.1.frame = some leaf ∧
    record.1.record tables value (some leaf) = some points
  older : record.1.frame < transformer.names
  declared : record.1.frame ∈ transformer.scopeDeclarations

section Due

variable {tables : List SelectionTable} {environment : Environment} {activation : Nat}
  {store next : Code.Store} {transformer other : LogicalValueTransformer}
  {record : SelectionSite × Nat} {points : List Nat}

theorem Due.later (due : Due tables environment activation store transformer record points)
    (begun : activation < store.activations)
    (kept : Kept (some activation) transformer.names store next) (extended : Extends transformer other) :
    Due tables environment activation next other record points := by
  obtain ⟨value, leaf, bound, named, records⟩ := due.held
  exact ⟨⟨value, leaf, bound,
    (kept.frames activation record.1.frame begun fun _ => due.older).trans named, records⟩,
    Nat.lt_of_lt_of_le due.older extended.names, extended.declarations.subset due.declared⟩

theorem Due.bind (due : Due tables environment activation store transformer record points)
    {name : Option Nat} (apart : name ≠ some record.2) (value : Value) :
    Due tables (environment.bind name value) activation store transformer record points := by
  refine { due with held := ?_ }
  cases name with
  | none => exact due.held
  | some name =>
    have differ : (record.2 == name) = false :=
      beq_false_of_ne fun same => apart (congrArg some same.symm)
    simpa [Environment.bind, List.lookup_cons, differ] using due.held

theorem Due.all_later {records : List (SelectionSite × Nat)} {dues : List (List Nat)} {name : Option Nat}
    (due : List.Forall₂ (Due tables environment activation store transformer) records dues)
    (begun : activation < store.activations)
    (kept : Kept (some activation) transformer.names store next) (extended : Extends transformer other)
    (apart : ∀ record ∈ records, name ≠ some record.2) (value : Value) :
    List.Forall₂ (Due tables (environment.bind name value) activation next other) records dues := by
  induction due with
  | nil => exact .nil
  | cons due _ inductionHypothesis =>
    exact .cons ((due.later begun kept extended).bind (apart _ List.mem_cons_self) value)
      (inductionHypothesis fun record member => apart record (List.mem_cons_of_mem _ member))

end Due

section

variable {tables : List SelectionTable} {again : Bool → Source → Source.State → Outcome × Source.State}
  {againCode : Environment → Code → Code.State → Outcome × Code.State} {fuel : Nat}

theorem scopes_evaluateDeclarators (declarators : List Code) (environment : Environment)
    (code : Code.State) :
    (Code.evaluateDeclarators tables againCode fuel environment declarators code).2.1.scopes =
      environment.scopes := by
  induction declarators generalizing environment code with
  | nil => rfl
  | cons binding declarators inductionHypothesis =>
    cases binding with
    | declarator name initializer =>
      rw [Code.evaluateDeclarators]
      cases ended : (Code.evaluate tables againCode fuel environment initializer code).1 with
      | value value => exact (inductionHypothesis _ _).trans (scopes_bind ..)
      | abrupt | unfinished => rfl
    | _ => rfl

theorem evaluateStatements_cons (statement : Code) (list : List Code) (environment : Environment)
    (code : Code.State) :
    ∃ inner : Environment, inner.scopes = environment.scopes ∧
      Code.evaluateStatements tables againCode fuel environment (statement :: list) code =
        andThen (Code.evaluate tables againCode fuel environment statement code) fun _ code =>
          Code.evaluateStatements tables againCode fuel inner list code := by
  cases statement with
  | constant declarators =>
    exact ⟨_, scopes_evaluateDeclarators declarators environment code, by
      rw [Code.evaluateStatements, Code.evaluate]⟩
  | _ => exact ⟨environment, rfl, by rw [Code.evaluateStatements]; simp⟩

theorem evaluateStatements_records {environment : Environment} {activation : Nat}
    {transformer : LogicalValueTransformer} {records : List (SelectionSite × Nat)}
    {dues : List (List Nat)} (list : List Code) {code : Code.State}
    (stands : Stands environment (some activation) transformer.scopeDeclarations code.store)
    (due : List.Forall₂ (Due tables environment activation code.store transformer) records dues) :
    Code.evaluateStatements tables againCode fuel environment
        (records.map (fun (site, name) => .recordConstant site name) ++ list) code =
      Code.evaluateStatements tables againCode fuel environment list
        (code.update (Code.hit dues.flatten)) := by
  induction records generalizing dues code with
  | nil =>
    cases due
    simp [Code.hit, Machine.update]
  | cons record records inductionHypothesis =>
    obtain _ | @⟨_, points, _, dues, due, rest⟩ := due
    obtain ⟨value, leaf, bound, named, hits⟩ := due.held
    have recorded : Code.evaluate tables againCode fuel environment (.recordConstant record.1 record.2) code =
        (.value value, code.update (Code.hit points)) := by
      simp only [Code.evaluate, bound, Code.record, stands.read due.declared, named, hits]
    have paid := @inductionHypothesis dues (code.update (Code.hit points)) stands
      (rest.imp fun _ _ due => ⟨due.held, due.older, due.declared⟩)
    simp only [List.map_cons, List.cons_append, Code.evaluateStatements, recorded, andThen]
    rw [paid]
    simp [Code.hit, Machine.update]

/-! ### Operands and calls -/

theorem visitAll_getElem? {frameless : Bool} {parts : List Source} {index : Nat} {part : Source}
    (found : parts[index]? = some part) (transformer : LogicalValueTransformer)
    (clear : transformer.afterDeclaration = [] ∨ Source.listlessAll parts) :
    ∃ between, (visitAll frameless false parts transformer).1[index]? =
        some (visit frameless false part between).1 ∧
      Extends transformer between ∧
      Extends (visit frameless false part between).2 (visitAll frameless false parts transformer).2 ∧
      (between.afterDeclaration = [] ∨ part.listless) := by
  induction parts generalizing index transformer with
  | nil => cases found
  | cons first parts inductionHypothesis =>
    have clearFirst := clear.imp_right fun listless => (Bool.and_eq_true_iff.mp listless).1
    cases index with
    | zero =>
      obtain rfl := Option.some.inj found
      exact ⟨transformer, rfl, .refl _, extends_visitAll .., clearFirst⟩
    | succ index =>
      have handed := afterDeclaration_visit frameless first transformer clearFirst
      obtain ⟨between, visited, before, behind, clear⟩ := inductionHypothesis found
        (visit frameless false first transformer).2
        (handed ▸ clear.imp_right fun listless => (Bool.and_eq_true_iff.mp listless).2)
      exact ⟨between, visited, (extends_visit frameless false first transformer).trans before, behind,
        clear⟩

theorem length_visitAll (frameless aliasing : Bool) (parts : List Source)
    (transformer : LogicalValueTransformer) :
    (visitAll frameless aliasing parts transformer).1.length = parts.length := by
  induction parts generalizing transformer with
  | nil => rfl
  | cons part parts inductionHypothesis =>
    rw [visitAll]
    simp [inductionHypothesis]

theorem sound_of_getElem? {frameless aliasing : Bool} {parts : List Source} {index : Nat} {part : Source}
    (found : parts[index]? = some part) (sound : Source.soundAll frameless aliasing parts) :
    part.sound frameless aliasing := by
  induction parts generalizing index with
  | nil => cases found
  | cons first parts inductionHypothesis =>
    obtain ⟨soundFirst, soundRest⟩ := Bool.and_eq_true_iff.mp sound
    cases index with
    | zero => exact Option.some.inj found ▸ soundFirst
    | succ index => exact inductionHypothesis found soundRest

theorem meets_enter (lower : Again tables again againCode) {place : Option Nat} {names : Nat}
    {owed ahead : List Nat} {function : List Source × List Source} {closure : Closure}
    {outer inner : LogicalValueTransformer} {state : Source.State} {code : Code.State}
    (matched : Matches tables owed ahead state code)
    (leaves : Leaves tables outer inner function closure) :
    Meets place names (fun _ => Matches tables owed ahead) state code
      (Source.enter again function state) (Code.enter againCode closure code) := by
  have parameters := lower none (.other function.1) outer closure.environment owed ahead state code
    leaves.sound leaves.clear leaves.tabled nofun matched
  rw [visit, Option.isNone_none, ← leaves.parameters] at parameters
  refine (parameters.anywhere place names).andThen (fun value state' code' matched kept => ?_)
    fun _ _ _ _ holds => holds
  have body := lower (some code'.store.activations) (.statements function.2) inner
    { closure.environment with
      scopes := (code'.store.activations, closure.temporaries) :: closure.environment.scopes }
    owed ahead state' (code'.update fun store => { store with activations := store.activations + 1 })
    leaves.soundBody (leaves.clearBody.imp_right List.isEmpty_iff.mpr) leaves.tabledBody
    (fun activation here => Option.some.inj here ▸ ⟨Nat.lt_succ_self _, _, _, rfl, by
      rw [visit, Option.isNone_some, leaves.temporaries]; exact List.Subset.refl _⟩)
    ⟨matched.script, matched.functions, matched.points⟩
  rw [visit, Option.isNone_some, ← leaves.body] at body
  refine ⟨body.same, ⟨?_, fun holder frame begun _ => ?_⟩, body.cut, body.post⟩
  · exact Nat.le_of_succ_le body.kept.activations
  · exact body.kept.frames holder frame (Nat.lt_succ_of_lt begun) fun same =>
      absurd (Option.some.inj same) (Nat.ne_of_gt begun)

theorem follows_other (lower : Again tables again againCode) (place : Option Nat) (parts : List Source) :
    Follows tables place (Source.soundAll place.isNone false parts) (Source.listlessAll parts)
      (visit place.isNone false (.other parts))
      (Source.evaluate again fuel place.isNone false (.other parts))
      (Code.evaluate tables againCode fuel) := by
  intro transformer environment owed ahead state code sound clear tabled stands matched
  rw [visit] at tabled stands ⊢
  rw [Source.evaluate, Code.evaluate]
  refine meets_interpret (fun index state' code' later matched => ?_)
    (fun function closure outer inner state code matched leaves => meets_enter lower matched leaves)
    fuel state code (Nat.le_refl _) matched
  cases found : parts[index]? with
  | none =>
    have none : (visitAll place.isNone false parts transformer).1[index]? = none := by
      rw [List.getElem?_eq_none_iff, length_visitAll]
      exact List.getElem?_eq_none_iff.mp found
    rw [none]
    exact .now matched
  | some part =>
    obtain ⟨between, visited, before, behind, clearPart⟩ :=
      visitAll_getElem? found transformer clear
    rw [visited]
    exact (lower place part between environment owed ahead state' code' (sound_of_getElem? found sound)
      clearPart (behind.trees.trans tabled)
      (stands.mono behind.declarations.subset later rfl) matched).fewer before.names

/-! ### Expressions and plain declarations -/

theorem follows_logical {left right : Tree Source} (wrappedLeft : WrappedTree tables again againCode fuel left)
    (wrappedRight : WrappedTree tables again againCode fuel right)
    (namedLeft : NamedTree tables again againCode fuel left)
    (namedRight : NamedTree tables again againCode fuel right) (place : Option Nat) (parentheses : Nat)
    (operator : Operator) (first : Nat) :
    Follows tables place ((Source.logical parentheses operator first left right).sound place.isNone false)
      (Source.logical parentheses operator first left right).listless
      (visit place.isNone false (.logical parentheses operator first left right))
      (Source.evaluate again fuel place.isNone false (.logical parentheses operator first left right))
      (Code.evaluate tables againCode fuel) := by
  intro transformer environment owed ahead state code sound clear tabled stands matched
  cases place with
  | none =>
    rw [visit] at tabled ⊢
    exact ((wrappedLeft.selection wrappedRight parentheses operator first) [] transformer environment owed
      ahead state code sound clear tabled matched).imp fun outcome state code holds => by
        cases outcome with
        | value | abrupt | unfinished => exact holds
  | some activation =>
    rw [visit] at tabled stands ⊢
    have meets := meets_named parentheses operator first namedLeft namedRight sound clear tabled stands
      matched
    rw [Source.evaluate]
    simp only [Option.isNone_some, Bool.false_eq_true, if_false, Code.evaluate]
    refine meets.andThenCode (fun value state' code' holds => ?_) fun outcome state code left holds => ?_
    · obtain ⟨leaf, points, records, held, matched⟩ := holds
      have declared := declared_named parentheses operator first left right transformer
      simp only [Code.record, frame_nameTree, stands.read declared, held, records]
      exact ⟨rfl, ⟨Nat.le_refl _, fun _ _ _ _ => rfl⟩, id, matched.pay⟩
    · cases outcome with
      | value value => exact (left value rfl).elim
      | abrupt | unfinished => exact holds

theorem follows_function (place : Option Nat) (parameters body : List Source) :
    Follows tables place ((Source.function parameters body).sound place.isNone false)
      (Source.function parameters body).listless (visit place.isNone false (.function parameters body))
      (Source.evaluate again fuel place.isNone false (.function parameters body))
      (Code.evaluate tables againCode fuel) := by
  intro transformer environment owed ahead state code sound clear tabled stands matched
  obtain ⟨soundParameters, soundBody⟩ := Bool.and_eq_true_iff.mp sound
  have clearParameters := clear.imp_right fun listless => (Bool.and_eq_true_iff.mp listless).1
  have handed := afterDeclaration_visitAll true parameters transformer clearParameters
  rw [visit] at tabled ⊢
  rw [Source.evaluate, Code.evaluate]
  have leaves : Leaves tables transformer
      { (visitAll true false parameters transformer).2 with scopeDeclarations := [] } (parameters, body)
      ⟨environment, (visitAll true false parameters transformer).1, _, _⟩ :=
    { parameters := rfl
      clear := clearParameters
      tabled := (extends_visitStatements false body
        { (visitAll true false parameters transformer).2 with scopeDeclarations := [] }).trees.trans tabled
      sound := soundParameters
      body := rfl
      clearBody := handed ▸ clear.imp_right fun listless =>
        List.isEmpty_iff.mp (Bool.and_eq_true_iff.mp listless).2
      tabledBody := tabled
      soundBody
      temporaries := rfl }
  exact ⟨rfl, .refl .., id, matched.create leaves⟩

theorem evaluate_constant_cons (name : Option Nat) (initializer : Code) (declarators : List Code)
    (environment : Environment) (code : Code.State) :
    Code.evaluate tables againCode fuel environment (.constant (.declarator name initializer :: declarators))
        code =
      andThen (Code.evaluate tables againCode fuel environment initializer code) fun value code =>
        Code.evaluate tables againCode fuel (environment.bind name value) (.constant declarators) code := by
  simp only [Code.evaluate, Code.evaluateDeclarators]
  obtain ⟨outcome, code⟩ := Code.evaluate tables againCode fuel environment initializer code
  cases outcome <;> rfl

theorem kept_unaliased (frameless : Bool) (source : Source) : source.kept frameless false = false := by
  unfold Source.kept
  split <;> rfl

theorem evaluateDeclarators_cons (frameless : Bool) (binding : Source) (declarators : List Source)
    (state : Source.State) :
    Source.evaluateDeclarators again fuel frameless false false (binding :: declarators) state =
      andThen (Source.evaluate again fuel frameless false binding state) fun _ state =>
        Source.evaluateDeclarators again fuel frameless false false declarators state := by
  simp only [Source.evaluateDeclarators, kept_unaliased, Bool.or_false]
  obtain ⟨outcome, state⟩ := Source.evaluate again fuel frameless false binding state
  cases outcome <;> rfl

theorem follows_constant {place : Option Nat} {name : Option Nat} {initializer : Source}
    {declarators : List Source}
    (ofInitializer : Follows tables place (initializer.sound place.isNone false) initializer.listless
      (visit place.isNone false initializer) (Source.evaluate again fuel place.isNone false initializer)
      (Code.evaluate tables againCode fuel))
    (ofRest : Follows tables place (Source.soundAll place.isNone false declarators)
      (Source.listlessAll declarators) (visitAll place.isNone false declarators)
      (Source.evaluateDeclarators again fuel place.isNone false false declarators)
      fun environment list => Code.evaluate tables againCode fuel environment (.constant list)) :
    Follows tables place (Source.soundAll place.isNone false (.declarator name initializer :: declarators))
      (Source.listlessAll (.declarator name initializer :: declarators))
      (visitAll place.isNone false (.declarator name initializer :: declarators))
      (Source.evaluateDeclarators again fuel place.isNone false false
        (.declarator name initializer :: declarators))
      fun environment list => Code.evaluate tables againCode fuel environment (.constant list) := by
  intro transformer environment owed ahead state code sound clear tabled stands matched
  obtain ⟨soundFirst, soundRest⟩ := Bool.and_eq_true_iff.mp sound
  have clearFirst := clear.imp_right fun listless => (Bool.and_eq_true_iff.mp listless).1
  rw [visitAll, visit_declarator (kept_unaliased ..)] at tabled stands ⊢
  have extended := extends_visitAll place.isNone false declarators
    (visit place.isNone false initializer transformer).2
  have handed := afterDeclaration_visit place.isNone initializer transformer clearFirst
  have meets := ofInitializer transformer environment owed ahead state code soundFirst clearFirst
    (extended.trees.trans tabled) (stands.mono extended.declarations.subset (Nat.le_refl _) rfl) matched
  rw [evaluateDeclarators_cons, Source.evaluate]
  simp only [evaluate_constant_cons]
  refine meets.andThen (fun value state' code' matched kept => ?_) fun _ _ _ _ holds => holds
  exact (ofRest _ _ owed ahead state' code' soundRest
    (handed ▸ clear.imp_right fun listless => (Bool.and_eq_true_iff.mp listless).2) tabled
    (stands.mono (List.Subset.refl _) kept.activations (scopes_bind ..)) matched).fewer
    (extends_visit ..).names

theorem follows_statement {place : Option Nat} {statement : Source} {list : List Source}
    (visits : ∀ transformer, visit place.isNone statement.isConstant statement transformer =
      visit place.isNone false statement transformer)
    (evaluates : ∀ state, Source.evaluate again fuel place.isNone statement.isConstant statement state =
      Source.evaluate again fuel place.isNone false statement state)
    (ofStatement : Follows tables place (statement.sound place.isNone false) statement.listless
      (visit place.isNone false statement) (Source.evaluate again fuel place.isNone false statement)
      (Code.evaluate tables againCode fuel))
    (ofRest : Follows tables place (Source.soundStatements place.isNone list) list.isEmpty
      (visitStatements place.isNone list) (Source.evaluateStatements again fuel place.isNone list)
      (Code.evaluateStatements tables againCode fuel)) :
    Follows tables place
      (statement.sound place.isNone false && Source.soundStatements place.isNone list) false
      (visitStatements place.isNone (statement :: list))
      (Source.evaluateStatements again fuel place.isNone (statement :: list))
      (Code.evaluateStatements tables againCode fuel) := by
  intro transformer environment owed ahead state code sound clear tabled stands matched
  obtain ⟨soundStatement, soundRest⟩ := Bool.and_eq_true_iff.mp sound
  have clear : transformer.afterDeclaration = [] := clear.resolve_right nofun
  rw [visitStatements, visits] at tabled stands ⊢
  rw [Source.evaluateStatements, evaluates]
  have handed : (visit place.isNone false statement transformer).2.afterDeclaration = [] :=
    (afterDeclaration_visit place.isNone statement transformer (.inl clear)).trans clear
  have extended := extends_visitStatements place.isNone list
    { (visit place.isNone false statement transformer).2 with afterDeclaration := [] }
  have meets := ofStatement transformer environment owed ahead state code soundStatement (.inl clear)
    (extended.trees.trans tabled) (stands.mono extended.declarations.subset (Nat.le_refl _) rfl) matched
  obtain ⟨inner, scopes, eq⟩ := @evaluateStatements_cons tables againCode fuel
    (visit place.isNone false statement transformer).1
    (visitStatements place.isNone list
      { (visit place.isNone false statement transformer).2 with afterDeclaration := [] }).1
    environment code
  rw [handed, List.map_nil, List.cons_append, List.nil_append, eq]
  refine meets.andThen (fun value state' code' matched kept => ?_) fun _ _ _ _ holds => holds
  exact (ofRest _ inner owed ahead state' code' soundRest (.inl rfl) tabled
    (stands.mono (List.Subset.refl _) kept.activations scopes) matched).fewer (extends_visit ..).names

/-! ### Declarations whose constants keep trees -/

/-- The trees kept so far are due, and those of the rest come due; a declaration left before its end
with a tree due is cut. -/
def DuePost (tables : List SelectionTable) (activation : Nat) (environment : Environment)
    (transformer : LogicalValueTransformer) (owed ahead : List Nat) :
    Outcome → Source.State → Code.State → Prop
  | .value _, state, code => ∃ dues, List.Forall₂ (Due tables environment activation code.store transformer)
      transformer.afterDeclaration dues ∧ Matches tables (dues.flatten ++ owed) ahead state code
  | _, state, code => Matches tables owed ahead state code

def KeepsTrees (tables : List SelectionTable) (again : Bool → Source → Source.State → Outcome × Source.State)
    (againCode : Environment → Code → Code.State → Outcome × Code.State) (fuel : Nat)
    (declarators : List Source) : Prop :=
  ∀ pending transformer environment activation owed ahead dues state code,
    declarators.all Source.isDeclarator → Source.inOrder false true declarators →
    (declarators.filterMap Source.boundName).Nodup → Source.soundAll false true declarators →
    (pending = true → Source.listlessAll declarators) →
    (pending = false → transformer.afterDeclaration = []) →
    (∀ record ∈ transformer.afterDeclaration, record.2 ∉ declarators.filterMap Source.boundName) →
    (visitAll false true declarators transformer).2.trees <+: tables →
    Stands environment (some activation) (visitAll false true declarators transformer).2.scopeDeclarations
      code.store →
    List.Forall₂ (Due tables environment activation code.store transformer) transformer.afterDeclaration
      dues →
    Matches tables (dues.flatten ++ owed) ahead state code →
    let result := Code.evaluateDeclarators tables againCode fuel environment
      (visitAll false true declarators transformer).1 code
    Meets (some activation) transformer.names
      (DuePost tables activation result.2.1 (visitAll false true declarators transformer).2 owed ahead)
      state code (Source.evaluateDeclarators again fuel false true pending declarators state)
      (result.1, result.2.2)

theorem Matches.cut {owed ahead : List Nat} {dues : List (List Nat)} {pending : Bool}
    {records : List (SelectionSite × Nat)} {Holds : SelectionSite × Nat → List Nat → Prop}
    {state : Source.State} {code : Code.State} (due : List.Forall₂ Holds records dues)
    (none : pending = false → records = [])
    (matched : Matches tables (dues.flatten ++ owed) ahead state code) :
    Matches tables owed ahead
      (state.update fun store => { store with cut := store.cut || pending }) code := by
  refine matched.update (fun store => { store with cut := store.cut || pending }) id
    (fun uncut => (Bool.or_eq_false_iff.mp uncut).1) fun uncut point counts => ?_
  obtain rfl := none (Bool.or_eq_false_iff.mp uncut).2
  cases due
  exact counts

theorem KeepsTrees.nil : KeepsTrees tables again againCode fuel [] := by
  intro pending transformer environment activation owed ahead dues state code _ _ _ _ _ _ _ _ _ due
    matched
  exact .now ⟨dues, due, matched⟩

theorem KeepsTrees.tail {binding : Source} {declarators : List Source} {name : Option Nat} {initializer : Code}
    (ofRest : KeepsTrees tables again againCode fuel declarators) {pending : Bool} {names activation : Nat}
    {next : LogicalValueTransformer} {environment : Environment} {owed ahead : List Nat}
    {dues : List (List Nat)} {records : List (SelectionSite × Nat)}
    {Holds : SelectionSite × Nat → List Nat → Prop} {state : Source.State} {code : Code.State}
    (due : List.Forall₂ Holds records dues) (none : pending = false → records = [])
    (meets : Meets (some activation) names
      (fun outcome state code => match outcome with
        | .value value => ∃ dues,
          List.Forall₂ (Due tables (environment.bind name value) activation code.store next)
            next.afterDeclaration dues ∧ Matches tables (dues.flatten ++ owed) ahead state code
        | _ => Matches tables (dues.flatten ++ owed) ahead state code)
      state code (Source.evaluate again fuel false true binding state)
      (Code.evaluate tables againCode fuel environment initializer code))
    (later : names ≤ next.names) (only : declarators.all Source.isDeclarator)
    (ordered : Source.inOrder false true declarators)
    (distinct : (declarators.filterMap Source.boundName).Nodup)
    (sound : Source.soundAll false true declarators)
    (listless : (pending || binding.kept false true) = true → Source.listlessAll declarators)
    (settled : (pending || binding.kept false true) = false → next.afterDeclaration = [])
    (apart : ∀ record ∈ next.afterDeclaration, record.2 ∉ declarators.filterMap Source.boundName)
    (tabled : (visitAll false true declarators next).2.trees <+: tables)
    (stands : Stands environment (some activation) (visitAll false true declarators next).2.scopeDeclarations
      code.store) :
    let result := Code.evaluateDeclarators tables againCode fuel environment
      (.declarator name initializer :: (visitAll false true declarators next).1) code
    Meets (some activation) names
      (DuePost tables activation result.2.1 (visitAll false true declarators next).2 owed ahead)
      state code (Source.evaluateDeclarators again fuel false true pending (binding :: declarators) state)
      (result.1, result.2.2) := by
  simp only [Source.evaluateDeclarators, Code.evaluateDeclarators]
  generalize Source.evaluate again fuel false true binding state = left at meets ⊢
  generalize Code.evaluate tables againCode fuel environment initializer code = right at meets ⊢
  obtain ⟨outcome, state'⟩ := left
  obtain ⟨other, code'⟩ := right
  obtain rfl : other = outcome := meets.same
  cases other with
  | value value =>
    obtain ⟨dues, due, matched⟩ := meets.post
    exact ((ofRest _ next (environment.bind name value) activation owed ahead dues state' code' only ordered
      distinct sound listless settled apart tabled
      (stands.mono (List.Subset.refl _) meets.kept.activations (scopes_bind ..)) due matched).fewer
      later).after meets.kept meets.cut
  | abrupt | unfinished =>
    exact ⟨rfl, meets.kept, fun uncut => meets.cut (Bool.or_eq_false_iff.mp uncut).1,
      Matches.cut due none meets.post⟩

theorem nodup_tail {name : Option Nat} {initializer : Source} {declarators : List Source}
    (distinct : ((Source.declarator name initializer :: declarators).filterMap Source.boundName).Nodup) :
    (declarators.filterMap Source.boundName).Nodup ∧
      ∀ bound, name = some bound → bound ∉ declarators.filterMap Source.boundName := by
  cases name with
  | none => exact ⟨distinct, nofun⟩
  | some name =>
    obtain ⟨fresh, distinct⟩ := List.nodup_cons.mp distinct
    exact ⟨distinct, fun bound same => Option.some.inj same ▸ fresh⟩

theorem not_mem_tail {name : Option Nat} {initializer : Source} {declarators : List Source} {other : Nat}
    (apart : other ∉ (Source.declarator name initializer :: declarators).filterMap Source.boundName) :
    name ≠ some other ∧ other ∉ declarators.filterMap Source.boundName := by
  cases name with
  | none => exact ⟨nofun, apart⟩
  | some name =>
    refine ⟨fun same => apart ?_, fun member => apart (List.mem_cons_of_mem _ member)⟩
    exact Option.some.inj same ▸ List.mem_cons_self

theorem KeepsTrees.plain {name : Option Nat} {initializer : Source} {declarators : List Source}
    (unkept : (Source.declarator name initializer).kept false true = false)
    (ofInitializer : ∀ place : Option Nat, Follows tables place (initializer.sound place.isNone false)
      initializer.listless (visit place.isNone false initializer)
      (Source.evaluate again fuel place.isNone false initializer) (Code.evaluate tables againCode fuel))
    (ofRest : KeepsTrees tables again againCode fuel declarators) :
    KeepsTrees tables again againCode fuel (.declarator name initializer :: declarators) := by
  intro pending transformer environment activation owed ahead dues state code only ordered distinct sound
    listless settled apart tabled stands due matched
  obtain ⟨soundFirst, soundRest⟩ := Bool.and_eq_true_iff.mp sound
  obtain ⟨-, onlyRest⟩ := Bool.and_eq_true_iff.mp only
  obtain ⟨-, orderedRest⟩ := Bool.and_eq_true_iff.mp ordered
  have clear : transformer.afterDeclaration = [] ∨ initializer.listless := by
    cases pending with
    | false => exact .inl (settled rfl)
    | true => exact .inr (Bool.and_eq_true_iff.mp (listless rfl)).1
  have extended := extends_visit false false initializer transformer
  have extendedRest := extends_visitAll false true declarators (visit false false initializer transformer).2
  have handed := afterDeclaration_visit false initializer transformer clear
  rw [visitAll, visit_declarator unkept] at tabled stands ⊢
  have standsNow := stands.mono extendedRest.declarations.subset (Nat.le_refl _) rfl
  have meets := ofInitializer (some activation) transformer environment (dues.flatten ++ owed) ahead state
    code soundFirst clear (extendedRest.trees.trans tabled) standsNow matched
  refine KeepsTrees.tail ofRest due settled ?_ extended.names onlyRest orderedRest (nodup_tail distinct).1
    soundRest ?_ ?_ ?_ tabled stands
  · rw [Source.evaluate]
    refine ⟨meets.same, meets.kept, meets.cut, ?_⟩
    have post := meets.post
    cases ended : (Source.evaluate again fuel false false initializer state).1 with
    | value value =>
      refine ⟨dues, ?_, post⟩
      rw [handed]
      exact Due.all_later due (stands activation rfl).1 meets.kept extended
        (fun record member => (not_mem_tail (apart record member)).1) value
    | abrupt | unfinished => exact post
  · rw [unkept, Bool.or_false]
    exact fun pending => (Bool.and_eq_true_iff.mp (listless pending)).2
  · rw [unkept, Bool.or_false, handed]
    exact settled
  · rw [handed]
    exact fun record member => (not_mem_tail (apart record member)).2

theorem KeepsTrees.kept {name parentheses first : Nat} {operator : Operator} {left right : Tree Source}
    {declarators : List Source} (ofLeft : NamedTree tables again againCode fuel left)
    (ofRight : NamedTree tables again againCode fuel right)
    (ofRest : KeepsTrees tables again againCode fuel declarators) :
    KeepsTrees tables again againCode fuel
      (.declarator (some name) (.logical parentheses operator first left right) :: declarators) := by
  intro pending transformer environment activation owed ahead dues state code only ordered distinct sound
    listless settled apart tabled stands due matched
  obtain ⟨soundFirst, soundRest⟩ := Bool.and_eq_true_iff.mp sound
  obtain ⟨-, onlyRest⟩ := Bool.and_eq_true_iff.mp only
  obtain ⟨listlessRest, orderedRest⟩ := Bool.and_eq_true_iff.mp ordered
  have clear : transformer.afterDeclaration = [] ∨
      Source.listlessTree (.selection parentheses operator first left right) := by
    cases pending with
    | false => exact .inl (settled rfl)
    | true => exact .inr (Bool.and_eq_true_iff.mp (listless rfl)).1
  have declared := declared_named parentheses operator first left right transformer
  have handed := afterDeclaration_nameKept parentheses operator first left right transformer clear
  have extended := extends_nameKept parentheses operator first left right transformer
  have grown := (extends_nameTree parentheses operator first left right transformer).trans extended
  have older : transformer.names < (nameKept parentheses operator first left right transformer).2.2.names :=
    Nat.lt_of_lt_of_le (names_nameTree parentheses operator first left right transformer ▸
      Nat.lt_succ_self _) extended.names
  have meets := @meets_named tables again againCode fuel parentheses operator first left right activation
    ofLeft ofRight transformer environment (dues.flatten ++ owed) ahead state code soundFirst clear
  rw [visitAll, visit_kept] at tabled stands ⊢
  have frame := frame_nameTree parentheses operator first left right transformer
  generalize nameKept parentheses operator first left right transformer = named at *
  generalize (nameTree parentheses operator first left right transformer).1.site = site at *
  have extendedRest := extends_visitAll false true declarators
    { named.2.2 with afterDeclaration := named.2.2.afterDeclaration ++ [(site, name)] }
  have met := meets (extendedRest.trees.trans tabled)
    (stands.mono extendedRest.declarations.subset (Nat.le_refl _) rfl) matched
  refine KeepsTrees.tail ofRest due settled ?_ grown.names onlyRest orderedRest
    (nodup_tail distinct).1 soundRest (fun _ => listlessRest) ?_ ?_ tabled stands
  · rw [Source.evaluate, Source.evaluate]
    refine ⟨met.same, met.kept, met.cut, ?_⟩
    have post := met.post
    generalize (Source.select operator first (Source.evaluateTree again fuel false left state)
      (Source.evaluateTree again fuel false right)).1 = outcome at post ⊢
    cases outcome with
    | value value =>
      obtain ⟨leaf, points, records, held, matched⟩ := post
      refine ⟨dues ++ [points], ?_, matched.congr fun point => by simp; omega⟩
      rw [handed]
      refine List.rel_append (Due.all_later due (stands activation rfl).1 met.kept
        (grown.handed _)
        (fun record member => (not_mem_tail (apart record member)).1) value) (.cons ?_ .nil)
      refine ⟨⟨value, leaf, List.lookup_cons_self, ?_, records⟩, ?_, ?_⟩
      · rw [frame]; exact held
      · rw [frame]; exact older
      · rw [frame]; exact declared
    | abrupt | unfinished => exact post
  · intro unsettled
    simp [Source.kept] at unsettled
  · rw [handed]
    intro record member
    rcases List.mem_append.mp member with member | member
    · exact (not_mem_tail (apart record member)).2
    · obtain rfl := List.mem_singleton.mp member
      exact (nodup_tail distinct).2 name rfl

theorem follows_keeping {declarators list : List Source} {activation : Nat}
    (keeps : KeepsTrees tables again againCode fuel declarators)
    (ofRest : Follows tables (some activation) (Source.soundStatements false list) list.isEmpty
      (visitStatements false list) (Source.evaluateStatements again fuel false list)
      (Code.evaluateStatements tables againCode fuel)) :
    Follows tables (some activation)
      ((Source.constant declarators).sound false true && Source.soundStatements false list) false
      (visitStatements false (.constant declarators :: list))
      (Source.evaluateStatements again fuel false (.constant declarators :: list))
      (Code.evaluateStatements tables againCode fuel) := by
  intro transformer environment owed ahead state code sound clear tabled stands matched
  obtain ⟨soundConstant, soundRest⟩ := Bool.and_eq_true_iff.mp sound
  obtain ⟨declaration, soundAll⟩ := Bool.and_eq_true_iff.mp soundConstant
  obtain ⟨accepted, ordered⟩ := Bool.and_eq_true_iff.mp declaration
  obtain ⟨only, distinct⟩ := Bool.and_eq_true_iff.mp accepted
  have clear : transformer.afterDeclaration = [] := clear.resolve_right nofun
  rw [visitStatements, Source.isConstant, visit] at tabled stands ⊢
  rw [Source.evaluateStatements, Source.isConstant]
  have extended := extends_visitAll false true declarators transformer
  have extendedRest := extends_visitStatements false list
    { (visitAll false true declarators transformer).2 with afterDeclaration := [] }
  have standsNow : Stands environment (some activation)
      (visitAll false true declarators transformer).2.scopeDeclarations code.store :=
    stands.mono extendedRest.declarations.subset (Nat.le_refl _) rfl
  have meets := keeps false transformer environment activation owed ahead [] state code only ordered
    (of_decide_eq_true distinct) soundAll nofun (fun _ => clear) (by rw [clear]; nofun)
    (extendedRest.trees.trans tabled) standsNow (by rw [clear]; exact .nil) matched
  have scopes := @scopes_evaluateDeclarators tables againCode fuel
    (visitAll false true declarators transformer).1 environment code
  rw [List.cons_append, Code.evaluateStatements, Source.evaluate]
  refine meets.andThen (fun value state' code' holds kept => ?_) fun outcome state code left holds => ?_
  · obtain ⟨dues, due, matched⟩ := holds
    have later := standsNow.mono (List.Subset.refl _) kept.activations scopes
    rw [evaluateStatements_records _ later due]
    have met := (ofRest _ _ owed ahead state' (code'.update (Code.hit dues.flatten)) soundRest (.inl rfl)
      tabled (stands.mono (List.Subset.refl _) kept.activations scopes) matched.pay).fewer extended.names
    exact ⟨met.same, ⟨met.kept.activations, met.kept.frames⟩, met.cut, met.post⟩
  · cases outcome with
    | value value => exact (left value rfl).elim
    | abrupt | unfinished => exact holds

/-- Where no frame can be declared, a `const` is visited as any other declaration. -/
theorem frameless_declarators {declarators : List Source} (only : declarators.all Source.isDeclarator) :
    (∀ transformer, visitAll true true declarators transformer =
        visitAll true false declarators transformer) ∧
      (∀ pending state, Source.evaluateDeclarators again fuel true true pending declarators state =
        Source.evaluateDeclarators again fuel true false pending declarators state) ∧
      Source.soundAll true true declarators = Source.soundAll true false declarators ∧
      Source.inOrder true false declarators = true := by
  induction declarators with
  | nil => exact ⟨fun _ => rfl, fun _ _ => rfl, rfl, rfl⟩
  | cons binding declarators inductionHypothesis =>
    obtain ⟨isDeclarator, only⟩ := Bool.and_eq_true_iff.mp only
    obtain ⟨visits, evaluates, sound, ordered⟩ := inductionHypothesis only
    cases binding with
    | declarator name initializer =>
      have unkept : (Source.declarator name initializer).kept true true = false := by
        unfold Source.kept
        split <;> rfl
      refine ⟨fun transformer => ?_, fun pending state => ?_, ?_, ?_⟩
      · rw [visitAll, visitAll, visit_declarator unkept, visit_declarator (kept_unaliased ..), visits]
      · simp only [Source.evaluateDeclarators, Source.evaluate, unkept, kept_unaliased, evaluates]
      · simp only [Source.soundAll, Source.sound, sound]
      · simp only [Source.inOrder, kept_unaliased, ordered, Bool.not_false, Bool.true_or, Bool.and_self]
    | _ => cases isDeclarator

/-! ### The induction over a program -/

mutual

theorem follows_visit (lower : Again tables again againCode) (place : Option Nat) (source : Source) :
    Follows tables place (source.sound place.isNone false) source.listless
      (visit place.isNone false source) (Source.evaluate again fuel place.isNone false source)
      (Code.evaluate tables againCode fuel) := by
  match source with
  | .logical parentheses operator first left right =>
    exact follows_logical (wrappedTree lower left) (wrappedTree lower right) (namedTree lower left)
      (namedTree lower right) place parentheses operator first
  | .function parameters body => exact follows_function place parameters body
  | .statements list =>
    intro transformer environment owed ahead state code sound clear tabled stands matched
    rw [visit] at tabled stands ⊢
    exact follows_statements lower place list transformer environment owed ahead state code sound clear
      tabled stands matched
  | .constant declarators =>
    intro transformer environment owed ahead state code sound clear tabled stands matched
    obtain ⟨declaration, soundAll⟩ := Bool.and_eq_true_iff.mp sound
    obtain ⟨accepted, -⟩ := Bool.and_eq_true_iff.mp declaration
    rw [visit] at tabled stands ⊢
    exact follows_declarators lower place declarators (Bool.and_eq_true_iff.mp accepted).1 transformer
      environment owed ahead state code soundAll clear tabled stands matched
  | .declarator name initializer =>
    intro transformer environment owed ahead state code sound clear tabled stands matched
    rw [visit_declarator (kept_unaliased ..)] at tabled stands ⊢
    exact follows_visit lower place initializer transformer environment owed ahead state code sound clear
      tabled stands matched
  | .member inner =>
    intro transformer environment owed ahead state code sound clear tabled stands matched
    rw [visit] at tabled stands ⊢
    exact (follows_visit lower none inner transformer environment owed ahead state code sound clear tabled
      nofun matched).anywhere ..
  | .other parts => exact follows_other lower place parts

theorem follows_statements (lower : Again tables again againCode) (place : Option Nat)
    (list : List Source) :
    Follows tables place (Source.soundStatements place.isNone list) list.isEmpty
      (visitStatements place.isNone list) (Source.evaluateStatements again fuel place.isNone list)
      (Code.evaluateStatements tables againCode fuel) := by
  match list with
  | [] =>
    intro transformer environment owed ahead state code sound clear tabled stands matched
    exact .now matched
  | .constant declarators :: list =>
    intro transformer environment owed ahead state code sound clear tabled stands matched
    have declaration := (Bool.and_eq_true_iff.mp (Bool.and_eq_true_iff.mp sound).1).1
    have only := (Bool.and_eq_true_iff.mp (Bool.and_eq_true_iff.mp declaration).1).1
    cases place with
    | some activation =>
      exact follows_keeping (keepsTrees lower declarators only)
        (follows_statements lower (some activation) list) transformer environment owed ahead state code sound
        clear tabled stands matched
    | none =>
      obtain ⟨visits, evaluates, soundSame, ordered⟩ := @frameless_declarators again fuel declarators only
      refine follows_statement (fun _ => ?_) (fun _ => ?_) ?_ (follows_statements lower none list)
        transformer environment owed ahead state code ?_ clear tabled stands matched
      · simp only [Source.isConstant, Option.isNone_none, visit, visits]
      · simp only [Source.isConstant, Option.isNone_none, Source.evaluate, evaluates]
      · exact follows_visit lower none (.constant declarators)
      · obtain ⟨soundConstant, soundRest⟩ := Bool.and_eq_true_iff.mp sound
        obtain ⟨soundDeclaration, soundAll⟩ := Bool.and_eq_true_iff.mp soundConstant
        have accepted := (Bool.and_eq_true_iff.mp soundDeclaration).1
        exact Bool.and_eq_true_iff.mpr ⟨Bool.and_eq_true_iff.mpr
          ⟨Bool.and_eq_true_iff.mpr ⟨accepted, ordered⟩, soundSame ▸ soundAll⟩, soundRest⟩
  | .logical parentheses operator first left right :: list | .function parameters body :: list
  | .statements inner :: list | .declarator name initializer :: list | .member inner :: list
  | .other parts :: list =>
    intro transformer environment owed ahead state code sound clear tabled stands matched
    exact follows_statement (fun _ => rfl) (fun _ => rfl) (follows_visit lower place _)
      (follows_statements lower place list) transformer environment owed ahead state code sound clear tabled
      stands matched

theorem follows_declarators (lower : Again tables again againCode) (place : Option Nat)
    (declarators : List Source) (only : declarators.all Source.isDeclarator) :
    Follows tables place (Source.soundAll place.isNone false declarators)
      (Source.listlessAll declarators) (visitAll place.isNone false declarators)
      (Source.evaluateDeclarators again fuel place.isNone false false declarators)
      fun environment list => Code.evaluate tables againCode fuel environment (.constant list) := by
  match declarators with
  | [] =>
    intro transformer environment owed ahead state code sound clear tabled stands matched
    exact .now matched
  | .declarator name initializer :: declarators =>
    exact follows_constant (follows_visit lower place initializer)
      (follows_declarators lower place declarators (Bool.and_eq_true_iff.mp only).2)
  | .logical .. :: _ | .function .. :: _ | .statements _ :: _ | .constant _ :: _ | .member _ :: _
  | .other _ :: _ => cases only

theorem keepsTrees (lower : Again tables again againCode) (declarators : List Source)
    (only : declarators.all Source.isDeclarator) :
    KeepsTrees tables again againCode fuel declarators := by
  match declarators with
  | [] => exact .nil
  | .declarator (some name) (.logical parentheses operator first left right) :: declarators =>
    exact .kept (namedTree lower left) (namedTree lower right)
      (keepsTrees lower declarators (Bool.and_eq_true_iff.mp only).2)
  | .declarator none initializer :: declarators
  | .declarator (some name) (.function parameters body) :: declarators
  | .declarator (some name) (.statements list) :: declarators
  | .declarator (some name) (.constant list) :: declarators
  | .declarator (some name) (.declarator inner initializer) :: declarators
  | .declarator (some name) (.member inner) :: declarators
  | .declarator (some name) (.other parts) :: declarators =>
    exact .plain rfl (fun place => follows_visit lower place _)
      (keepsTrees lower declarators (Bool.and_eq_true_iff.mp only).2)
  | .logical .. :: _ | .function .. :: _ | .statements _ :: _ | .constant _ :: _ | .member _ :: _
  | .other _ :: _ => cases only

theorem wrappedTree (lower : Again tables again againCode) (tree : Tree Source) :
    WrappedTree tables again againCode fuel tree := by
  match tree with
  | .leaf value => exact .leaf (follows_visit lower none value)
  | .selection parentheses operator first left right =>
    exact (wrappedTree lower left).selection (wrappedTree lower right) parentheses operator first

theorem namedTree (lower : Again tables again againCode) (tree : Tree Source) :
    NamedTree tables again againCode fuel tree := by
  match tree with
  | .leaf value => exact .leaf fun activation => follows_visit lower (some activation) value
  | .selection parentheses operator first left right =>
    exact (namedTree lower left).selection (namedTree lower right) parentheses operator first

end

end

theorem again_run (tables : List SelectionTable) (fuel : Nat) :
    Again tables (Source.run fuel) (Code.run tables fuel) := by
  induction fuel with
  | zero =>
    intro place source transformer environment owed ahead state code sound clear tabled stands matched
    exact .now matched
  | succ fuel inductionHypothesis => exact follows_visit inductionHypothesis

theorem hits_perm_decided {fuel : Nat} {script : List Command} {program : List Source}
    (sound : Source.soundStatements false program)
    (uncut : (runProgram fuel script program).2.store.cut = false) :
    (runInstrumented fuel script program).1 = (runProgram fuel script program).1 ∧
      (runInstrumented fuel script program).2.store.hits.Perm
        (runProgram fuel script program).2.store.decided := by
  have meets := again_run (visitProgram program).2.trees fuel (some 0) (.statements program) {}
    { scopes := [(0, (visitProgram program).2.scopeDeclarations)] } [] [] { script, store := {} }
    { script, store := { activations := 1 } } sound (.inl rfl)
    (by rw [visit]; exact List.prefix_rfl)
    (fun activation here => Option.some.inj here ▸ ⟨Nat.one_pos, _, _, rfl, by
      rw [visit]; exact List.Subset.refl _⟩)
    ⟨rfl, .nil, fun _ _ => rfl⟩
  rw [visit] at meets
  refine ⟨meets.same, List.perm_iff_count.mpr fun point => ?_⟩
  have counts := meets.post.points uncut point
  simp only [List.append_nil] at counts
  exact counts

/-! ### One tree in its two forms -/

def Tree.unread : Tree Unit → Tree Source
  | .leaf _ => .leaf (.other [])
  | .selection parentheses operator first left right =>
    .selection parentheses operator first left.unread right.unread

section Forms

variable {again : Bool → Source → Source.State → Outcome × Source.State} {fuel : Nat}

theorem interpret_none (operand : Nat → Source.State → Outcome × Source.State)
    (enter : List Source × List Source → Source.State → Outcome × Source.State)
    (keeps : ∀ index state, operand index state = (.abrupt, state)) (state : Source.State)
    (none : state.functions = []) :
    (interpret operand enter fuel state).2.functions = [] ∧
      (interpret operand enter fuel state).2.store = state.store := by
  induction fuel generalizing state with
  | zero => exact ⟨none, rfl⟩
  | succ fuel inductionHypothesis =>
    obtain ⟨script, functions, store⟩ := state
    obtain rfl : functions = [] := none
    cases script with
    | nil => exact ⟨rfl, rfl⟩
    | cons command script =>
      cases command with
      | finish | abandon => exact ⟨rfl, rfl⟩
      | operand index =>
        simp only [interpret, keeps]
        exact inductionHypothesis ⟨script, [], store⟩ rfl
      | call index => exact inductionHypothesis ⟨script, [], store⟩ rfl

theorem Tree.evaluate_unread (tree : Tree Unit) (state : Source.State) (none : state.functions = []) :
    Source.evaluateTree again fuel true tree.unread state =
        Source.evaluateTree again fuel false tree.unread state ∧
      (Source.evaluateTree again fuel false tree.unread state).2.functions = [] ∧
      (Source.evaluateTree again fuel false tree.unread state).2.store.cut = state.store.cut := by
  induction tree generalizing state with
  | leaf value =>
    simp only [Tree.unread, Source.evaluateTree, Source.evaluate]
    obtain ⟨functions, store⟩ := @interpret_none fuel
      (fun _ state => (.abrupt, state)) (Source.enter again) (fun _ _ => rfl) state none
    exact ⟨rfl, functions, congrArg Source.Store.cut store⟩
  | selection parentheses operator first left right ofLeft ofRight =>
    obtain ⟨sameLeft, noneLeft, cutLeft⟩ := ofLeft state none
    simp only [Tree.unread, Source.evaluateTree, Source.select, sameLeft]
    generalize Source.evaluateTree again fuel false left.unread state = result at noneLeft cutLeft ⊢
    obtain ⟨outcome, state'⟩ := result
    cases outcome with
    | value value =>
      simp only [andThen]
      cases operator.short value with
      | true => exact ⟨rfl, noneLeft, cutLeft⟩
      | false =>
        obtain ⟨sameRight, noneRight, cutRight⟩ := ofRight state' noneLeft
        simp only [Bool.false_eq_true, if_false, sameRight]
        generalize Source.evaluateTree again fuel false right.unread state' = result at noneRight cutRight ⊢
        obtain ⟨outcome, state''⟩ := result
        cases outcome with
        | value | abrupt | unfinished => exact ⟨trivial, noneRight, cutRight.trans cutLeft⟩
    | abrupt | unfinished => exact ⟨rfl, noneLeft, cutLeft⟩

theorem soundTree_unread (frameless : Bool) (tree : Tree Unit) :
    Source.soundTree frameless tree.unread = true := by
  induction tree with
  | leaf value => rfl
  | selection parentheses operator first left right ofLeft ofRight =>
    simp [Tree.unread, Source.soundTree, ofLeft, ofRight]

end Forms

def namedForm (parentheses : Nat) (operator : Operator) (first : Nat) (left right : Tree Unit) :
    List Source :=
  [.logical parentheses operator first left.unread right.unread]

def wrappedForm (parentheses : Nat) (operator : Operator) (first : Nat) (left right : Tree Unit) :
    List Source :=
  [.member (.logical parentheses operator first left.unread right.unread)]

theorem run_forms (fuel : Nat) (script : List Command) (parentheses : Nat) (operator : Operator)
    (first : Nat) (left right : Tree Unit) :
    runProgram fuel script (wrappedForm parentheses operator first left right) =
        runProgram fuel script (namedForm parentheses operator first left right) ∧
      (runProgram fuel script (namedForm parentheses operator first left right)).2.store.cut = false := by
  cases fuel with
  | zero => exact ⟨rfl, rfl⟩
  | succ fuel =>
    obtain ⟨same, -, cut⟩ := @Tree.evaluate_unread (Source.run fuel) fuel
      (.selection parentheses operator first left right) { script, store := {} } rfl
    simp only [Tree.unread, Source.evaluateTree] at same cut
    simp only [runProgram, Source.run, wrappedForm, namedForm, Source.evaluate, Source.evaluateStatements,
      same, true_and]
    generalize Source.select operator first _ _ = result at cut ⊢
    obtain ⟨outcome, state⟩ := result
    cases outcome with
    | value | abrupt | unfinished => exact cut

/-- In every run of a program whose declarations are sound that leaves none of them after a tree a
constant keeps, the points hit are those of the selections decided; and for one tree and one way its
leaves end, the form with named leaves and the form with wrapped ones hit the same. -/
theorem selections_recorded {fuel : Nat} {script : List Command} {program : List Source}
    (sound : Source.soundStatements false program)
    (uncut : (runProgram fuel script program).2.store.cut = false) :
    (runInstrumented fuel script program).1 = (runProgram fuel script program).1 ∧
      (runInstrumented fuel script program).2.store.hits.Perm
        (runProgram fuel script program).2.store.decided ∧
      ∀ fuel script parentheses operator first left right,
        (runInstrumented fuel script (namedForm parentheses operator first left right)).2.store.hits.Perm
          (runInstrumented fuel script (wrappedForm parentheses operator first left right)).2.store.hits := by
  refine ⟨(hits_perm_decided sound uncut).1, (hits_perm_decided sound uncut).2, ?_⟩
  intro fuel script parentheses operator first left right
  obtain ⟨same, whole⟩ := run_forms fuel script parentheses operator first left right
  have named := @hits_perm_decided fuel script (namedForm parentheses operator first left right)
    (by simp [namedForm, Source.soundStatements, Source.sound, soundTree_unread]) whole
  have wrapped := @hits_perm_decided fuel script (wrappedForm parentheses operator first left right)
    (by simp [wrappedForm, Source.soundStatements, Source.sound, soundTree_unread]) (same ▸ whole)
  rw [same] at wrapped
  exact named.2.trans wrapped.2.symm

/-- `const ok = a && b, f = function () { g(); };` -/
def movedRecord : List Source :=
  [.constant [.declarator (some 0) (.logical 0 .and 0 (.leaf (.other [])) (.leaf (.other []))),
    .declarator (some 1) (.function [] [.other []])]]

/-- `const ok = a && b, c = g();` -/
def lateRecord : List Source :=
  [.constant [.declarator (some 0) (.logical 0 .and 0 (.leaf (.other [])) (.leaf (.other []))),
    .declarator (some 1) (.other [])]]

/-- In order, and ended. -/
theorem selections_recorded_lateRecord :
    (runInstrumented 3 [.finish .truthy, .finish .truthy, .finish .falsy] lateRecord).2.store.hits.Perm [3] :=
  (@selections_recorded 3 [.finish .truthy, .finish .truthy, .finish .falsy] lateRecord (by decide)
    (by decide)).2.1

/-- The record moved into a function that is never called, or behind an initializer that throws, hits
nothing. -/
theorem not_selections_recorded :
    ¬ (runInstrumented 3 [.finish .truthy, .finish .truthy] movedRecord).2.store.hits.Perm
        (runProgram 3 [.finish .truthy, .finish .truthy] movedRecord).2.store.decided ∧
      ¬ (runInstrumented 3 [.finish .truthy, .finish .truthy, .abandon] lateRecord).2.store.hits.Perm
        (runProgram 3 [.finish .truthy, .finish .truthy, .abandon] lateRecord).2.store.decided := by
  decide

end Supercov.Js
