import Supercov.Js.Matched

/-!
# Trees about to be named

Which activation holds a frame, and what the site, the tables and the entries of a tree promise of each
leaf before its leaves are named.

A wrapped leaf hits ahead of the decisions its value makes; a named one owes its points to the leaf
evaluated next, or to the tree's end.
-/

namespace Supercov.Js

open Machine LogicalValueTransformer

/-! ### Frames in scope -/

def Stands (environment : Environment) (place : Option Nat) (declared : List Nat) (store : Code.Store) :
    Prop :=
  ∀ activation, place = some activation → activation < store.activations ∧
    ∃ temporaries scopes, environment.scopes = (activation, temporaries) :: scopes ∧
      declared ⊆ temporaries

section Stands

variable {environment other : Environment} {place : Option Nat} {activation frame : Nat}
  {declared fewer : List Nat} {store later : Code.Store}

theorem Stands.mono (stands : Stands environment place declared store) (within : fewer ⊆ declared)
    (grows : store.activations ≤ later.activations) (same : other.scopes = environment.scopes) :
    Stands other place fewer later := by
  intro activation here
  obtain ⟨begun, temporaries, scopes, eq, declares⟩ := stands activation here
  exact ⟨Nat.lt_of_lt_of_le begun grows, temporaries, scopes, same.trans eq,
    List.Subset.trans within declares⟩

theorem Stands.holder (stands : Stands environment (some activation) declared store)
    (member : frame ∈ declared) : environment.holder frame = some activation := by
  obtain ⟨-, temporaries, scopes, eq, within⟩ := stands activation rfl
  simp [Environment.holder, eq, within member]

theorem Stands.read (stands : Stands environment (some activation) declared store)
    (member : frame ∈ declared) : Code.read environment later frame = later.frames activation frame := by
  simp [Code.read, stands.holder member]

@[simp] theorem scopes_bind (name : Option Nat) (value : Value) (environment : Environment) :
    (environment.bind name value).scopes = environment.scopes := by
  cases name <;> rfl

end Stands

/-! ### Trees about to be named -/

theorem shape_root (tree : Tree Source) : shape [] tree [] = (tree.numbered 0, tree.steps []) := by
  simp [Tree.shape_eq]

def Tabled (tables : List SelectionTable) (naming : Naming) : Prop :=
  ∀ (leaf : Nat) (deciders : List (Nat × List Nat)), naming.before[leaf]? = some deciders → deciders.length > 1 →
    ∃ index table, naming.tree = some index ∧ tables[index]? = some table ∧
      table.choices[leaf]? = some (byLeaf deciders)

section NameTree

variable (parentheses : Nat) (operator : Operator) (first : Nat) (left right : Tree Source)
  (transformer : LogicalValueTransformer)

theorem before_nameTree :
    (nameTree parentheses operator first left right transformer).1.before =
      (((Tree.selection parentheses operator first left right).numbered 0).before
        (List.replicate (left.size + right.size) [])) := by
  simp only [nameTree, shape_root, Tree.length_steps, Tree.size]
  split <;> rfl

@[simp] theorem frame_nameTree :
    (nameTree parentheses operator first left right transformer).1.site.frame = transformer.names := by
  simp only [nameTree]
  split <;> rfl

@[simp] theorem names_nameTree :
    (nameTree parentheses operator first left right transformer).2.names = transformer.names + 1 := by
  simp only [nameTree]
  split <;> rfl

theorem mem_scopeDeclarations_nameTree :
    transformer.names ∈ (nameTree parentheses operator first left right transformer).2.scopeDeclarations := by
  simp only [nameTree]
  split <;> exact List.mem_append_right _ List.mem_cons_self

theorem entered_nameTree : (Tree.selection parentheses operator first left right).Entered
    (nameTree parentheses operator first left right transformer).1.before 0 := by
  rw [before_nameTree]
  exact Tree.entered_before _ 0 (by simp [Tree.size])

theorem first_nameTree :
    (nameTree parentheses operator first left right transformer).1.before.getD 0 [] = [] := by
  rw [before_nameTree, List.getD_eq_getElem?_getD, Tree.getElem?_before (.inl (Nat.le_refl _))]
  simp [List.getElem?_replicate]
  split <;> rfl

variable {parentheses operator first left right transformer} {tables : List SelectionTable}

theorem leaves_of_few (few : ¬(Tree.selection parentheses operator first left right).size > 2) :
    (∃ value, left = .leaf value) ∧ ∃ value, right = .leaf value := by
  have leftPositive := left.size_pos
  have rightPositive := right.size_pos
  have single : ∀ tree : Tree Source, tree.size ≤ 1 → ∃ value, tree = .leaf value := by
    intro tree small
    cases tree with
    | leaf value => exact ⟨value, rfl⟩
    | selection _ _ _ one other =>
      have onePositive := one.size_pos
      have otherPositive := other.size_pos
      simp only [Tree.size] at small
      omega
  simp only [Tree.size] at few
  exact ⟨single left (by omega), single right (by omega)⟩

theorem tabled_nameTree
    (placed : (nameTree parentheses operator first left right transformer).2.trees <+: tables) :
    Tabled tables (nameTree parentheses operator first left right transformer).1 := by
  intro leaf deciders entry several
  by_cases more : (Tree.selection parentheses operator first left right).size > 2
  · simp only [nameTree, shape_root, Tree.length_steps, if_pos more] at placed entry ⊢
    obtain ⟨rest, rfl⟩ := placed
    refine ⟨_, _, rfl, by simp; rfl, ?_⟩
    rw [List.getElem?_map, entry]
    rfl
  · obtain ⟨⟨_, rfl⟩, _, rfl⟩ := leaves_of_few more
    rcases leaf with _ | _ | leaf
    iterate 2
      · obtain rfl := Option.some.inj entry
        simp [shape, SelectionShape.deciders] at several
    · simp [before_nameTree, Tree.numbered, SelectionShape.before, Tree.size] at entry

theorem record_nameTree
    (placed : (nameTree parentheses operator first left right transformer).2.trees <+: tables)
    {value : Value} {decider : Nat} {points : List Nat}
    (decides : (decider, points) ∈
      ((Tree.selection parentheses operator first left right).numbered 0).decidersOf value) :
    (nameTree parentheses operator first left right transformer).1.site.record tables value
      (some decider) = some points := by
  by_cases more : (Tree.selection parentheses operator first left right).size > 2
  · have path : _ = some (points ++ selectPathV2 value []) := Tree.selectPathV2_steps decides
    simp only [nameTree, shape_root, Tree.length_steps, if_pos more] at placed ⊢
    obtain ⟨rest, rfl⟩ := placed
    simpa [SelectionSite.record, selectEndV2, selectPathV2, Option.map_eq_bind, Function.comp_def]
      using path
  · obtain ⟨⟨_, rfl⟩, _, rfl⟩ := leaves_of_few more
    rcases SelectionShape.mem_deciders_selection.mp decides with
      ⟨-, below, member, same⟩ | ⟨below, member, same⟩ <;>
    · obtain rfl := List.mem_singleton.mp member
      obtain ⟨rfl, rfl⟩ := Prod.mk.inj same
      cases value <;> simp [nameTree, shape, SelectionSite.record, selectEnd2V2, Value.isTruthy, Tree.size]

end NameTree

open Machine LogicalValueTransformer

/-- What was visited runs as its source does, with the same points owed and ahead. -/
def Follows {γ : Type} (tables : List SelectionTable) (place : Option Nat) (sound listless : Bool)
    (visited : LogicalValueTransformer → γ × LogicalValueTransformer)
    (left : Source.State → Outcome × Source.State)
    (right : Environment → γ → Code.State → Outcome × Code.State) : Prop :=
  ∀ transformer environment owed ahead state code,
    sound → (transformer.afterDeclaration = [] ∨ listless) → (visited transformer).2.trees <+: tables →
    Stands environment place (visited transformer).2.scopeDeclarations code.store →
    Matches tables owed ahead state code →
    Meets place transformer.names (fun _ => Matches tables owed ahead) state code (left state)
      (right environment (visited transformer).1 code)

section

variable (tables : List SelectionTable) (again : Bool → Source → Source.State → Outcome × Source.State)
  (againCode : Environment → Code → Code.State → Outcome × Code.State) (fuel : Nat)

/-- The evaluators one level down, which operands and calls go to. -/
def Again : Prop := ∀ place source,
  Follows tables place (source.sound place.isNone false) source.listless
    (visit place.isNone false source) (again place.isNone source) againCode

/-- A wrapped subtree's value has its leaf hit what it decides above the subtree. -/
def WrappedPost (path owed ahead : List Nat) : Outcome → Source.State → Code.State → Prop
  | .value value, state, code => Matches tables owed (selectPathV2 value path ++ ahead) state code
  | _, state, code => Matches tables owed ahead state code

def WrappedTree (tree : Tree Source) : Prop :=
  ∀ path transformer environment owed ahead state code,
    Source.soundTree true tree → (transformer.afterDeclaration = [] ∨ Source.listlessTree tree) →
    (instrumentOperand path tree transformer).2.trees <+: tables →
    Matches tables owed ahead state code →
    Meets none transformer.names (WrappedPost tables path owed ahead) state code
      (Source.evaluateTree again fuel true tree state)
      (Code.evaluate tables againCode fuel environment (instrumentOperand path tree transformer).1 code)

def NamedPost (naming : Naming) (activation : Nat) (shape : SelectionShape) (owed ahead : List Nat) :
    Outcome → Source.State → Code.State → Prop
  | .value value, state, code => ∃ leaf points, (leaf, points) ∈ shape.decidersOf value ∧
    code.store.frames activation naming.site.frame = some leaf ∧
    Matches tables (points ++ owed) ahead state code
  | _, state, code => Matches tables owed ahead state code

/-- The points owed for the leaf before are those the subtree's first leaf records. -/
def NamedTree (tree : Tree Source) : Prop :=
  ∀ naming start transformer environment activation owed ahead points state code,
    Source.soundTree false tree → (transformer.afterDeclaration = [] ∨ Source.listlessTree tree) →
    (nameLeaves naming tree start transformer).2.2.trees <+: tables →
    Stands environment (some activation) (nameLeaves naming tree start transformer).2.2.scopeDeclarations
      code.store →
    naming.site.frame ∈ transformer.scopeDeclarations → naming.site.frame < transformer.names →
    tree.Entered naming.before start → Tabled tables naming →
    ((recordedBefore naming.site.frame naming.tree start (naming.before.getD start [])).map
      (Recorded.points tables (Code.read environment code.store))).getD [] = points →
    Matches tables (points ++ owed) ahead state code →
    Meets (some activation) naming.site.frame
      (NamedPost tables naming activation (tree.numbered start) owed ahead) state code
      (Source.evaluateTree again fuel false tree state)
      (Code.evaluate tables againCode fuel environment (nameLeaves naming tree start transformer).1 code)

variable {tables again againCode fuel}

/-! ### Wrapped trees -/

theorem evaluate_wrapped (path : List Nat) (environment : Environment) (value : Code)
    (code : Code.State) :
    Code.evaluate tables againCode fuel environment (wrapped path value) code =
      andThen (Code.evaluate tables againCode fuel environment value code) fun value code =>
        (.value value, code.update (Code.hit (selectPathV2 value path))) := by
  have halved : ∀ step : Nat, (step - step % 4) / 4 = step / 4 := by omega
  unfold wrapped
  split
  · next step =>
    split
    · next right =>
      simp [Code.evaluate, selectRightV2, selectPathV2, right, ← halved step]
    · next left =>
      simp only [Code.evaluate, selectShortV2, selectPathV2, if_neg left, halved]
  · rfl

theorem WrappedTree.leaf {value : Source}
    (follows : Follows tables none (value.sound true false) value.listless (visit true false value)
      (Source.evaluate again fuel true false value) (Code.evaluate tables againCode fuel)) :
    WrappedTree tables again againCode fuel (.leaf value) := by
  intro path transformer environment owed ahead state code sound clear tabled matched
  rw [instrumentOperand] at tabled ⊢
  rw [evaluate_wrapped, Source.evaluateTree]
  have meets := follows transformer environment owed ahead state code sound clear tabled nofun matched
  exact meets.andThenCode
    (fun value state' code' holds => ⟨rfl, ⟨Nat.le_refl _, fun _ _ _ _ => rfl⟩, id, holds.hit _⟩)
    fun outcome state code left holds => by
      cases outcome with
      | value value => exact (left value rfl).elim
      | abrupt | unfinished => exact holds

theorem WrappedTree.selection {left right : Tree Source} (ofLeft : WrappedTree tables again againCode fuel left)
    (ofRight : WrappedTree tables again againCode fuel right) (parentheses : Nat) (operator : Operator)
    (first : Nat) :
    WrappedTree tables again againCode fuel (.selection parentheses operator first left right) := by
  intro path transformer environment owed ahead state code sound clear tabled matched
  obtain ⟨soundLeft, soundRight⟩ := Bool.and_eq_true_iff.mp sound
  have clearLeft := clear.imp_right fun listless => (Bool.and_eq_true_iff.mp listless).1
  rw [instrumentOperand] at tabled ⊢
  rw [Source.evaluateTree, Code.evaluate]
  have extended := extends_instrumentOperand ((first * 4 + operator.kind) :: path) left transformer
  have handed := afterDeclaration_instrumentOperand ((first * 4 + operator.kind) :: path) left transformer
    clearLeft
  have meets := ofLeft ((first * 4 + operator.kind) :: path) transformer environment owed ahead state code
    soundLeft clearLeft ((extends_instrumentOperand _ right _).trees.trans tabled) matched
  refine meets.select (WrappedPost tables ((first * 4 + 3) :: path) owed ahead)
    (fun value state code short holds => ?_) (fun value state' code' goes holds kept => ?_)
    (fun value state code holds => ?_) (fun outcome state code left holds => ?_)
  · simp only [WrappedPost, selectPathV2_left short] at holds ⊢
    exact (holds.decide _).congr fun point => by simp [List.count_cons]; omega
  · have path := selectPathV2_goes goes first path
    simp only [WrappedPost, path] at holds
    exact (ofRight _ _ environment owed ahead state' code' soundRight
      (handed ▸ clear.imp_right fun listless => (Bool.and_eq_true_iff.mp listless).2) tabled holds).fewer
      extended.names
  · simp only [WrappedPost, selectPathV2_right] at holds ⊢
    exact (holds.decide _).congr fun point => by simp [List.count_cons]; omega
  · cases outcome with
    | value value => exact (left value rfl).elim
    | abrupt | unfinished => exact holds.elim id id

/-! ### Named trees -/

theorem NamedPost.of_abrupt {naming : Naming} {activation : Nat} {shape other : SelectionShape}
    {owed ahead : List Nat} {outcome : Outcome} {state : Source.State} {code : Code.State}
    (left : ∀ value, outcome ≠ .value value)
    (holds : NamedPost tables naming activation shape owed ahead outcome state code) :
    NamedPost tables naming activation other owed ahead outcome state code := by
  cases outcome with
  | value value => exact (left value rfl).elim
  | abrupt | unfinished => exact holds

theorem NamedTree.leaf {value : Source}
    (follows : ∀ activation, Follows tables (some activation) (value.sound false false) value.listless
      (visit false false value) (Source.evaluate again fuel false false value)
      (Code.evaluate tables againCode fuel)) :
    NamedTree tables again againCode fuel (.leaf value) := by
  intro naming start transformer environment activation owed ahead points state code sound clear tabled
    stands declared older entered tabledNaming records matched
  rw [nameLeaves] at tabled stands ⊢
  have scope := (extends_visit false false value transformer).declarations.subset declared
  rw [Source.evaluateTree, Code.evaluate, records]
  simp only [stands.holder scope]
  have meets := follows activation transformer environment owed ahead state
    ((code.update (Code.hit points)).update (Code.assign activation naming.site.frame start)) sound clear
    tabled (stands.mono (List.Subset.refl _) (Nat.le_refl _) rfl) (matched.pay.assign ..)
  refine ⟨meets.same, ?_, meets.cut, ?_⟩
  · refine ⟨meets.kept.activations, fun holder frame begun below => ?_⟩
    refine (meets.kept.frames holder frame begun fun same =>
      Nat.lt_trans (below same) older).trans (if_neg ?_)
    rintro ⟨rfl, rfl⟩
    exact Nat.lt_irrefl _ (below rfl)
  · have named := meets.kept.frames activation naming.site.frame (stands activation rfl).1 fun _ => older
    have post := meets.post
    cases ended : (Source.evaluate again fuel false false value state).1 with
    | value result =>
      exact ⟨start, [], List.mem_cons_self, named.trans (if_pos ⟨rfl, rfl⟩), post⟩
    | abrupt | unfinished => exact post

theorem nameLeaves_start (naming : Naming) (tree : Tree Source) (start : Nat)
    (transformer : LogicalValueTransformer) :
    (nameLeaves naming tree start transformer).2.1 = start + tree.size := by
  induction tree generalizing start transformer with
  | leaf value => rw [nameLeaves]; rfl
  | selection parentheses operator first left right ofLeft ofRight =>
    rw [nameLeaves]
    exact (ofRight _ _).trans (by rw [ofLeft, Nat.add_assoc]; rfl)

theorem NamedTree.selection {left right : Tree Source} (ofLeft : NamedTree tables again againCode fuel left)
    (ofRight : NamedTree tables again againCode fuel right) (parentheses : Nat) (operator : Operator)
    (first : Nat) :
    NamedTree tables again againCode fuel (.selection parentheses operator first left right) := by
  intro naming start transformer environment activation owed ahead points state code sound clear tabled
    stands declared older entered tabledNaming records matched
  obtain ⟨soundLeft, soundRight⟩ := Bool.and_eq_true_iff.mp sound
  obtain ⟨entry, enteredLeft, enteredRight⟩ := entered
  have clearLeft := clear.imp_right fun listless => (Bool.and_eq_true_iff.mp listless).1
  simp only [nameLeaves, nameLeaves_start] at tabled stands ⊢
  rw [Source.evaluateTree, Code.evaluate]
  have extended := extends_nameLeaves naming left start transformer
  have extendedRight := extends_nameLeaves naming right (start + left.size)
    (nameLeaves naming left start transformer).2.2
  have handed := afterDeclaration_nameLeaves naming left start transformer clearLeft
  have meets := ofLeft naming start transformer environment activation owed ahead points state code
    soundLeft clearLeft (extendedRight.trees.trans tabled)
    (stands.mono extendedRight.declarations.subset (Nat.le_refl _) rfl) declared older enteredLeft
    tabledNaming records matched
  refine meets.select
    (NamedPost tables naming activation (right.numbered (start + left.size)) owed ahead)
    (fun value state code short holds => ?_) (fun value state' code' goes holds kept => ?_)
    (fun value state code holds => ?_) (fun outcome state code left holds => ?_)
  · obtain ⟨leaf, points, decides, named, holds⟩ := holds
    exact ⟨leaf, _, SelectionShape.mem_decidersOf_short short decides, named,
      (holds.decide _).congr fun point => by simp [List.count_cons]; omega⟩
  · obtain ⟨leaf, points, decides, named, holds⟩ := holds
    have standsLater := stands.mono (List.Subset.refl _) kept.activations rfl
    refine ofRight naming _ _ environment activation owed ahead points state' code' soundRight
      (handed ▸ clear.imp_right fun listless => (Bool.and_eq_true_iff.mp listless).2) tabled standsLater
      (extended.declarations.subset declared) (Nat.lt_of_lt_of_le older extended.names) enteredRight
      tabledNaming ?_ holds
    rw [List.getD_eq_getElem?_getD, entry, Option.getD_some]
    refine points_recordedBefore Tree.deciders_increasing (tabledNaming _ _ entry) ?_
      (SelectionShape.mem_deciders_before goes decides)
    rw [stands.read (extendedRight.declarations.subset (extended.declarations.subset declared)), named]
  · obtain ⟨leaf, points, decides, named, holds⟩ := holds
    exact ⟨leaf, _, SelectionShape.mem_decidersOf_right decides, named,
      (holds.decide _).congr fun point => by simp [List.count_cons]; omega⟩
  · exact holds.elim (.of_abrupt left) (.of_abrupt left)

theorem declared_named (parentheses : Nat) (operator : Operator) (first : Nat) (left right : Tree Source)
    (transformer : LogicalValueTransformer) :
    transformer.names ∈
      (nameKept parentheses operator first left right transformer).2.2.scopeDeclarations :=
  (extends_nameKept ..).declarations.subset (mem_scopeDeclarations_nameTree ..)

theorem meets_named (parentheses : Nat) (operator : Operator) (first : Nat) {left right : Tree Source}
    {activation : Nat} (ofLeft : NamedTree tables again againCode fuel left)
    (ofRight : NamedTree tables again againCode fuel right) {transformer : LogicalValueTransformer}
    {environment : Environment} {owed ahead : List Nat} {state : Source.State} {code : Code.State}
    (sound : Source.soundTree false (.selection parentheses operator first left right))
    (clear : transformer.afterDeclaration = [] ∨
      Source.listlessTree (.selection parentheses operator first left right))
    (tabled : (nameKept parentheses operator first left right transformer).2.2.trees <+: tables)
    (stands : Stands environment (some activation)
      (nameKept parentheses operator first left right transformer).2.2.scopeDeclarations code.store)
    (matched : Matches tables owed ahead state code) :
    Meets (some activation) transformer.names
      (fun outcome state code => match outcome with
        | .value value => ∃ leaf points,
          (nameTree parentheses operator first left right transformer).1.site.record tables value
            (some leaf) = some points ∧
          code.store.frames activation transformer.names = some leaf ∧
          Matches tables (points ++ owed) ahead state code
        | _ => Matches tables owed ahead state code)
      state code
      (Source.select operator first (Source.evaluateTree again fuel false left state)
        (Source.evaluateTree again fuel false right))
      (Code.evaluate tables againCode fuel environment
        (nameKept parentheses operator first left right transformer).1 code) := by
  have placed := (extends_nameKept ..).trees.trans tabled
  have meets := (ofLeft.selection ofRight parentheses operator first)
    (nameTree parentheses operator first left right transformer).1 0
    (nameTree parentheses operator first left right transformer).2 environment activation owed ahead []
    state code sound (by rwa [afterDeclaration_nameTree]) tabled stands
    (by rw [frame_nameTree]; exact mem_scopeDeclarations_nameTree ..)
    (by rw [frame_nameTree, names_nameTree]; exact Nat.lt_succ_self _)
    (entered_nameTree ..) (tabled_nameTree placed) (by rw [first_nameTree]; rfl) matched
  rw [frame_nameTree] at meets
  refine meets.imp fun outcome state code holds => ?_
  cases outcome with
  | value value =>
    obtain ⟨leaf, points, decides, held, matched⟩ := holds
    rw [frame_nameTree] at held
    exact ⟨leaf, points, record_nameTree placed decides, held, matched⟩
  | abrupt | unfinished => exact holds

end

end Supercov.Js
