import Supercov.Js.Execution

/-!
# Declarations in order

Where the record of a constant's tree stays behind its declaration: no list of statements stands in a
later initializer. And what the visitors do to the transformer: names, temporaries and tables only grow,
and what is to be recorded after a declaration is handed on untouched.
-/

namespace Supercov.Js

namespace Source

mutual

/-- No list with a statement in it stands anywhere inside. -/
def listless : Source → Bool
  | logical _ _ _ left right => listlessTree left && listlessTree right
  | function parameters body => listlessAll parameters && body.isEmpty
  | statements list => list.isEmpty
  | constant declarators => listlessAll declarators
  | declarator _ initializer => initializer.listless
  | member inner => inner.listless
  | other parts => listlessAll parts

def listlessTree : Tree Source → Bool
  | .leaf value => value.listless
  | .selection _ _ _ left right => listlessTree left && listlessTree right

def listlessAll : List Source → Bool
  | [] => true
  | part :: parts => part.listless && listlessAll parts

end

def isDeclarator : Source → Bool
  | declarator _ _ => true
  | _ => false

def boundName : Source → Option Nat
  | declarator name _ => name
  | _ => none

/-- No list of statements stands behind a tree that a constant keeps. -/
def inOrder (frameless aliasing : Bool) : List Source → Bool
  | [] => true
  | binding :: declarators =>
    (!binding.kept frameless aliasing || listlessAll declarators) && inOrder frameless aliasing declarators

/-- As a parser accepts it, of declarators with distinct names, and in order. -/
def soundDeclaration (frameless aliasing : Bool) (declarators : List Source) : Bool :=
  declarators.all isDeclarator && Decidable.decide (declarators.filterMap boundName).Nodup &&
    inOrder frameless aliasing declarators

mutual

/-- Every declaration inside is sound. -/
def sound (frameless aliasing : Bool) : Source → Bool
  | logical _ _ _ left right => soundTree frameless left && soundTree frameless right
  | function parameters body => soundAll true false parameters && soundStatements false body
  | statements list => soundStatements frameless list
  | constant declarators =>
    soundDeclaration frameless aliasing declarators && soundAll frameless aliasing declarators
  | declarator _ initializer => initializer.sound frameless false
  | member inner => inner.sound true false
  | other parts => soundAll frameless false parts

def soundTree (frameless : Bool) : Tree Source → Bool
  | .leaf value => value.sound frameless false
  | .selection _ _ _ left right => soundTree frameless left && soundTree frameless right

def soundAll (frameless aliasing : Bool) : List Source → Bool
  | [] => true
  | part :: parts => part.sound frameless aliasing && soundAll frameless aliasing parts

def soundStatements (frameless : Bool) : List Source → Bool
  | [] => true
  | statement :: list =>
    statement.sound frameless statement.isConstant && soundStatements frameless list

end

end Source

namespace LogicalValueTransformer

/-- Names, temporaries and tables are added only. -/
structure Extends (one other : LogicalValueTransformer) : Prop where
  names : one.names ≤ other.names
  declarations : one.scopeDeclarations <+: other.scopeDeclarations
  trees : one.trees <+: other.trees

theorem Extends.refl (transformer : LogicalValueTransformer) : Extends transformer transformer :=
  ⟨Nat.le_refl _, List.prefix_rfl, List.prefix_rfl⟩

theorem Extends.trans {one two three : LogicalValueTransformer} (first : Extends one two)
    (second : Extends two three) : Extends one three :=
  ⟨Nat.le_trans first.names second.names, first.declarations.trans second.declarations,
    first.trees.trans second.trees⟩

theorem Extends.handed {one two : LogicalValueTransformer} (extended : Extends one two)
    (list : List (SelectionSite × Nat)) : Extends one { two with afterDeclaration := list } :=
  ⟨extended.names, extended.declarations, extended.trees⟩

theorem extends_nameTree (parentheses : Nat) (operator : Operator) (first : Nat)
    (left right : Tree Source) (transformer : LogicalValueTransformer) :
    Extends transformer (nameTree parentheses operator first left right transformer).2 := by
  simp only [nameTree]
  split
  · exact ⟨Nat.le_succ _, List.prefix_append _ _, List.prefix_append _ _⟩
  · exact ⟨Nat.le_succ _, List.prefix_append _ _, List.prefix_rfl⟩

@[simp] theorem afterDeclaration_nameTree (parentheses : Nat) (operator : Operator) (first : Nat)
    (left right : Tree Source) (transformer : LogicalValueTransformer) :
    (nameTree parentheses operator first left right transformer).2.afterDeclaration =
      transformer.afterDeclaration := by
  simp only [nameTree]
  split <;> rfl

end LogicalValueTransformer

open LogicalValueTransformer

theorem visit_declarator {frameless aliasing : Bool} {name : Option Nat} {initializer : Source}
    (plain : (Source.declarator name initializer).kept frameless aliasing = false)
    (transformer : LogicalValueTransformer) :
    visit frameless aliasing (.declarator name initializer) transformer =
      (.declarator name (visit frameless false initializer transformer).1,
        (visit frameless false initializer transformer).2) := by
  cases name with
  | none => conv_lhs => rw [visit.eq_def]
  | some name =>
    cases initializer with
    | logical parentheses operator first left right =>
      have unkept : ¬(aliasing && !frameless) = true := by simpa [Source.kept] using plain
      conv_lhs => rw [visit.eq_def]
      exact if_neg unkept
    | function | statements | constant | declarator | member | other =>
      conv_lhs => rw [visit.eq_def]

def nameKept (parentheses : Nat) (operator : Operator) (first : Nat) (left right : Tree Source)
    (transformer : LogicalValueTransformer) : Code × Nat × LogicalValueTransformer :=
  nameLeaves (nameTree parentheses operator first left right transformer).1
    (.selection parentheses operator first left right) 0
    (nameTree parentheses operator first left right transformer).2

theorem visit_kept (name parentheses : Nat) (operator : Operator) (first : Nat)
    (left right : Tree Source) (transformer : LogicalValueTransformer) :
    visit false true (.declarator (some name) (.logical parentheses operator first left right)) transformer =
      (.declarator (some name) (nameKept parentheses operator first left right transformer).1,
        { (nameKept parentheses operator first left right transformer).2.2 with
          afterDeclaration :=
            (nameKept parentheses operator first left right transformer).2.2.afterDeclaration ++
              [((nameTree parentheses operator first left right transformer).1.site, name)] }) := by
  rw [visit]
  rfl

mutual

theorem extends_visit (frameless aliasing : Bool) (source : Source)
    (transformer : LogicalValueTransformer) :
    Extends transformer (visit frameless aliasing source transformer).2 := by
  match source with
  | .logical parentheses operator first left right =>
    rw [visit]
    split
    · exact (extends_instrumentOperand _ left _).trans (extends_instrumentOperand _ right _)
    · exact (extends_nameTree ..).trans ((extends_nameLeaves _ left _ _).trans
        (extends_nameLeaves _ right _ _))
  | .function parameters body =>
    rw [visit]
    have ofParameters := extends_visitAll true false parameters transformer
    have ofBody := extends_visitStatements false body
      { (visitAll true false parameters transformer).2 with scopeDeclarations := [] }
    exact ⟨Nat.le_trans ofParameters.names ofBody.names, ofParameters.declarations,
      ofParameters.trees.trans ofBody.trees⟩
  | .statements list =>
    rw [visit]
    exact extends_visitStatements frameless list transformer
  | .constant declarators =>
    rw [visit]
    exact extends_visitAll frameless aliasing declarators transformer
  | .declarator (some name) (.logical parentheses operator first left right) =>
    rw [visit]
    split
    · exact ((extends_nameTree ..).trans ((extends_nameLeaves _ left _ _).trans
        (extends_nameLeaves _ right _ _))).handed _
    · exact extends_visit frameless false _ transformer
  | .declarator none initializer
  | .declarator (some name) (.function parameters body) | .declarator (some name) (.statements list)
  | .declarator (some name) (.constant declarators) | .declarator (some name) (.declarator inner initializer)
  | .declarator (some name) (.member inner) | .declarator (some name) (.other parts) =>
    rw [visit]
    · exact extends_visit frameless false _ transformer
    · simp
  | .member inner =>
    rw [visit]
    exact extends_visit true false inner transformer
  | .other parts =>
    rw [visit]
    exact extends_visitAll frameless false parts transformer

theorem extends_visitAll (frameless aliasing : Bool) (parts : List Source)
    (transformer : LogicalValueTransformer) :
    Extends transformer (visitAll frameless aliasing parts transformer).2 := by
  match parts with
  | [] => exact .refl _
  | part :: parts =>
    rw [visitAll]
    exact (extends_visit frameless aliasing part _).trans (extends_visitAll frameless aliasing parts _)

theorem extends_visitStatements (frameless : Bool) (list : List Source)
    (transformer : LogicalValueTransformer) :
    Extends transformer (visitStatements frameless list transformer).2 := by
  match list with
  | [] => exact .refl _
  | statement :: list =>
    rw [visitStatements]
    have ofStatement := extends_visit frameless statement.isConstant statement transformer
    have ofRest := extends_visitStatements frameless list
      { (visit frameless statement.isConstant statement transformer).2 with afterDeclaration := [] }
    exact ofStatement.trans ⟨ofRest.names, ofRest.declarations, ofRest.trees⟩

theorem extends_instrumentOperand (path : List Nat) (tree : Tree Source)
    (transformer : LogicalValueTransformer) :
    Extends transformer (instrumentOperand path tree transformer).2 := by
  match tree with
  | .leaf value =>
    rw [instrumentOperand]
    exact extends_visit true false value transformer
  | .selection parentheses operator first left right =>
    rw [instrumentOperand]
    exact (extends_instrumentOperand _ left _).trans (extends_instrumentOperand _ right _)

theorem extends_nameLeaves (naming : Naming) (tree : Tree Source) (leaf : Nat)
    (transformer : LogicalValueTransformer) :
    Extends transformer (nameLeaves naming tree leaf transformer).2.2 := by
  match tree with
  | .leaf value =>
    rw [nameLeaves]
    exact extends_visit false false value transformer
  | .selection parentheses operator first left right =>
    rw [nameLeaves]
    exact (extends_nameLeaves naming left _ _).trans (extends_nameLeaves naming right _ _)

end

theorem extends_nameKept (parentheses : Nat) (operator : Operator) (first : Nat)
    (left right : Tree Source) (transformer : LogicalValueTransformer) :
    Extends (nameTree parentheses operator first left right transformer).2
      (nameKept parentheses operator first left right transformer).2.2 :=
  extends_nameLeaves _ (.selection parentheses operator first left right) 0 _

/-! ### What is handed on -/

mutual

theorem afterDeclaration_visit (frameless : Bool) (source : Source)
    (transformer : LogicalValueTransformer)
    (clear : transformer.afterDeclaration = [] ∨ source.listless) :
    (visit frameless false source transformer).2.afterDeclaration = transformer.afterDeclaration := by
  match source with
  | .logical parentheses operator first left right =>
    have clearLeft : transformer.afterDeclaration = [] ∨ Source.listlessTree left :=
      clear.imp_right fun listless => (Bool.and_eq_true_iff.mp listless).1
    have clearRight : transformer.afterDeclaration = [] ∨ Source.listlessTree right :=
      clear.imp_right fun listless => (Bool.and_eq_true_iff.mp listless).2
    rw [visit]
    split
    · have ofLeft := afterDeclaration_instrumentOperand [first * 4 + operator.kind] left _ clearLeft
      exact (afterDeclaration_instrumentOperand _ right _ (by rwa [ofLeft])).trans ofLeft
    · have named := afterDeclaration_nameTree parentheses operator first left right transformer
      have ofLeft := (afterDeclaration_nameLeaves
        (nameTree parentheses operator first left right transformer).1 left 0
        (nameTree parentheses operator first left right transformer).2 (by rwa [named])).trans named
      exact (afterDeclaration_nameLeaves _ right _ _ (by rwa [ofLeft])).trans ofLeft
  | .function parameters body =>
    have clearParameters : transformer.afterDeclaration = [] ∨ Source.listlessAll parameters :=
      clear.imp_right fun listless => (Bool.and_eq_true_iff.mp listless).1
    have clearBody : transformer.afterDeclaration = [] ∨ body = [] :=
      clear.imp_right fun listless => List.isEmpty_iff.mp (Bool.and_eq_true_iff.mp listless).2
    have ofParameters := afterDeclaration_visitAll true parameters transformer clearParameters
    rw [visit]
    exact (afterDeclaration_visitStatements false body _ (by rwa [ofParameters])).trans ofParameters
  | .statements list =>
    rw [visit]
    exact afterDeclaration_visitStatements frameless list transformer
      (clear.imp_right List.isEmpty_iff.mp)
  | .constant declarators =>
    rw [visit]
    exact afterDeclaration_visitAll frameless declarators transformer clear
  | .declarator (some name) (.logical parentheses operator first left right) =>
    rw [visit]
    exact afterDeclaration_visit frameless _ transformer clear
  | .declarator none initializer
  | .declarator (some name) (.function parameters body) | .declarator (some name) (.statements list)
  | .declarator (some name) (.constant declarators) | .declarator (some name) (.declarator inner initializer)
  | .declarator (some name) (.member inner) | .declarator (some name) (.other parts) =>
    rw [visit]
    · exact afterDeclaration_visit frameless _ transformer clear
    · simp
  | .member inner =>
    rw [visit]
    exact afterDeclaration_visit true inner transformer clear
  | .other parts =>
    rw [visit]
    exact afterDeclaration_visitAll frameless parts transformer clear

theorem afterDeclaration_visitAll (frameless : Bool) (parts : List Source)
    (transformer : LogicalValueTransformer)
    (clear : transformer.afterDeclaration = [] ∨ Source.listlessAll parts) :
    (visitAll frameless false parts transformer).2.afterDeclaration = transformer.afterDeclaration := by
  match parts with
  | [] => rfl
  | part :: parts =>
    have ofPart := afterDeclaration_visit frameless part transformer
      (clear.imp_right fun listless => (Bool.and_eq_true_iff.mp listless).1)
    rw [visitAll]
    refine (afterDeclaration_visitAll frameless parts _ ?_).trans ofPart
    rw [ofPart]
    exact clear.imp_right fun listless => (Bool.and_eq_true_iff.mp listless).2

theorem afterDeclaration_visitStatements (frameless : Bool) (list : List Source)
    (transformer : LogicalValueTransformer) (clear : transformer.afterDeclaration = [] ∨ list = []) :
    (visitStatements frameless list transformer).2.afterDeclaration = transformer.afterDeclaration := by
  match list with
  | [] => rfl
  | statement :: list =>
    obtain clear | empty := clear
    · rw [visitStatements, clear]
      exact afterDeclaration_visitStatements frameless list _ (.inl rfl)
    · cases empty

theorem afterDeclaration_instrumentOperand (path : List Nat) (tree : Tree Source)
    (transformer : LogicalValueTransformer)
    (clear : transformer.afterDeclaration = [] ∨ Source.listlessTree tree) :
    (instrumentOperand path tree transformer).2.afterDeclaration = transformer.afterDeclaration := by
  match tree with
  | .leaf value =>
    rw [instrumentOperand]
    exact afterDeclaration_visit true value transformer clear
  | .selection parentheses operator first left right =>
    have ofLeft := afterDeclaration_instrumentOperand ((first * 4 + operator.kind) :: path) left
      transformer (clear.imp_right fun listless => (Bool.and_eq_true_iff.mp listless).1)
    rw [instrumentOperand]
    refine (afterDeclaration_instrumentOperand _ right _ ?_).trans ofLeft
    rw [ofLeft]
    exact clear.imp_right fun listless => (Bool.and_eq_true_iff.mp listless).2

theorem afterDeclaration_nameLeaves (naming : Naming) (tree : Tree Source) (leaf : Nat)
    (transformer : LogicalValueTransformer)
    (clear : transformer.afterDeclaration = [] ∨ Source.listlessTree tree) :
    (nameLeaves naming tree leaf transformer).2.2.afterDeclaration = transformer.afterDeclaration := by
  match tree with
  | .leaf value =>
    rw [nameLeaves]
    exact afterDeclaration_visit false value transformer clear
  | .selection parentheses operator first left right =>
    have ofLeft := afterDeclaration_nameLeaves naming left leaf transformer
      (clear.imp_right fun listless => (Bool.and_eq_true_iff.mp listless).1)
    rw [nameLeaves]
    refine (afterDeclaration_nameLeaves naming right _ _ ?_).trans ofLeft
    rw [ofLeft]
    exact clear.imp_right fun listless => (Bool.and_eq_true_iff.mp listless).2

end

theorem afterDeclaration_nameKept (parentheses : Nat) (operator : Operator) (first : Nat)
    (left right : Tree Source) (transformer : LogicalValueTransformer)
    (clear : transformer.afterDeclaration = [] ∨
      Source.listlessTree (.selection parentheses operator first left right)) :
    (nameKept parentheses operator first left right transformer).2.2.afterDeclaration =
      transformer.afterDeclaration :=
  (afterDeclaration_nameLeaves _ (.selection parentheses operator first left right) 0 _
    (by rwa [afterDeclaration_nameTree])).trans (afterDeclaration_nameTree ..)

end Supercov.Js
