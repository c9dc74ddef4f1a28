import Supercov.Js.Selections

/-!
# The value tree transformer

A program as the transformer reads it, the program it leaves, and its visitors: they wrap the leaves of
a tree where no frame can be declared, name them elsewhere, and record a constant's tree in a statement
after its declaration.
-/

namespace Supercov.Js

/-- A program's syntax, up to what the transformer tells apart. A selection is one used for its value; an
instance member's initializer is a function of one parameter's default and no body; and whatever a
parser calls an operand of a tree, its own parentheses included, is one leaf. -/
inductive Source where
  | logical (parentheses : Nat) (operator : Operator) (first : Nat) (left right : Tree Source)
  /-- The defaults of its parameters and its body. -/
  | function (parameters body : List Source)
  /-- A list of statements run in place: a block's, a `case`'s, a static block's. -/
  | statements (list : List Source)
  /-- A `const` declaration, of declarators. -/
  | constant (declarators : List Source)
  /-- The name it binds, unless it is a pattern, and its initializer. -/
  | declarator (name : Option Nat) (initializer : Source)
  /-- A class member's key or the initializer of a static one. -/
  | member (inner : Source)
  | other (parts : List Source)

/-- What the transformer leaves: the operators and syntax of the source, calls of the helpers around
values, and named leaves. -/
inductive Code where
  | logical (parentheses : Nat) (operator : Operator) (left right : Code)
  | selectShortV2 (first : Nat) (value : Code) (kind : Nat)
  | selectRightV2 (first : Nat) (value : Code)
  | selectPathV2 (value : Code) (steps : List Nat)
  /-- `(recorded, frame = leaf, value)`. -/
  | named (recorded : Option Recorded) (frame leaf : Nat) (value : Code)
  /-- The call around a tree that records its value. -/
  | recorded (site : SelectionSite) (value : Code)
  /-- The statement that records the value a constant keeps. -/
  | recordConstant (site : SelectionSite) (name : Nat)
  /-- A function with the temporaries its body declares. -/
  | function (parameters : List Code) (temporaries : List Nat) (body : List Code)
  | statements (list : List Code)
  | constant (declarators : List Code)
  | declarator (name : Option Nat) (initializer : Code)
  | other (parts : List Code)

/-- The names given so far, those the innermost scope declares, the tables, and what records the
constants of the declaration just visited. -/
structure LogicalValueTransformer where
  names : Nat := 0
  scopeDeclarations : List Nat := []
  trees : List SelectionTable := []
  afterDeclaration : List (SelectionSite × Nat) := []

structure Naming where
  site : SelectionSite
  tree : Option Nat
  before : List (List (Nat × List Nat))

namespace LogicalValueTransformer

def scratch (transformer : LogicalValueTransformer) : Nat × LogicalValueTransformer :=
  (transformer.names, { transformer with
    names := transformer.names + 1
    scopeDeclarations := transformer.scopeDeclarations ++ [transformer.names] })

/-- What `name_tree` does before it names the leaves. -/
def nameTree (parentheses : Nat) (operator : Operator) (first : Nat) (left right : Tree Source)
    (transformer : LogicalValueTransformer) : Naming × LogicalValueTransformer :=
  let shaped := shape [] (.selection parentheses operator first left right) []
  let before := shaped.1.before (List.replicate shaped.2.length [])
  let named := transformer.scratch
  if shaped.2.length > 2 then
    (⟨⟨.selectEndV2, named.2.trees.length, named.1⟩, some named.2.trees.length, before⟩,
      { named.2 with trees := named.2.trees ++ [⟨shaped.2, before.map byLeaf⟩] })
  else (⟨⟨.selectEnd2V2, first, named.1⟩, none, before⟩, named.2)

end LogicalValueTransformer

/-- The call `instrument_operand` puts around a leaf. -/
def wrapped (path : List Nat) (value : Code) : Code :=
  match path with
  | [step] =>
    if step % 4 = 3 then .selectRightV2 (step / 4) value else .selectShortV2 (step / 4) value (step % 4)
  | _ => .selectPathV2 value path

def Source.isConstant : Source → Bool
  | constant _ => true
  | _ => false

open LogicalValueTransformer

mutual

/-- The visitor. `frameless` inside a parameter's default or a class member, `aliasing` in a `const` that
stands in a list of statements. -/
def visit (frameless aliasing : Bool) :
    Source → LogicalValueTransformer → Code × LogicalValueTransformer
  | .logical parentheses operator first left right, transformer =>
    if frameless then
      let leftVisited := instrumentOperand ([first * 4 + operator.kind]) left transformer
      let rightVisited := instrumentOperand ([first * 4 + 3]) right leftVisited.2
      (.logical parentheses operator leftVisited.1 rightVisited.1, rightVisited.2)
    else
      let naming := nameTree parentheses operator first left right transformer
      let leftNamed := nameLeaves naming.1 left 0 naming.2
      let rightNamed := nameLeaves naming.1 right leftNamed.2.1 leftNamed.2.2
      (.recorded naming.1.site (.logical parentheses operator leftNamed.1 rightNamed.1), rightNamed.2.2)
  | .function parameters body, transformer =>
    let parametersVisited := visitAll true false parameters transformer
    let bodyVisited := visitStatements false body { parametersVisited.2 with scopeDeclarations := [] }
    (.function parametersVisited.1 bodyVisited.2.scopeDeclarations bodyVisited.1,
      { bodyVisited.2 with scopeDeclarations := parametersVisited.2.scopeDeclarations })
  | .statements list, transformer =>
    let visited := visitStatements frameless list transformer
    (.statements visited.1, visited.2)
  | .constant declarators, transformer =>
    let visited := visitAll frameless aliasing declarators transformer
    (.constant visited.1, visited.2)
  | .declarator (some name) (.logical parentheses operator first left right), transformer =>
    if aliasing && !frameless then
      let naming := nameTree parentheses operator first left right transformer
      let leftNamed := nameLeaves naming.1 left 0 naming.2
      let rightNamed := nameLeaves naming.1 right leftNamed.2.1 leftNamed.2.2
      (.declarator (some name) (.logical parentheses operator leftNamed.1 rightNamed.1),
        { rightNamed.2.2 with
          afterDeclaration := rightNamed.2.2.afterDeclaration ++ [(naming.1.site, name)] })
    else
      let visited := visit frameless false (.logical parentheses operator first left right) transformer
      (.declarator (some name) visited.1, visited.2)
  | .declarator name initializer, transformer =>
    let visited := visit frameless false initializer transformer
    (.declarator name visited.1, visited.2)
  | .member inner, transformer => visit true false inner transformer
  | .other parts, transformer =>
    let visited := visitAll frameless false parts transformer
    (.other visited.1, visited.2)

def visitAll (frameless aliasing : Bool) :
    List Source → LogicalValueTransformer → List Code × LogicalValueTransformer
  | [], transformer => ([], transformer)
  | part :: parts, transformer =>
    let visited := visit frameless aliasing part transformer
    let rest := visitAll frameless aliasing parts visited.2
    (visited.1 :: rest.1, rest.2)

def visitStatements (frameless : Bool) :
    List Source → LogicalValueTransformer → List Code × LogicalValueTransformer
  | [], transformer => ([], transformer)
  | statement :: list, transformer =>
    let visited := visit frameless statement.isConstant statement transformer
    let rest := visitStatements frameless list { visited.2 with afterDeclaration := [] }
    (visited.1 :: visited.2.afterDeclaration.map (fun (site, name) => .recordConstant site name) ++ rest.1,
      rest.2)

def instrumentOperand (path : List Nat) :
    Tree Source → LogicalValueTransformer → Code × LogicalValueTransformer
  | .leaf value, transformer =>
    let visited := visit true false value transformer
    (wrapped path visited.1, visited.2)
  | .selection parentheses operator first left right, transformer =>
    let leftVisited := instrumentOperand ((first * 4 + operator.kind) :: path) left transformer
    let rightVisited := instrumentOperand ((first * 4 + 3) :: path) right leftVisited.2
    (.logical parentheses operator leftVisited.1 rightVisited.1, rightVisited.2)

/-- With the number of the next leaf. -/
def nameLeaves (naming : Naming) :
    Tree Source → Nat → LogicalValueTransformer → Code × Nat × LogicalValueTransformer
  | .leaf value, leaf, transformer =>
    let visited := visit false false value transformer
    (.named (recordedBefore naming.site.frame naming.tree leaf (naming.before.getD leaf []))
      naming.site.frame leaf visited.1, leaf + 1, visited.2)
  | .selection parentheses operator _ left right, leaf, transformer =>
    let leftNamed := nameLeaves naming left leaf transformer
    let rightNamed := nameLeaves naming right leftNamed.2.1 leftNamed.2.2
    (.logical parentheses operator leftNamed.1 rightNamed.1, rightNamed.2)

end

def visitProgram (program : List Source) : List Code × LogicalValueTransformer :=
  visitStatements false program {}

end Supercov.Js
