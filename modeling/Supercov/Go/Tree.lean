import Mathlib.Data.List.Basic
import Supercov.Library.PlacedTree

/-!
# A parsed Go file

The tree is a parser's: each node with its kind, the field of its parent that it fills, whether
the grammar names it, and its bytes.  A comment is a node wherever it stands.
-/

namespace Supercov.Go

open PlacedTree (Place)

inductive Kind where
  | sourceFile
  | functionDeclaration
  | methodDeclaration
  | funcLiteral
  | block
  | statementList
  | labeledStatement
  | gotoStatement
  | fallthroughStatement
  | emptyStatement
  | forStatement
  | forClause
  | rangeClause
  | expressionSwitchStatement
  | typeSwitchStatement
  | selectStatement
  | expressionCase
  | typeCase
  | communicationCase
  | defaultCase
  | comment
  | labelName
  | other (name : String)
  deriving DecidableEq

structure NodeData where
  kind : Kind
  field : String
  named : Bool
  startByte : Nat
  endByte : Nat

abbrev Node := PlacedTree NodeData

namespace Node

variable (node : Node)

def kind : Kind := node.label.kind

def startByte : Nat := node.label.startByte

def endByte : Nat := node.label.endByte

def isNamed : Bool := node.label.named

def childByFieldName (name : String) : Option Node :=
  node.children.find? fun child : Node => child.label.field = name

def childOfKind (kind : Kind) : Option Node :=
  node.children.find? fun child : Node => child.kind = kind

def namedChildren : List Node := node.children.filter fun child : Node => child.isNamed

def text (source : List UInt8) : List UInt8 :=
  (source.drop node.startByte).take (node.endByte - node.startByte)

end Node

/-- Text inserted at a byte; of several at one byte the lower ranks stand first. -/
structure GoEdit where
  offset : Nat
  rank : Int
  text : String
  deriving DecidableEq

def Kind.isFunction : Kind → Bool
  | .functionDeclaration | .methodDeclaration | .funcLiteral => true
  | _ => false

def Kind.isSwitch : Kind → Bool
  | .expressionSwitchStatement | .typeSwitchStatement | .selectStatement => true
  | _ => false

def Kind.isCase : Kind → Bool
  | .expressionCase | .typeCase | .communicationCase | .defaultCase => true
  | _ => false

/-- The `fallthrough` a case clause ends with, if it ends with one. -/
def endingFallthrough (clause : Node) : Option Node := do
  let body ← Node.childOfKind clause .statementList
  let last ← (Node.namedChildren body).getLast?
  if Node.kind last = .fallthroughStatement then some last else none

def clausesOf (node : Node) : List Node :=
  node.children.filter fun child : Node => child.kind.isCase

/-- The condition of a `for` loop, when it has one. -/
def loopCondition (node : Node) : Option Node := do
  let head ← node.children.find? fun child : Node =>
    child.isNamed && child.kind ≠ .block && child.kind ≠ .comment
  match Node.kind head with
  | .forClause => Node.childByFieldName head "condition"
  | .rangeClause => none
  | _ => some head

def isRangeLoop (node : Node) : Bool :=
  node.children.any fun child : Node => child.kind = .rangeClause

section Placed

variable (root : Node)

def functionPlace (place : Place) : Option Place :=
  root.nearest (fun data => data.kind.isFunction || data.kind = .sourceFile) place

/-- Whether the function holding the place has a `goto` anywhere in it. -/
def inFunctionWithGoto (place : Place) : Bool :=
  ((functionPlace root place).bind root.subtree?).any
    (PlacedTree.any fun data => data.kind = .gotoStatement)

/-- The statement that a flag's declaration is put before: a label with what it labels. -/
def flaggedStatement : Place → Place
  | [] => []
  | index :: above =>
    if root.isAt (fun data => data.kind = .labeledStatement) above then above else index :: above

def flagName (prefix' : String) (node : Node) : String := prefix' ++ toString (Node.startByte node)

/-- The declaration of the flag of a range loop or of a switch, and the statement it is put
before, for a node that has one. -/
def flagDeclaration (place : Place) : Option (Place × GoEdit) := do
  let node ← root.subtree? place
  let declared (flag : String) : Option (Place × GoEdit) := do
    let statement ← root.subtree? (flaggedStatement root place)
    return (flaggedStatement root place,
      { offset := Node.startByte statement, rank := 90, text := "var " ++ flag ++ " bool; " })
  if Node.kind node = .forStatement then
    -- Not in a function with a goto, which may not jump over a declaration.
    if (loopCondition node).isNone && isRangeLoop node && !inFunctionWithGoto root place then
      declared (flagName "_scvRan" node)
    else none
  else if (Node.kind node).isSwitch then
    if (clausesOf node).any fun clause => (endingFallthrough clause).isSome then
      declared (flagName "_scvFell" node)
    else none
  else none

end Placed

mutual

/-- The places that the instrumenter walks: the named nodes below named ones. -/
def walked (place : Place) : Node → List Place
  | .node _ children => place :: walkedAmong place 0 children

def walkedAmong (above : Place) (index : Nat) : List Node → List Place
  | [] => []
  | child :: children =>
    (if child.label.named then walked (index :: above) child else []) ++
      walkedAmong above (index + 1) children

end

def flagEdits (root : Node) : List (Place × GoEdit) :=
  (walked [] root).filterMap (flagDeclaration root)

end Supercov.Go
