import Supercov.Request.Declaration
import Supercov.Library.Text

/-!
# The decisions of a JVM source

A Java or Kotlin source is read as a tree and walked.  The condition of an `if` or a loop
is a decision where `&&` and `||` join more than one condition in it; elsewhere a `&&` or
`||` is one that no other one around it is.  Comments, which the parser keeps beside what
they stand in, and unnamed nodes are left out of the trees.
-/

namespace Supercov.Jvm

open Request (isWhitespace)

inductive JvmLanguage where
  | java
  | kotlin
  deriving DecidableEq, Repr

structure Token where
  start : Nat
  text : String
  deriving DecidableEq, Repr

/-- `str::trim` of its text. -/
def Token.trimmed (token : Token) : String :=
  let text := token.text.toList.dropWhile isWhitespace
  String.ofList (text.reverse.dropWhile isWhitespace).reverse

/-- The kinds that the walk tells apart. -/
inductive Kind where
  | lambdaExpression
  | classBody
  | methodDeclaration
  | constructorDeclaration
  | lambdaLiteral
  | anonymousFunction
  | functionDeclaration
  | annotations
  | markerAnnotations
  | elementValuePair
  | annotationArgumentList
  | fieldDeclaration
  | propertyDeclaration
  | modifiers
  | instanceofExpression (name : Bool)
  | isExpression
  | callExpression
  | other (name : String)
  deriving DecidableEq, Repr

inductive BranchKind where
  | ifStatement
  | ifExpression
  | whileStatement
  | forStatement
  | doStatement
  | doWhileStatement
  deriving DecidableEq, Repr

/-- A node with its fields and named children.  A loop without a condition is a plain one. -/
inductive Node where
  | binary (token operator : Token) (left right : Node)
  | parenthesized (token : Token) (inner : Node)
  | branch (token : Token) (kind : BranchKind) (before : List Node) (condition : Node)
      (after : List Node)
  | plain (token : Token) (kind : Kind) (children : List Node)
  deriving Repr

abbrev Ancestor := Node × Bool

def BranchKind.isLoop : BranchKind → Bool
  | ifStatement | ifExpression => false
  | _ => true

namespace Node

def token : Node → Token
  | binary token .. | parenthesized token .. | branch token .. | plain token .. => token

def trimmed (node : Node) : String := node.token.trimmed

/-- A Java or Kotlin `&&` or `||`. -/
def isLogical : Node → Bool
  | binary _ operator _ _ => operator.text = "&&" || operator.text = "||"
  | _ => false

def startsCode : Node → Bool
  | plain _ kind _ => kind ∈ [.lambdaExpression, .classBody, .methodDeclaration,
      .constructorDeclaration, .lambdaLiteral, .anonymousFunction, .functionDeclaration]
  | _ => false

def isBranch : Node → Bool
  | branch .. => true
  | _ => false

def modifiers (children : List Node) : Option String :=
  children.findSome? fun child => match child with
    | plain token .modifiers _ => some token.text
    | _ => none

/-- What an ancestor says of whether a value in it must stay a compile-time constant. -/
def constantContext : Node → Option Bool
  | plain _ kind children => match kind with
    | .annotations | .markerAnnotations | .elementValuePair | .annotationArgumentList => some true
    | .fieldDeclaration => some ((modifiers children).any fun text =>
        "final".toList <:+: text.toList)
    | .propertyDeclaration => some ((modifiers children).any fun text =>
        "const".toList ∈ text.toList.splitOnP isWhitespace)
    | .methodDeclaration | .constructorDeclaration | .lambdaExpression | .functionDeclaration
    | .lambdaLiteral | .anonymousFunction => some false
    | _ => none
  | _ => none

/-- A record pattern, which binds names of its own. -/
def isPattern : Node → Bool
  | plain _ (.other name) _ => "_pattern".toList <:+ name.toList
  | _ => false

/-- The compiler reads the node itself to narrow a type. -/
def narrows (language : JvmLanguage) : Node → Bool
  | plain _ (.instanceofExpression name) children =>
    language = .java && (name || children.any isPattern)
  | plain _ .isExpression _ => language = .kotlin
  | plain _ .callExpression children => language = .kotlin &&
    children.head?.any fun callee =>
      let text := (callee.token.text.toList.reverse.dropWhile isWhitespace).reverse
      "isNullOrEmpty".toList <:+ text || "isNullOrBlank".toList <:+ text
  | binary _ operator left right => language = .kotlin && operator.trimmed ∈ ["==", "!="] &&
    (left.trimmed = "null" || right.trimmed = "null")
  | _ => false

mutual

/-- The compiler reads something of the node to narrow a type. -/
def narrowsAType (language : JvmLanguage) : Node → Bool
  | node@(.binary _ _ left right) =>
    node.narrows language || left.narrowsAType language || right.narrowsAType language
  | .parenthesized _ inner => inner.narrowsAType language
  | .branch _ _ before condition after => narrowsATypeAny language before ||
    condition.narrowsAType language || narrowsATypeAny language after
  | node@(.plain _ _ children) => node.narrows language || narrowsATypeAny language children

def narrowsATypeAny (language : JvmLanguage) : List Node → Bool
  | [] => false
  | node :: rest => node.narrowsAType language || narrowsATypeAny language rest

end

/-- The independent conditions of a boolean expression. -/
def conditionNodes : Node → List Node
  | node@(.binary _ _ left right) =>
    if node.isLogical then left.conditionNodes ++ right.conditionNodes else [node]
  | .parenthesized _ inner => inner.conditionNodes
  | node => [node]

end Node

section Ancestors

variable (above : List Ancestor)

/-- The parent makes the node an operand of a larger `&&` or `||`: it is one, or parentheses
that one stands around. -/
def isLogicalOperandParent : List Ancestor → Bool
  | [] => false
  | (parent, _) :: rest => parent.isLogical || match parent, rest with
    | .parenthesized .., (grand, _) :: _ => grand.isLogical
    | _, _ => false

/-- Within the condition of an `if` or a loop, before what starts code of its own. -/
def inMeasuredCondition : Bool :=
  (above.findSome? fun (parent, within) =>
    if parent.startsCode then some false
    else if parent.isBranch && within then some true
    else none).getD false

/-- Within an annotation, or what a constant is initialized with. -/
def inConstantContext : Bool :=
  (above.findSome? fun (parent, _) => parent.constantContext).getD false

end Ancestors

structure Decision where
  kind : String
  node : Node
  leaves : List Node

def Decision.conditions (decision : Decision) : List String := decision.leaves.map Node.trimmed

def addDecision (node : Node) (kind : String) : Option Decision :=
  let leaves := node.conditionNodes
  if leaves.length < 2 then none else some { kind, node, leaves }

/-- The expression inside `if (...)` or a loop's parentheses: Java's grammar makes a
condition a parenthesized expression. -/
def conditionOf (language : JvmLanguage) : Node → Node
  | .parenthesized token inner =>
    if language = .java then inner else .parenthesized token inner
  | condition => condition

/-- A literal: the text of any other node has more to it. -/
def Node.isConstant : Node → Bool
  | .plain token _ _ => token.trimmed ∈ ["true", "false"]
  | _ => false

/-- The decision of an `if` or a loop. -/
def conditionDecision (language : JvmLanguage) (kind : BranchKind) (condition : Node) :
    Option Decision :=
  let inner := conditionOf language condition
  -- A loop on a constant has no condition to observe.
  if kind.isLoop && inner.isConstant then none
  else if inner.narrowsAType language then none
  else addDecision inner (if kind.isLoop then "loop" else "if")

/-- The decision of a `&&` or `||` used as a value. -/
def valueDecision (language : JvmLanguage) (above : List Ancestor) (node : Node) : Option Decision :=
  if node.isLogical && !isLogicalOperandParent above && !inMeasuredCondition above &&
      !inConstantContext above then
    if node.narrowsAType language then none else addDecision node "value"
  else none

mutual

/-- The decisions of a node and of all within it, in the order they are recorded. -/
def walk (language : JvmLanguage) (above : List Ancestor) : Node → List Decision
  | node@(.binary _ _ left right) => (valueDecision language above node).toList ++
    (walk language ((node, false) :: above) left ++ walk language ((node, false) :: above) right)
  | node@(.parenthesized _ inner) => walk language ((node, false) :: above) inner
  | node@(.branch _ kind before condition after) =>
    (conditionDecision language kind condition).toList ++
      (walkAll language ((node, false) :: above) before ++
        (walk language ((node, true) :: above) condition ++
          walkAll language ((node, false) :: above) after))
  | node@(.plain _ _ children) => walkAll language ((node, false) :: above) children

def walkAll (language : JvmLanguage) (above : List Ancestor) : List Node → List Decision
  | [] => []
  | node :: rest => walk language above node ++ walkAll language above rest

end

/-- A condition wrapped in the call `c(decision, position, ..)`. -/
structure Call where
  decision : Nat
  position : Nat
  condition : Node

def calls (base : Nat) (decisions : List Decision) : List Call :=
  (decisions.zipIdx base).flatMap fun (decision, index) =>
    decision.leaves.zipIdx.map fun (condition, position) => { decision := index, position, condition }

end Supercov.Jvm
