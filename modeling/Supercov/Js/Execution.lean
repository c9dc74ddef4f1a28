import Supercov.Js.Transformer

/-!
# Runs of a program

A program and the one the transformer leaves, run on one script: it says what the syntax outside the
trees does, which operand is evaluated next, which function made so far is called, with what value an
expression ends, or that it is left by an exception or a jump. A run the script or the fuel breaks off
is unfinished.
-/

namespace Supercov.Js

inductive Command where
  | operand (index : Nat)
  | call (index : Nat)
  | finish (value : Value)
  | abandon

inductive Outcome where
  | value (value : Value)
  | abrupt
  | unfinished
  deriving DecidableEq

structure Machine (Function Store : Type) where
  script : List Command
  functions : List Function := []
  store : Store

namespace Machine

variable {Function Store : Type}

def create (function : Function) (machine : Machine Function Store) :
    Outcome × Machine Function Store :=
  (.value .truthy, { machine with functions := machine.functions ++ [function] })

def update (change : Store → Store) (machine : Machine Function Store) : Machine Function Store :=
  { machine with store := change machine.store }

def andThen (result : Outcome × Machine Function Store)
    (next : Value → Machine Function Store → Outcome × Machine Function Store) :
    Outcome × Machine Function Store :=
  match result.1 with
  | .value value => next value result.2
  | outcome => (outcome, result.2)

/-- Syntax the model does not look into: its operands and the calls it makes, as the script has them.
What is left by an exception may go on, in a handler. -/
def interpret (operand : Nat → Machine Function Store → Outcome × Machine Function Store)
    (enter : Function → Machine Function Store → Outcome × Machine Function Store) :
    Nat → Machine Function Store → Outcome × Machine Function Store
  | 0, machine => (.unfinished, machine)
  | fuel + 1, machine =>
    match machine.script with
    | [] => (.unfinished, machine)
    | .finish value :: script => (.value value, { machine with script })
    | .abandon :: script => (.abrupt, { machine with script })
    | .operand index :: script =>
      let result := operand index { machine with script }
      if result.1 = .unfinished then result else interpret operand enter fuel result.2
    | .call index :: script =>
      match machine.functions[index]? with
      | none => interpret operand enter fuel { machine with script }
      | some function =>
        let result := enter function { machine with script }
        if result.1 = .unfinished then result else interpret operand enter fuel result.2

end Machine

open Machine (andThen interpret)

/-! ### The program -/

namespace Source

/-- The points of the selections decided so far; and whether a declaration was left, or never ended,
after a tree one of its constants keeps. -/
structure Store where
  decided : List Nat := []
  cut : Bool := false

abbrev State := Machine (List Source × List Source) Store

def decide (point : Nat) (store : Store) : Store :=
  { store with decided := store.decided ++ [point] }

/-- The declarator's constant keeps the value of a tree, to be recorded from it. -/
def kept (frameless aliasing : Bool) : Source → Bool
  | declarator (some _) (logical ..) => aliasing && !frameless
  | _ => false

/-- A selection decides which of its sides its value is, and whether that is truthy. -/
def select (operator : Operator) (first : Nat) (left : Outcome × State)
    (right : State → Outcome × State) : Outcome × State :=
  andThen left fun value state =>
    if operator.short value then (.value value, state.update (decide (first + value.isTruthy.toNat)))
    else andThen (right state) fun value state =>
      (.value value, state.update (decide (first + 2 + value.isTruthy.toNat)))

def enter (again : Bool → Source → State → Outcome × State) (function : List Source × List Source)
    (state : State) : Outcome × State :=
  andThen (again true (other function.1) state) fun _ state => again false (statements function.2) state

section

variable (again : Bool → Source → State → Outcome × State) (fuel : Nat)

mutual

def evaluate (frameless aliasing : Bool) : Source → State → Outcome × State
  | logical _ operator first left right, state =>
    select operator first (evaluateTree frameless left state) (evaluateTree frameless right)
  | function parameters body, state => state.create (parameters, body)
  | statements list, state => evaluateStatements frameless list state
  | constant declarators, state => evaluateDeclarators frameless aliasing false declarators state
  | declarator _ initializer, state => evaluate frameless false initializer state
  | member inner, state => evaluate true false inner state
  | other parts, state =>
    interpret (fun index state => (parts[index]?.map (again frameless · state)).getD (.abrupt, state))
      (enter again) fuel state

def evaluateTree (frameless : Bool) : Tree Source → State → Outcome × State
  | .leaf value, state => evaluate frameless false value state
  | .selection _ operator first left right, state =>
    select operator first (evaluateTree frameless left state) (evaluateTree frameless right)

def evaluateStatements (frameless : Bool) : List Source → State → Outcome × State
  | [], state => (.value .nullish, state)
  | statement :: list, state =>
    andThen (evaluate frameless statement.isConstant statement state) fun _ state =>
      evaluateStatements frameless list state

/-- `pending` once a constant keeps a tree's value. -/
def evaluateDeclarators (frameless aliasing pending : Bool) : List Source → State → Outcome × State
  | [], state => (.value .nullish, state)
  | binding :: declarators, state =>
    let result := evaluate frameless aliasing binding state
    match result.1 with
    | .value _ =>
      evaluateDeclarators frameless aliasing (pending || binding.kept frameless aliasing) declarators
        result.2
    | outcome =>
      (outcome, result.2.update fun store => { store with cut := store.cut || pending })

end

end

def run : Nat → Bool → Source → State → Outcome × State
  | 0, _, _, state => (.unfinished, state)
  | fuel + 1, frameless, source, state => evaluate (run fuel) fuel frameless false source state

end Source

/-! ### What the transformer leaves -/

/-- The activations a place is in, innermost first, each with the temporaries its function declares, and
the constants in scope. -/
structure Environment where
  scopes : List (Nat × List Nat)
  constants : List (Nat × Value) := []

namespace Environment

def holder (environment : Environment) (frame : Nat) : Option Nat :=
  (environment.scopes.find? fun scope => scope.2.contains frame).map Prod.fst

def bind (name : Option Nat) (value : Value) (environment : Environment) : Environment :=
  match name with
  | none => environment
  | some name => { environment with constants := (name, value) :: environment.constants }

end Environment

structure Closure where
  environment : Environment
  parameters : List Code
  temporaries : List Nat
  body : List Code

namespace Code

/-- The activations begun, what each holds in its frames, and the points hit. -/
structure Store where
  activations : Nat
  frames : Nat → Nat → Option Nat := fun _ _ => none
  hits : List Nat := []

abbrev State := Machine Closure Store

def hit (points : List Nat) (store : Store) : Store :=
  { store with hits := store.hits ++ points }

def assign (activation frame leaf : Nat) (store : Store) : Store :=
  { store with
    frames := fun holder name =>
      if holder = activation ∧ name = frame then some leaf else store.frames holder name }

def read (environment : Environment) (store : Store) (frame : Nat) : Option Nat :=
  (environment.holder frame).bind (store.frames · frame)

def record (tables : List SelectionTable) (environment : Environment) (site : SelectionSite)
    (value : Value) (state : State) : Outcome × State :=
  match site.record tables value (read environment state.store site.frame) with
  | none => (.abrupt, state)
  | some points => (.value value, state.update (hit points))

def enter (again : Environment → Code → State → Outcome × State) (closure : Closure) (state : State) :
    Outcome × State :=
  andThen (again closure.environment (other closure.parameters) state) fun _ state =>
    again { closure.environment with
        scopes := (state.store.activations, closure.temporaries) :: closure.environment.scopes }
      (statements closure.body)
      (state.update fun store => { store with activations := store.activations + 1 })

section

variable (tables : List SelectionTable) (again : Environment → Code → State → Outcome × State)
  (fuel : Nat)

mutual

def evaluate (environment : Environment) : Code → State → Outcome × State
  | logical _ operator left right, state =>
    andThen (evaluate environment left state) fun value state =>
      if operator.short value then (.value value, state) else evaluate environment right state
  | selectShortV2 first value kind, state =>
    andThen (evaluate environment value state) fun value state =>
      (.value value, state.update (hit (Js.selectShortV2 first value kind)))
  | selectRightV2 first value, state =>
    andThen (evaluate environment value state) fun value state =>
      (.value value, state.update (hit (Js.selectRightV2 first value)))
  | selectPathV2 value steps, state =>
    andThen (evaluate environment value state) fun value state =>
      (.value value, state.update (hit (Js.selectPathV2 value steps)))
  | named before frame leaf value, state =>
    let state := state.update (hit
      ((before.map (Recorded.points tables (read environment state.store))).getD []))
    match environment.holder frame with
    | none => (.abrupt, state)
    | some activation => evaluate environment value (state.update (assign activation frame leaf))
  | recorded site value, state =>
    andThen (evaluate environment value state) (record tables environment site)
  | recordConstant site name, state =>
    match environment.constants.lookup name with
    | none => (.abrupt, state)
    | some value => record tables environment site value state
  | function parameters temporaries body, state =>
    state.create ⟨environment, parameters, temporaries, body⟩
  | statements list, state => evaluateStatements environment list state
  | constant declarators, state =>
    let result := evaluateDeclarators environment declarators state
    (result.1, result.2.2)
  | declarator _ initializer, state => evaluate environment initializer state
  | other parts, state =>
    interpret (fun index state => (parts[index]?.map (again environment · state)).getD (.abrupt, state))
      (enter again) fuel state

/-- The constants a declaration binds are in scope in the rest of its list. -/
def evaluateStatements (environment : Environment) : List Code → State → Outcome × State
  | [], state => (.value .nullish, state)
  | constant declarators :: list, state =>
    let result := evaluateDeclarators environment declarators state
    andThen (result.1, result.2.2) fun _ state => evaluateStatements result.2.1 list state
  | statement :: list, state =>
    andThen (evaluate environment statement state) fun _ state =>
      evaluateStatements environment list state

def evaluateDeclarators (environment : Environment) :
    List Code → State → Outcome × Environment × State
  | [], state => (.value .nullish, environment, state)
  | declarator name initializer :: declarators, state =>
    let result := evaluate environment initializer state
    match result.1 with
    | .value value => evaluateDeclarators (environment.bind name value) declarators result.2
    | outcome => (outcome, environment, result.2)
  | _ :: _, state => (.abrupt, environment, state)

end

end

def run (tables : List SelectionTable) : Nat → Environment → Code → State → Outcome × State
  | 0, _, _, state => (.unfinished, state)
  | fuel + 1, environment, code, state => evaluate tables (run tables fuel) fuel environment code state

end Code

/-! ### A program's run, as it stands and as the transformer leaves it -/

def runProgram (fuel : Nat) (script : List Command) (program : List Source) : Outcome × Source.State :=
  Source.run fuel false (.statements program) { script, store := {} }

def runInstrumented (fuel : Nat) (script : List Command) (program : List Source) :
    Outcome × Code.State :=
  let visited := visitProgram program
  Code.run visited.2.trees fuel { scopes := [(0, visited.2.scopeDeclarations)] }
    (.statements visited.1) { script, store := { activations := 1 } }

end Supercov.Js
