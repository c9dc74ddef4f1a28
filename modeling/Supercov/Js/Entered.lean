import Mathlib.Data.List.Basic
import Mathlib.Logic.Relation
import Mathlib.Tactic.Common

/-!
# Loops that must run at least once

A loop over an array literal with an element that is certainly there, or over a constant bound to
one that nothing else in the file refers to, has no outcome of zero iterations.  Such a constant
may be a part that a pattern takes of the literal, and other files may reach what it holds.
-/

namespace Supercov.Js.Entered

/-- What a name of a file is resolved to. -/
abbrev Symbol := Nat

section Syntax

mutual

inductive Expression where
  | parenthesized (expression : Expression)
  | array (elements : List Element)
  | identifier (symbol : Option Symbol)
  | other

inductive Element where
  | spread (argument : Expression)
  | elision
  | item (expression : Expression)

end

inductive Key where
  | index (index : Nat)
  | length
  | other
  deriving DecidableEq

inductive Pattern where
  | name (symbol : Symbol)
  | array (elements : List (Option Pattern)) (rest : Option Pattern)
  | object (properties : List (Key × Pattern)) (rest : Option Pattern)
  | assignment (left : Pattern) (right : Expression)

inductive VariableDeclarationKind where
  | var | «let» | const | using | awaitUsing
  deriving DecidableEq

structure VariableDeclarator where
  kind : VariableDeclarationKind
  id : Pattern
  init : Option Expression

inductive Declaration where
  | variableDeclarator (declarator : VariableDeclarator)
  | other

structure ForOf where
  span : Nat × Nat
  right : Expression

/-- What is asked of a file: its loops, where each symbol is declared, the references that were
resolved, and the symbols whose declaration is an export. -/
structure File where
  loops : List ForOf
  declaration : Symbol → Declaration
  references : List Symbol
  exported : Symbol → Bool

def transparentExpression : Expression → Expression
  | .parenthesized expression => transparentExpression expression
  | expression => expression

end Syntax

section Answers

def isSpread : Element → Bool
  | .spread _ => true
  | _ => false

/-- A hole is an element; a spread may contribute nothing. -/
def hasDefiniteElement (elements : List Element) : Bool :=
  elements.any fun element => !isSpread element

def isDefiniteArray (init : Expression) : Bool :=
  match transparentExpression init with
  | .array elements => hasDefiniteElement elements
  | _ => false

namespace File

variable (file : File)

def neverEmpty (expression : Expression) : Bool :=
  match transparentExpression expression with
  | .array elements => hasDefiniteElement elements
  | .identifier none => false
  | .identifier (some symbol) =>
    if file.references.count symbol ≠ 1 then false
    else
      match file.declaration symbol with
      | .variableDeclarator declarator =>
        declarator.kind = .const && declarator.init.any isDefiniteArray
      | .other => false
  | _ => false

def provablyEnteredLoops : List (Nat × Nat) :=
  (file.loops.filter fun loop => file.neverEmpty loop.right).map ForOf.span

end File

end Answers

section Values

/-- A value: a fresh array that no other code holds, any other value that can be iterated, or one
that iterating throws for. -/
inductive Value where
  | undefined
  | object
  | array (items : List Value)
  | held (items : List Value)

/-- What iterating gives, where it does not throw. -/
def Value.items : Value → Option (List Value)
  | .array items | .held items => some items
  | .undefined | .object => none

/-- An array that someone else has been given as well. -/
def Value.hold : Value → Value
  | .array items => .held items
  | value => value

mutual

/-- The values an expression may have: other code may give any. -/
inductive Yields : Expression → Value → Prop where
  | parenthesized {expression : Expression} {value : Value} (inner : Yields expression value) :
      Yields (.parenthesized expression) value
  | array {elements : List Element} {items : List Value} (each : YieldsAll elements items) :
      Yields (.array elements) (.array items)
  | identifier (symbol : Option Symbol) (value : Value) : Yields (.identifier symbol) value
  | other (value : Value) : Yields .other value

inductive YieldsAll : List Element → List Value → Prop where
  | nil : YieldsAll [] []
  | spread {elements : List Element} {items : List Value} (argument : Expression)
      (spread : List Value) (rest : YieldsAll elements items) :
      YieldsAll (.spread argument :: elements) (spread ++ items)
  | elision {elements : List Element} {items : List Value} (rest : YieldsAll elements items) :
      YieldsAll (.elision :: elements) (.undefined :: items)
  | item {expression : Expression} {value : Value} {elements : List Element} {items : List Value}
      (first : Yields expression value) (rest : YieldsAll elements items) :
      YieldsAll (.item expression :: elements) (value :: items)

end

/-- The values a property may have: of a fresh array its elements are known, and its length. -/
inductive Property : Value → Key → Value → Prop where
  | index (items : List Value) (index : Nat) :
      Property (.array items) (.index index) (items.getD index .undefined)
  | length (items : List Value) : Property (.array items) .length .object
  | other (items : List Value) (value : Value) : Property (.array items) .other value
  | held (items : List Value) (key : Key) (value : Value) : Property (.held items) key value
  | object (key : Key) (value : Value) : Property .object key value

/-- No two properties are certain to be the same one, so that none is taken twice. -/
def Apart (properties : List (Key × Pattern)) : Prop :=
  (properties.map Prod.fst).Nodup ∧ Key.other ∉ properties.map Prod.fst

instance (properties : List (Key × Pattern)) : Decidable (Apart properties) :=
  inferInstanceAs (Decidable (_ ∧ _))

mutual

/-- What a pattern gives its names of a value. -/
inductive Binds : Pattern → Value → List (Symbol × Value) → Prop where
  | name (symbol : Symbol) (value : Value) : Binds (.name symbol) value [(symbol, value)]
  | array {elements : List (Option Pattern)} {rest : Option Pattern} {value : Value}
      {items : List Value} {bindings : List (Symbol × Value)} (iterated : value.items = some items)
      (each : BindsItems elements rest items bindings) :
      Binds (.array elements rest) value bindings
  | object {properties : List (Key × Pattern)} {rest : Option Pattern} {value : Value}
      {bindings : List (Symbol × Value)} (defined : value ≠ .undefined)
      (each : BindsProperties properties rest
        (if Apart properties then value else value.hold) bindings) :
      Binds (.object properties rest) value bindings
  | provided {left : Pattern} {value : Value} {bindings : List (Symbol × Value)}
      (right : Expression) (defined : value ≠ .undefined) (inner : Binds left value bindings) :
      Binds (.assignment left right) value bindings
  | «default» {left : Pattern} {right : Expression} {value : Value}
      {bindings : List (Symbol × Value)} (yields : Yields right value)
      (inner : Binds left value bindings) : Binds (.assignment left right) .undefined bindings

inductive BindsItems : List (Option Pattern) → Option Pattern → List Value →
    List (Symbol × Value) → Prop where
  | nil (items : List Value) : BindsItems [] none items []
  | rest {pattern : Pattern} {items : List Value} {bindings : List (Symbol × Value)}
      (inner : Binds pattern (.array items) bindings) :
      BindsItems [] (some pattern) items bindings
  | elision {elements : List (Option Pattern)} {rest : Option Pattern} {items : List Value}
      {bindings : List (Symbol × Value)} (later : BindsItems elements rest items.tail bindings) :
      BindsItems (none :: elements) rest items bindings
  | element {pattern : Pattern} {elements : List (Option Pattern)} {rest : Option Pattern}
      {items : List Value} {first bindings : List (Symbol × Value)}
      (inner : Binds pattern (items.headD .undefined) first)
      (later : BindsItems elements rest items.tail bindings) :
      BindsItems (some pattern :: elements) rest items (first ++ bindings)

/-- The rest of an object is an object, which iterating throws for. -/
inductive BindsProperties : List (Key × Pattern) → Option Pattern → Value →
    List (Symbol × Value) → Prop where
  | nil (value : Value) : BindsProperties [] none value []
  | rest {pattern : Pattern} {bindings : List (Symbol × Value)} (value : Value)
      (inner : Binds pattern .object bindings) : BindsProperties [] (some pattern) value bindings
  | property {key : Key} {pattern : Pattern} {properties : List (Key × Pattern)}
      {rest : Option Pattern} {value taken : Value} {first bindings : List (Symbol × Value)}
      (takes : Property value key taken) (inner : Binds pattern taken first)
      (later : BindsProperties properties rest value bindings) :
      BindsProperties ((key, pattern) :: properties) rest value (first ++ bindings)

end

end Values

section Runs

/-- What the names have been bound to so far, and what that holds now. -/
abbrev State := List (Symbol × Value)

namespace File

variable (file : File)

def IsConst (symbol : Symbol) : Prop :=
  ∃ declarator, file.declaration symbol = .variableDeclarator declarator ∧ declarator.kind = .const

def loopsOver (symbol : Symbol) : Nat :=
  (file.loops.map fun loop => transparentExpression loop.right).countP fun right =>
    match right with
    | .identifier (some other) => other = symbol
    | _ => false

/-- Other code comes to what a name holds: another file by the export, this one by a reference that
is not a loop's, or who gave it. -/
def Reached (symbol : Symbol) (value : Value) : Prop :=
  file.exported symbol ∨ file.loopsOver symbol < file.references.count symbol ∨
    ∃ items, value = .held items

/-- A declarator binds the names it declares; a `var` may be declared by another as well. -/
def Declares (declarator : VariableDeclarator) (symbol : Symbol) : Prop :=
  file.declaration symbol = .variableDeclarator declarator ∨ ¬ file.IsConst symbol

def Evaluates (declarator : VariableDeclarator) (bindings : List (Symbol × Value)) : Prop :=
  (∀ binding ∈ bindings, file.Declares declarator binding.1) ∧
    ∀ init, declarator.init = some init → ∃ value, Yields init value ∧
      Binds declarator.id value bindings

inductive Step : State → State → Prop where
  | declare {declarator : VariableDeclarator} {bindings : List (Symbol × Value)} (state : State)
      (evaluates : file.Evaluates declarator bindings) : Step state (state ++ bindings)
  | bind {symbol : Symbol} (value : Value) (state : State)
      (declared : file.declaration symbol = .other) : Step state (state ++ [(symbol, value)])
  | assign {state : State} {index : Nat} {symbol : Symbol} {value : Value} (assigned : Value)
      (bound : state[index]? = some (symbol, value)) (free : ¬ file.IsConst symbol) :
      Step state (state.set index (symbol, assigned))
  | change {state : State} {index : Nat} {symbol : Symbol} {value : Value} {items : List Value}
      (changed : List Value) (bound : state[index]? = some (symbol, value))
      (iterated : value.items = some items) (reached : file.Reached symbol value) :
      Step state (state.set index (symbol, .held changed))

/-- The states that a run comes to, in whatever order things happen. -/
def Occurs (state : State) : Prop := Relation.ReflTransGen file.Step [] state

end File

/-- What a loop goes over that is evaluated now and does not throw. -/
inductive Iterates (state : State) : Expression → List Value → Prop where
  | parenthesized {expression : Expression} {items : List Value}
      (inner : Iterates state expression items) : Iterates state (.parenthesized expression) items
  | array {elements : List Element} {items : List Value} (each : YieldsAll elements items) :
      Iterates state (.array elements) items
  | bound {symbol : Symbol} {value : Value} {items : List Value} (bound : (symbol, value) ∈ state)
      (iterated : value.items = some items) : Iterates state (.identifier (some symbol)) items
  | «global» (items : List Value) : Iterates state (.identifier none) items
  | other (items : List Value) : Iterates state .other items

end Runs

section Literals

theorem YieldsAll.ne_nil {elements : List Element} {items : List Value}
    (yields : YieldsAll elements items) (definite : hasDefiniteElement elements) : items ≠ [] := by
  induction elements generalizing items with
  | nil => cases definite
  | cons element elements ih =>
    cases yields with
    | spread argument spread rest =>
      intro empty
      exact ih rest definite (List.append_eq_nil_iff.mp empty).2
    | elision rest => exact List.cons_ne_nil _ _
    | item first rest => exact List.cons_ne_nil _ _

theorem iterates_transparent {state : State} {expression : Expression} {items : List Value} :
    Iterates state expression items ↔ Iterates state (transparentExpression expression) items := by
  fun_induction transparentExpression expression with
  | case1 expression ih =>
    rw [← ih]
    constructor
    · rintro ⟨inner⟩
      assumption
    · exact Iterates.parenthesized
  | case2 => rfl

end Literals

namespace File

variable {file : File}

def Gives (file : File) (symbol : Symbol) (value : Value) : Prop :=
  ∃ declarator bindings, file.declaration symbol = .variableDeclarator declarator ∧
    file.Evaluates declarator bindings ∧ (symbol, value) ∈ bindings

/-- What a constant is bound to, where it can be iterated, is an array with an element that no other
code is given, and no other file reaches it. -/
def Kept (file : File) (symbol : Symbol) : Prop :=
  ∀ value items, file.Gives symbol value → value.items = some items →
    value = .array items ∧ items ≠ [] ∧ file.exported symbol = false

/-- No loop that is said to be entered, whenever it is evaluated, has no iteration. -/
def NeverZero (file : File) : Prop :=
  ∀ state, file.Occurs state → ∀ loop ∈ file.loops, file.neverEmpty loop.right →
    ∀ items, Iterates state loop.right items → items ≠ []

section Constants

theorem neverEmpty_identifier {right : Expression} {symbol : Symbol}
    (names : transparentExpression right = .identifier (some symbol))
    (answered : file.neverEmpty right) :
    file.references.count symbol = 1 ∧ ∃ declarator init,
      file.declaration symbol = .variableDeclarator declarator ∧ declarator.kind = .const ∧
        declarator.init = some init ∧ isDefiniteArray init := by
  unfold neverEmpty at answered
  rw [names] at answered
  dsimp only at answered
  split at answered
  · cases answered
  · next once =>
    refine ⟨not_not.mp once, ?_⟩
    split at answered
    · next declarator declared =>
      rw [Bool.and_eq_true, decide_eq_true_eq, Option.any_eq_true] at answered
      obtain ⟨const, init, initial, definite⟩ := answered
      exact ⟨declarator, init, declared, const, initial, definite⟩
    · cases answered

theorem loopsOver_pos {loop : ForOf} (member : loop ∈ file.loops) {symbol : Symbol}
    (names : transparentExpression loop.right = .identifier (some symbol)) :
    0 < file.loopsOver symbol := by
  unfold loopsOver
  rw [List.countP_pos_iff]
  refine ⟨_, List.mem_map_of_mem member, ?_⟩
  rw [names]
  exact decide_eq_true rfl

theorem reached_iff {loop : ForOf} (member : loop ∈ file.loops) {symbol : Symbol}
    (names : transparentExpression loop.right = .identifier (some symbol))
    (answered : file.neverEmpty loop.right) (value : Value) :
    file.Reached symbol value ↔ file.exported symbol ∨ ∃ items, value = .held items := by
  have once := (neverEmpty_identifier names answered).1
  have counted := loopsOver_pos member names
  unfold Reached
  rw [once, or_congr_right]
  exact or_iff_right (by omega)

end Constants

section Runs

/-- What a name holds is an array with an element that no other code is given, or what cannot be
iterated. -/
def Holds (file : File) (state : State) (symbol : Symbol) : Prop :=
  ∀ value items, (symbol, value) ∈ state → value.items = some items →
    value = .array items ∧ items ≠ [] ∧ file.exported symbol = false

theorem holds_step {loop : ForOf} (member : loop ∈ file.loops) {symbol : Symbol}
    (names : transparentExpression loop.right = .identifier (some symbol))
    (answered : file.neverEmpty loop.right) (kept : file.Kept symbol) {state later : State}
    (step : file.Step state later) (holds : file.Holds state symbol) : file.Holds later symbol := by
  obtain ⟨_, declarator, init, declared, const, _⟩ := neverEmpty_identifier names answered
  have isConst : file.IsConst symbol := ⟨declarator, declared, const⟩
  intro value items bound iterated
  cases step with
  | declare _ evaluates =>
    rcases List.mem_append.mp bound with before | now
    · exact holds value items before iterated
    · rcases evaluates.1 _ now with declares | free
      · exact kept value items ⟨_, _, declares, evaluates, now⟩ iterated
      · exact absurd isConst free
  | bind other _ another =>
    rcases List.mem_append.mp bound with before | now
    · exact holds value items before iterated
    · cases List.mem_singleton.mp now
      rw [declared] at another
      cases another
  | assign assigned before free =>
    rcases List.mem_or_eq_of_mem_set bound with same | now
    · exact holds value items same iterated
    · cases now
      exact absurd isConst free
  | @change _ index name old was changed before whole reached =>
    rcases List.mem_or_eq_of_mem_set bound with same | now
    · exact holds value items same iterated
    · cases now
      obtain ⟨fresh, _, unexported⟩ := holds old was (List.mem_of_getElem? before) whole
      rcases (reached_iff member names answered old).mp reached with exported | ⟨held, given⟩
      · rw [unexported] at exported
        cases exported
      · rw [given] at fresh
        cases fresh

theorem holds_occurs {loop : ForOf} (member : loop ∈ file.loops) {symbol : Symbol}
    (names : transparentExpression loop.right = .identifier (some symbol))
    (answered : file.neverEmpty loop.right) (kept : file.Kept symbol) {state : State}
    (occurs : file.Occurs state) : file.Holds state symbol := by
  induction occurs with
  | refl => exact fun _ _ bound => absurd bound List.not_mem_nil
  | tail _ step holds => exact holds_step member names answered kept step holds

theorem exists_empty {symbol : Symbol} {value : Value} {items : List Value}
    (given : file.Gives symbol value) (iterated : value.items = some items)
    (unkept : ¬ (value = .array items ∧ items ≠ [] ∧ file.exported symbol = false)) :
    ∃ state, file.Occurs state ∧ Iterates state (.identifier (some symbol)) [] := by
  obtain ⟨declarator, bindings, _, evaluates, among⟩ := given
  have declared : file.Occurs bindings := .single (.declare [] evaluates)
  by_cases reached : file.Reached symbol value
  · obtain ⟨index, bound⟩ := List.getElem?_of_mem among
    have inside : index < bindings.length := (List.getElem?_eq_some_iff.mp bound).1
    have emptied : (symbol, Value.held []) ∈ bindings.set index (symbol, .held []) :=
      List.mem_iff_getElem?.mpr ⟨index, List.getElem?_set_self inside⟩
    exact ⟨_, declared.tail (.change [] bound iterated reached), .bound emptied rfl⟩
  · refine ⟨bindings, declared, .bound among ?_⟩
    rw [iterated]
    cases value with
    | undefined => cases iterated
    | object => cases iterated
    | held => exact absurd (.inr (.inr ⟨_, rfl⟩)) reached
    | array fresh =>
      cases iterated
      have unexported : file.exported symbol = false :=
        Bool.eq_false_iff.mpr fun exported => reached (.inl exported)
      by_contra filled
      exact unkept ⟨rfl, fun empty => filled (congrArg some empty), unexported⟩

/-- The loops that are said to be entered are, exactly where each constant that one of them goes
over is given an array of its own with an element in it and is not exported. -/
theorem neverZero_iff_kept (file : File) :
    file.NeverZero ↔ ∀ loop ∈ file.loops, file.neverEmpty loop.right →
      ∀ symbol, transparentExpression loop.right = .identifier (some symbol) →
        file.Kept symbol := by
  constructor
  · intro never loop member answered symbol names value items given iterated
    by_contra unkept
    obtain ⟨state, occurs, empty⟩ := exists_empty given iterated unkept
    rw [← names, ← iterates_transparent] at empty
    exact never state occurs loop member answered [] empty rfl
  · intro kept state occurs loop member answered items iterates
    rw [iterates_transparent] at iterates
    cases names : transparentExpression loop.right with
    | array elements =>
      rw [names] at iterates
      cases iterates with
      | array each =>
        apply each.ne_nil
        unfold neverEmpty at answered
        rw [names] at answered
        exact answered
    | identifier symbol =>
      rw [names] at iterates
      cases iterates with
      | bound bound iterated =>
        have holds := holds_occurs member names answered (kept loop member answered _ names) occurs
        exact (holds _ _ bound iterated).2.1
      | «global» =>
        unfold neverEmpty at answered
        rw [names] at answered
        cases answered
    | parenthesized expression =>
      unfold neverEmpty at answered
      rw [names] at answered
      cases answered
    | other =>
      unfold neverEmpty at answered
      rw [names] at answered
      cases answered

end Runs

end File

/-- `const [a] = [[]]; for (const x of a) {}` -/
def destructured : File where
  loops := [⟨(18, 39), .identifier (some 0)⟩]
  declaration := fun _ => .variableDeclarator
    ⟨.const, .array [some (.name 0)] none, some (.array [.item (.array [])])⟩
  references := [0]
  exported := fun _ => false

theorem not_neverZero_destructured : ¬ destructured.NeverZero := by
  intro never
  have evaluates : destructured.Evaluates
      ⟨.const, .array [some (.name 0)] none, some (.array [.item (.array [])])⟩
      [(0, .array [])] := by
    refine ⟨fun binding _ => .inl rfl, ?_⟩
    intro init initial
    cases initial
    exact ⟨.array [.array []], .array (.item (.array .nil) .nil),
      .array rfl (.element (.name 0 _) (.nil _))⟩
  have occurs : destructured.Occurs [(0, .array [])] := .single (.declare [] evaluates)
  have iterates : Iterates [(0, .array [])] (.identifier (some 0)) [] :=
    .bound List.mem_cons_self rfl
  exact never _ occurs _ List.mem_cons_self rfl [] iterates rfl

end Supercov.Js.Entered
