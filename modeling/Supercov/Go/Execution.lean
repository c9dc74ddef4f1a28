import Mathlib.Logic.Function.Basic
import Supercov.Go.Switches

/-!
# Runs of Go code

What expressions and statements do is the meaning's: what stands at a place enters its children,
calls functions of the file, finds the clause of a switch, ends or leaves.  Statements in a list,
a `goto` into one, the clauses of a switch and what was inserted run as Go has them.  A meaning
need not be deterministic, and other goroutines are in what it finds in memory; a run cut short is
one that leaves.
-/

namespace Supercov.Go

open PlacedTree (Place)

/-- An alternative of a switch: a clause, or after the last that none was matched. -/
abbrev Alternative := Place × Nat

abbrev Flags := Place → Bool

def quiet : Flags := fun _ => false

def Inserted.run : Inserted → Flags → Flags × List Alternative
  | .declare switch, flags => (Function.update flags switch false, [])
  | .fell switch, flags => (Function.update flags switch true, [])
  | .hit switch alternative, flags => (flags, [(switch, alternative)])
  | .hitUnlessFell switch alternative, flags =>
    if flags switch then (Function.update flags switch false, [])
    else (flags, [(switch, alternative)])

def runInserted : List Inserted → Flags → Flags × List Alternative
  | [], flags => (flags, [])
  | inserted :: rest, flags =>
    let first := inserted.run flags
    let last := runInserted rest first.1
    (last.1, first.2 ++ last.2)

/-- What is inserted before statements, at the ends of clauses without one and into the added
`default` clauses, from the left to the right. -/
structure Insertions where
  before : Place → List Inserted
  closing : Place → List Inserted
  synthesized : Place → List Inserted

/-- The source as it is. -/
def Insertions.none : Insertions where
  before _ := []
  closing _ := []
  synthesized _ := []

def standingAt (edits : List SwitchEdit) (anchor : Anchor) : List Inserted :=
  ((Woven.leftToRight (fun edit => edit.edit.offset) (fun edit => edit.edit.rank) edits).filter
    fun edit => edit.anchor = anchor).map SwitchEdit.inserted

def insertionsOf (edits : List SwitchEdit) : Insertions where
  before place := standingAt edits (.statement place)
  closing place := standingAt edits (.clauseEnd place)
  synthesized place := standingAt edits (.brace place)

inductive Outcome (Exit : Type) where
  | next
  | fell
  | left (exit : Exit)

inductive Action (Exit : Type) where
  | enter (index : Nat)
  | call (function : Place)
  | select (clause : Option Nat)
  | finish
  | leave (exit : Exit)

structure Meaning where
  Memory : Type
  Control : Type
  Exit : Type
  begins : Place → Control
  called : Place → Control
  acts : Place → Control → Memory → Action Exit → Control → Memory → Prop
  resumes : Control → Outcome Exit → Control
  /-- The statement of a list that a `goto` out of another one names. -/
  lands : Place → Exit → Option Nat

/-- What is being run.  A statement that a `goto` lands on is run without what is inserted before
its label. -/
inductive Task (Control : Type) where
  | node (place : Place)
  | bare (place : Place)
  | rest (place : Place) (index : Nat) (landed : Bool)
  | auto (place : Place) (control : Control)
  | clause (switch : Place) (index : Nat)

def Task.item {Control : Type} (landed : Bool) (place : Place) : Task Control :=
  if landed then .bare place else .node place

section

variable (root : Node) (insertions : Insertions) (meaning : Meaning)

def kindAt (place : Place) : Option Kind := (root.subtree? place).map Node.kind

/-- A child that is entered: the statements of a clause are not, they are selected. -/
def Enters (place : Place) (index : Nat) : Prop :=
  ∃ parent child, kindAt root place = some parent ∧ kindAt root (index :: place) = some child ∧
    ¬ (parent.isCase ∧ child = .statementList)

def clausesOfPlace (place : Place) : List Clause :=
  match root.subtree? place with
  | some node => if (Node.kind node).isSwitch then clausesAt place node else []
  | none => []

inductive Runs : Task meaning.Control → Flags → meaning.Memory → Outcome meaning.Exit → Flags →
    meaning.Memory → List Alternative → List Alternative → Prop
  | node {place flags flags₁ flags₂ memory memory₂ outcome selected recorded recorded₁}
      (inserted : runInserted (insertions.before place) flags = (flags₁, recorded₁))
      (runs : Runs (.bare place) flags₁ memory outcome flags₂ memory₂ selected recorded) :
      Runs (.node place) flags memory outcome flags₂ memory₂ selected (recorded₁ ++ recorded)
  | fallthrough {place flags memory} (has : kindAt root place = some .fallthroughStatement) :
      Runs (.bare place) flags memory .fell flags memory [] []
  | list {place flags flags₁ memory memory₁ outcome selected recorded}
      (has : kindAt root place = some .statementList)
      (runs : Runs (.rest place 0 false) flags memory outcome flags₁ memory₁ selected recorded) :
      Runs (.bare place) flags memory outcome flags₁ memory₁ selected recorded
  | other {place kind flags flags₁ memory memory₁ outcome selected recorded}
      (has : kindAt root place = some kind) (statement : kind ≠ .fallthroughStatement)
      (single : kind ≠ .statementList)
      (runs : Runs (.auto place (meaning.begins place)) flags memory outcome flags₁ memory₁ selected
        recorded) :
      Runs (.bare place) flags memory outcome flags₁ memory₁ selected recorded
  | restEnd {place list index landed flags memory} (stands : root.subtree? place = some list)
      (ended : list.children.length ≤ index) :
      Runs (.rest place index landed) flags memory .next flags memory [] []
  | restNext {place index landed flags flags₁ flags₂ memory memory₁ memory₂ outcome selected
        selected₁ recorded recorded₁}
      (first : Runs (.item landed (index :: place)) flags memory .next flags₁ memory₁ selected₁
        recorded₁)
      (rest : Runs (.rest place (index + 1) false) flags₁ memory₁ outcome flags₂ memory₂ selected
        recorded) :
      Runs (.rest place index landed) flags memory outcome flags₂ memory₂ (selected₁ ++ selected)
        (recorded₁ ++ recorded)
  | restFell {place index landed flags flags₁ memory memory₁ selected recorded}
      (first : Runs (.item landed (index :: place)) flags memory .fell flags₁ memory₁ selected
        recorded) :
      Runs (.rest place index landed) flags memory .fell flags₁ memory₁ selected recorded
  | restLeft {place index landed flags flags₁ memory memory₁ exit selected recorded}
      (first : Runs (.item landed (index :: place)) flags memory (.left exit) flags₁ memory₁
        selected recorded) (beyond : meaning.lands place exit = none) :
      Runs (.rest place index landed) flags memory (.left exit) flags₁ memory₁ selected recorded
  | restLand {place index landed target flags flags₁ flags₂ memory memory₁ memory₂ exit outcome
        selected selected₁ recorded recorded₁}
      (first : Runs (.item landed (index :: place)) flags memory (.left exit) flags₁ memory₁
        selected₁ recorded₁) (lands : meaning.lands place exit = some target)
      (label : kindAt root (target :: place) = some .labeledStatement)
      (rest : Runs (.rest place target true) flags₁ memory₁ outcome flags₂ memory₂ selected
        recorded) :
      Runs (.rest place index landed) flags memory outcome flags₂ memory₂ (selected₁ ++ selected)
        (recorded₁ ++ recorded)
  | finish {place control control₁ flags memory memory₁}
      (acts : meaning.acts place control memory .finish control₁ memory₁) :
      Runs (.auto place control) flags memory .next flags memory₁ [] []
  | leave {place control control₁ flags memory memory₁ exit}
      (acts : meaning.acts place control memory (.leave exit) control₁ memory₁) :
      Runs (.auto place control) flags memory (.left exit) flags memory₁ [] []
  | enterFell {place control control₁ index flags flags₁ memory memory₁ memory₂ selected recorded}
      (acts : meaning.acts place control memory (.enter index) control₁ memory₁)
      (enters : Enters root place index)
      (child : Runs (.node (index :: place)) flags memory₁ .fell flags₁ memory₂ selected recorded) :
      Runs (.auto place control) flags memory .fell flags₁ memory₂ selected recorded
  | enter {place control control₁ index flags flags₁ flags₂ memory memory₁ memory₂ memory₃ outcome
        outcome₁ selected selected₁ recorded recorded₁}
      (acts : meaning.acts place control memory (.enter index) control₁ memory₁)
      (enters : Enters root place index)
      (child : Runs (.node (index :: place)) flags memory₁ outcome₁ flags₁ memory₂ selected₁
        recorded₁) (ended : outcome₁ ≠ .fell)
      (rest : Runs (.auto place (meaning.resumes control₁ outcome₁)) flags₁ memory₂ outcome flags₂
        memory₃ selected recorded) :
      Runs (.auto place control) flags memory outcome flags₂ memory₃ (selected₁ ++ selected)
        (recorded₁ ++ recorded)
  | call {place control control₁ function kind flags flags₁ flags₂ memory memory₁ memory₂ memory₃
        outcome outcome₁ selected selected₁ recorded recorded₁}
      (acts : meaning.acts place control memory (.call function) control₁ memory₁)
      (has : kindAt root function = some kind) (isFunction : kind.isFunction)
      (body : Runs (.auto function (meaning.called function)) quiet memory₁ outcome₁ flags₁ memory₂
        selected₁ recorded₁)
      (rest : Runs (.auto place (meaning.resumes control₁ outcome₁)) flags memory₂ outcome flags₂
        memory₃ selected recorded) :
      Runs (.auto place control) flags memory outcome flags₂ memory₃ (selected₁ ++ selected)
        (recorded₁ ++ recorded)
  | select {place control control₁ index flags flags₁ flags₂ memory memory₁ memory₂ memory₃ outcome
        outcome₁ selected selected₁ recorded recorded₁}
      (acts : meaning.acts place control memory (.select (some index)) control₁ memory₁)
      (clause : Runs (.clause place index) flags memory₁ outcome₁ flags₁ memory₂ selected₁ recorded₁)
      (rest : Runs (.auto place (meaning.resumes control₁ outcome₁)) flags₁ memory₂ outcome flags₂
        memory₃ selected recorded) :
      Runs (.auto place control) flags memory outcome flags₂ memory₃
        ((place, index) :: (selected₁ ++ selected)) (recorded₁ ++ recorded)
  | selectNone {place switch control control₁ flags flags₁ flags₂ memory memory₁ memory₂ outcome
        selected recorded recorded₁}
      (acts : meaning.acts place control memory (.select none) control₁ memory₁)
      (stands : root.subtree? place = some switch) (isSwitch : (Node.kind switch).isSwitch)
      (unguarded : needsDefault switch)
      (inserted : runInserted (insertions.synthesized place) flags = (flags₁, recorded₁))
      (rest : Runs (.auto place (meaning.resumes control₁ .next)) flags₁ memory₁ outcome flags₂
        memory₂ selected recorded) :
      Runs (.auto place control) flags memory outcome flags₂ memory₂
        ((place, (clausesAt place switch).length) :: selected) (recorded₁ ++ recorded)
  | clauseBody {switch index clause body flags flags₁ memory memory₁ outcome selected recorded}
      (stands : (clausesOfPlace root switch)[index]? = some clause)
      (holds : clause.statements = some body)
      (runs : Runs (.bare body.1) flags memory outcome flags₁ memory₁ selected recorded)
      (ended : outcome ≠ .fell) :
      Runs (.clause switch index) flags memory outcome flags₁ memory₁ selected recorded
  | clauseFell {switch index clause body flags flags₁ flags₂ memory memory₁ memory₂ outcome selected
        selected₁ recorded recorded₁}
      (stands : (clausesOfPlace root switch)[index]? = some clause)
      (holds : clause.statements = some body)
      (runs : Runs (.bare body.1) flags memory .fell flags₁ memory₁ selected₁ recorded₁)
      (after : Runs (.clause switch (index + 1)) flags₁ memory₁ outcome flags₂ memory₂ selected
        recorded) :
      Runs (.clause switch index) flags memory outcome flags₂ memory₂ (selected₁ ++ selected)
        (recorded₁ ++ recorded)
  | clauseEmpty {switch index clause flags flags₁ memory recorded}
      (stands : (clausesOfPlace root switch)[index]? = some clause)
      (holds : clause.statements = none)
      (inserted : runInserted (insertions.closing clause.place) flags = (flags₁, recorded)) :
      Runs (.clause switch index) flags memory .next flags₁ memory [] recorded

variable {root insertions meaning}

theorem Runs.transfer {task : Task meaning.Control} {flags flags' : Flags}
    {memory memory' : meaning.Memory} {outcome : Outcome meaning.Exit}
    {selected recorded : List Alternative} (other : Insertions)
    (runs : Runs root insertions meaning task flags memory outcome flags' memory' selected recorded) :
    ∀ start, ∃ last recorded',
      Runs root other meaning task start memory outcome last memory' selected recorded' := by
  induction runs with
  | node inserted runs ih =>
    intro start
    obtain ⟨last, recorded', runs⟩ := ih (runInserted (other.before _) start).1
    exact ⟨last, _, .node rfl runs⟩
  | fallthrough has => exact fun start => ⟨start, [], .fallthrough has⟩
  | list has runs ih =>
    intro start
    obtain ⟨last, recorded', runs⟩ := ih start
    exact ⟨last, recorded', .list has runs⟩
  | other has statement single runs ih =>
    intro start
    obtain ⟨last, recorded', runs⟩ := ih start
    exact ⟨last, recorded', .other has statement single runs⟩
  | restEnd stands ended => exact fun start => ⟨start, [], .restEnd stands ended⟩
  | restNext first rest ih ih' =>
    intro start
    obtain ⟨middle, recorded₁, first⟩ := ih start
    obtain ⟨last, recorded₂, rest⟩ := ih' middle
    exact ⟨last, _, .restNext first rest⟩
  | restFell first ih =>
    intro start
    obtain ⟨last, recorded', first⟩ := ih start
    exact ⟨last, recorded', .restFell first⟩
  | restLeft first beyond ih =>
    intro start
    obtain ⟨last, recorded', first⟩ := ih start
    exact ⟨last, recorded', .restLeft first beyond⟩
  | restLand first lands label rest ih ih' =>
    intro start
    obtain ⟨middle, recorded₁, first⟩ := ih start
    obtain ⟨last, recorded₂, rest⟩ := ih' middle
    exact ⟨last, _, .restLand first lands label rest⟩
  | finish acts => exact fun start => ⟨start, [], .finish acts⟩
  | leave acts => exact fun start => ⟨start, [], .leave acts⟩
  | enterFell acts enters child ih =>
    intro start
    obtain ⟨last, recorded', child⟩ := ih start
    exact ⟨last, recorded', .enterFell acts enters child⟩
  | enter acts enters child ended rest ih ih' =>
    intro start
    obtain ⟨middle, recorded₁, child⟩ := ih start
    obtain ⟨last, recorded₂, rest⟩ := ih' middle
    exact ⟨last, _, .enter acts enters child ended rest⟩
  | call acts has isFunction body rest ih ih' =>
    intro start
    obtain ⟨_, recorded₁, body⟩ := ih quiet
    obtain ⟨last, recorded₂, rest⟩ := ih' start
    exact ⟨last, _, .call acts has isFunction body rest⟩
  | select acts clause rest ih ih' =>
    intro start
    obtain ⟨middle, recorded₁, clause⟩ := ih start
    obtain ⟨last, recorded₂, rest⟩ := ih' middle
    exact ⟨last, _, .select acts clause rest⟩
  | selectNone acts stands isSwitch unguarded inserted rest ih =>
    intro start
    obtain ⟨last, recorded', rest⟩ := ih (runInserted (other.synthesized _) start).1
    exact ⟨last, _, .selectNone acts stands isSwitch unguarded rfl rest⟩
  | clauseBody stands holds runs ended ih =>
    intro start
    obtain ⟨last, recorded', runs⟩ := ih start
    exact ⟨last, recorded', .clauseBody stands holds runs ended⟩
  | clauseFell stands holds runs after ih ih' =>
    intro start
    obtain ⟨middle, recorded₁, runs⟩ := ih start
    obtain ⟨last, recorded₂, after⟩ := ih' middle
    exact ⟨last, _, .clauseFell stands holds runs after⟩
  | clauseEmpty stands holds inserted =>
    exact fun start => ⟨_, _, .clauseEmpty stands holds rfl⟩

end

end Supercov.Go
