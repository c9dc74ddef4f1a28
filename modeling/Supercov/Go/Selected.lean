import Supercov.Go.Anchored

/-!
# Clauses recorded as selected

While no flag is set a run records what it selects and leaves no flag set; only from a
`fallthrough` to the clause after it is one set, the flag of the switch of both.
-/

open scoped List

namespace Supercov.Go

open PlacedTree (Place)

def armed (switch : Place) : Flags := Function.update quiet switch true

/-- The `fallthrough` that a clause ends with. -/
def EndsClause (root : Node) (switch : Place) (number : Nat) (place : Place) : Prop :=
  ∃ node clause last, root.subtree? switch = some node ∧ (Node.kind node).isSwitch = true ∧
    (clausesAt switch node)[number]? = some clause ∧ clause.fallthrough = some (place, last)

/-- Every `fallthrough` is the last that is named in the statements of a clause. -/
def FallthroughsLast (root : Node) : Prop :=
  ∀ place, kindAt root place = some .fallthroughStatement →
    ∃ switch number, EndsClause root switch number place

def FallenInto (root : Node) (switch : Place) (number : Nat) : Prop :=
  ∃ node, root.subtree? switch = some node ∧ fallenInto (clausesAt switch node) number = true

section Bodies

variable {root : Node} {switch list : Place} {number : Nat}

theorem IsBody.kindAt (body : IsBody root switch number list) :
    kindAt root list = some .statementList := by
  obtain ⟨node, clause, body, stands, isSwitch, numbered, holds⟩ := body
  obtain ⟨index, child, kind, rfl⟩ := clause.statements_eq_some holds
  rw [Go.kindAt, PlacedTree.subtree?_cons,
    clausesAt_subtree? stands (List.mem_of_getElem? numbered), ← kind]
  exact congrArg (Option.map Node.kind) child

theorem IsBody.unique {switch' : Place} {number' : Nat} (body : IsBody root switch number list)
    (other : IsBody root switch' number' list) : switch' = switch ∧ number' = number := by
  obtain ⟨node, clause, body, stands, isSwitch, numbered, holds⟩ := body
  obtain ⟨node', clause', body', stands', isSwitch', numbered', holds'⟩ := other
  obtain ⟨index, -, -, at'⟩ := clause.statements_eq_some holds
  obtain ⟨index', -, -, at''⟩ := clause'.statements_eq_some holds'
  have places : clause'.place = clause.place := (List.cons.inj (at''.symm.trans at')).2
  have among := List.mem_of_getElem? numbered
  obtain ⟨place, -, -, here⟩ := mem_clausesAt.mp among
  obtain ⟨place', -, -, here'⟩ := mem_clausesAt.mp (List.mem_of_getElem? numbered')
  cases (List.cons.inj (here'.symm.trans (places.trans here))).2
  cases stands.symm.trans stands'
  cases clause_eq_of_place (List.mem_of_getElem? numbered') among places
  exact ⟨rfl, (List.getElem?_inj (List.getElem?_eq_some_iff.mp numbered').1
    (nodup_clausesAt switch node)).mp (numbered'.trans numbered.symm)⟩

theorem EndsClause.isBody {index : Nat} (ends : EndsClause root switch number (index :: list)) :
    IsBody root switch number list := by
  obtain ⟨node, clause, last, stands, isSwitch, numbered, ends⟩ := ends
  obtain ⟨bodyPlace, body, index', holds, -, -, same⟩ := clause.fallthrough_eq_some ends
  cases same
  exact ⟨node, clause, body, stands, isSwitch, numbered, holds⟩

theorem EndsClause.kindAt {place : Place} (ends : EndsClause root switch number place) :
    kindAt root place = some .fallthroughStatement := by
  obtain ⟨node, clause, last, stands, isSwitch, numbered, ends⟩ := ends
  obtain ⟨bodyPlace, body, index, holds, child, kind, rfl⟩ := clause.fallthrough_eq_some ends
  obtain ⟨index', child', -, rfl⟩ := clause.statements_eq_some holds
  rw [Go.kindAt, PlacedTree.subtree?_cons, PlacedTree.subtree?_cons,
    clausesAt_subtree? stands (List.mem_of_getElem? numbered), ← kind, Option.bind_some, child']
  exact congrArg (Option.map Node.kind) child

theorem IsBody.isCase {index : Nat} (body : IsBody root switch number (index :: list)) :
    ∃ kind, Go.kindAt root list = some kind ∧ kind.isCase = true := by
  obtain ⟨node, clause, body, stands, isSwitch, numbered, holds⟩ := body
  obtain ⟨index', -, -, same⟩ := clause.statements_eq_some holds
  cases same
  have among := List.mem_of_getElem? numbered
  obtain ⟨-, -, isCase, -⟩ := mem_clausesAt.mp among
  exact ⟨_, congrArg (Option.map Node.kind) (clausesAt_subtree? stands among), isCase⟩

theorem EndsClause.fallenInto {place : Place} (ends : EndsClause root switch number place) :
    FallenInto root switch (number + 1) := by
  obtain ⟨node, clause, last, stands, isSwitch, numbered, ends⟩ := ends
  refine ⟨node, stands, ?_⟩
  rw [Go.fallenInto, Nat.add_sub_cancel, numbered, Option.any_some, ends]
  simp

end Bodies

section Before

variable {runtime : String} {probe : Place → Nat → Nat} {root : Node}

theorem update_armed (switch : Place) : Function.update (armed switch) switch false = quiet := by
  rw [armed, Function.update_idem]
  exact Function.update_eq_self switch quiet

def Readied (root : Node) (switch : Place) (number : Nat) (place : Place) (flags : Flags) : Prop :=
  (EndsClause root switch number place → flags = armed switch) ∧
    (¬ EndsClause root switch number place → flags = quiet)

theorem endsClause_iff {switch place : Place} {number : Nat} {node : Node} {clause : Clause}
    (stands : root.subtree? switch = some node) (isSwitch : (Node.kind node).isSwitch = true)
    (numbered : (clausesAt switch node)[number]? = some clause) :
    EndsClause root switch number place ↔ clause.fallthrough.map Prod.fst = some place := by
  constructor
  · rintro ⟨node', clause', last, stands', isSwitch', numbered', ends⟩
    cases stands.symm.trans stands'
    cases numbered.symm.trans numbered'
    rw [ends]
    rfl
  · intro ends
    obtain ⟨⟨place, last⟩, found, rfl⟩ := Option.map_eq_some_iff.mp ends
    exact ⟨node, clause, last, stands, isSwitch, numbered, found⟩

theorem before_selected (parsed : Parsed root) {switch list : Place} {number : Nat}
    (body : IsBody root switch number list) (index : Nat) :
    ∃ flags, runInserted (standingAt (allSwitchEdits runtime probe root)
        (.statement (index :: list))) quiet =
      (flags, if index = 0 then [(switch, number)] else []) ∧
      Readied root switch number (index :: list) flags := by
  obtain ⟨node, clause, body, stands, isSwitch, numbered, holds⟩ := body
  have run : runInserted (standingAt (allSwitchEdits runtime probe root)
      (.statement (index :: list))) quiet = _ :=
    runInserted_child parsed stands isSwitch numbered holds index fun _ _ => rfl
  have ending : EndsClause root switch number (index :: list) ↔ _ :=
    endsClause_iff stands isSwitch numbered
  rw [run]
  by_cases ends : clause.fallthrough.map Prod.fst = some (index :: list)
  · refine ⟨armed switch, ?_, fun _ => rfl, fun other => absurd (ending.mpr ends) other⟩
    rw [if_pos ends]
    split <;> cases fallenInto (clausesAt switch node) number <;>
      simp [runInserted, Inserted.run, quiet, armed]
  · refine ⟨quiet, ?_, fun other => absurd (ending.mp other) ends, fun _ => rfl⟩
    rw [if_neg ends]
    split <;> cases fallenInto (clausesAt switch node) number <;>
      simp [runInserted, Inserted.run, quiet]

theorem before_fallen (parsed : Parsed root) {switch list : Place} {number : Nat}
    (body : IsBody root switch number list) (fallen : FallenInto root switch number) :
    ∃ flags, runInserted (standingAt (allSwitchEdits runtime probe root) (.statement (0 :: list)))
        (armed switch) = (flags, []) ∧ Readied root switch number (0 :: list) flags := by
  obtain ⟨node, clause, body, stands, isSwitch, numbered, holds⟩ := body
  obtain ⟨node', stands', fallen⟩ := fallen
  cases stands.symm.trans stands'
  have run : runInserted (standingAt (allSwitchEdits runtime probe root)
      (.statement (0 :: list))) (armed switch) = _ :=
    runInserted_child parsed stands isSwitch numbered holds 0
      fun _ differ => Function.update_of_ne differ _ _
  have set : armed switch switch = true := by rw [armed, Function.update_self]
  have ending : EndsClause root switch number (0 :: list) ↔ _ :=
    endsClause_iff stands isSwitch numbered
  rw [run, fallen, if_pos rfl, if_pos rfl]
  by_cases ends : clause.fallthrough.map Prod.fst = some (0 :: list)
  · refine ⟨armed switch, ?_, fun _ => rfl, fun other => absurd (ending.mpr ends) other⟩
    rw [if_pos ends]
    simp only [List.singleton_append, runInserted, Inserted.run, set, if_true, update_armed,
      List.append_nil]
    rfl
  · refine ⟨quiet, ?_, fun other => absurd (ending.mp other) ends, fun _ => rfl⟩
    rw [if_neg ends]
    simp only [List.append_nil, runInserted, Inserted.run, set, if_true, update_armed]

end Before

section Invariant

variable (root : Node) {Exit : Type}

structure Settled (outcome : Outcome Exit) (flags : Flags) (selected recorded : List Alternative) :
    Prop where
  same : recorded = selected
  clear : flags = quiet
  past : outcome ≠ .fell

/-- How the statements of a clause end: with clear flags, or falling into the next one. -/
structure Ended (switch : Place) (number : Nat) (outcome : Outcome Exit) (flags : Flags) : Prop where
  past : outcome ≠ .fell → flags = quiet
  fell : outcome = .fell → flags = armed switch ∧ FallenInto root switch (number + 1)

/-- The statements of a list from its first, whose insertions record the clause, or from another
on. -/
structure Listed (list : Place) (first : Bool) (flags : Flags) (outcome : Outcome Exit)
    (flags' : Flags) (selected recorded : List Alternative) : Prop where
  matched : ∀ switch number, IsBody root switch number list → flags = quiet →
    recorded = (if first then [(switch, number)] else []) ++ selected ∧
      Ended root switch number outcome flags'
  fallen : ∀ switch number, IsBody root switch number list → first = true →
    FallenInto root switch number → flags = armed switch →
      recorded = selected ∧ Ended root switch number outcome flags'
  other : (∀ switch number, ¬ IsBody root switch number list) → flags = quiet →
    Settled outcome flags' selected recorded

structure Bare (place : Place) (flags : Flags) (outcome : Outcome Exit) (flags' : Flags)
    (selected recorded : List Alternative) : Prop where
  falls : kindAt root place = some .fallthroughStatement →
    flags' = flags ∧ outcome = .fell ∧ recorded = selected
  listed : kindAt root place = some .statementList →
    Listed root place true flags outcome flags' selected recorded
  other : kindAt root place ≠ some .fallthroughStatement →
    kindAt root place ≠ some .statementList → flags = quiet →
      Settled outcome flags' selected recorded

variable (insertions : Insertions)

/-- What is inserted before a statement runs first. -/
def Entered (place : Place) (flags : Flags) (outcome : Outcome Exit) (flags' : Flags)
    (selected recorded : List Alternative) : Prop :=
  ∃ flags₁ recorded₁ recorded₂, runInserted (insertions.before place) flags = (flags₁, recorded₁) ∧
    recorded = recorded₁ ++ recorded₂ ∧ Bare root place flags₁ outcome flags' selected recorded₂

/-- The invariant of every part of a run. -/
def Invariant {Control : Type} (task : Task Control) (flags : Flags) (outcome : Outcome Exit)
    (flags' : Flags) (selected recorded : List Alternative) : Prop :=
  match task with
  | .node place => Entered root insertions place flags outcome flags' selected recorded
  | .bare place => Bare root place flags outcome flags' selected recorded
  | .rest place index landed => kindAt root place = some .statementList →
    (landed = true → kindAt root (index :: place) = some .labeledStatement) →
      Listed root place (index = 0 && !landed) flags outcome flags' selected recorded
  | .auto place _ => kindAt root place ≠ some .statementList → flags = quiet →
      Settled outcome flags' selected recorded
  | .clause switch number =>
    (flags = quiet → Settled outcome flags' ((switch, number) :: selected) recorded) ∧
      (FallenInto root switch number → flags = armed switch →
        Settled outcome flags' selected recorded)

variable {root insertions} {flags flags' flags₁ : Flags} {outcome outcome₁ : Outcome Exit}
  {selected selected₁ recorded recorded₁ : List Alternative} {place list : Place} {index : Nat}

theorem Settled.ended {switch : Place} {number : Nat}
    (settled : Settled outcome flags selected recorded) : Ended root switch number outcome flags where
  past _ := settled.clear
  fell fell := absurd fell settled.past

theorem Settled.append (first : Settled outcome₁ flags₁ selected₁ recorded₁)
    (rest : Settled outcome flags selected recorded) :
    Settled outcome flags (selected₁ ++ selected) (recorded₁ ++ recorded) where
  same := by rw [first.same, rest.same]
  clear := rest.clear
  past := rest.past

theorem Listed.append {first : Bool}
    (before : Listed root list first flags outcome₁ flags₁ selected₁ recorded₁)
    (past : outcome₁ ≠ .fell) (rest : Listed root list false flags₁ outcome flags' selected recorded) :
    Listed root list first flags outcome flags' (selected₁ ++ selected) (recorded₁ ++ recorded) where
  matched switch number body clear := by
    obtain ⟨same, ended⟩ := before.matched switch number body clear
    obtain ⟨same', ended'⟩ := rest.matched switch number body (ended.past past)
    refine ⟨?_, ended'⟩
    rw [same, same', if_neg Bool.false_ne_true, List.nil_append, List.append_assoc]
  fallen switch number body isFirst into set := by
    obtain ⟨same, ended⟩ := before.fallen switch number body isFirst into set
    obtain ⟨same', ended'⟩ := rest.matched switch number body (ended.past past)
    refine ⟨?_, ended'⟩
    rw [same, same', if_neg Bool.false_ne_true, List.nil_append]
  other none clear :=
    (before.other none clear).append (rest.other none (before.other none clear).clear)

theorem Bare.settled (bare : Bare root place flags outcome flags' selected recorded)
    (single : kindAt root place ≠ some .fallthroughStatement)
    (none : ∀ switch number, ¬ IsBody root switch number place) (clear : flags = quiet) :
    Settled outcome flags' selected recorded := by
  by_cases list : kindAt root place = some .statementList
  · exact (bare.listed list).other none clear
  · exact bare.other single list clear

end Invariant

section Steps

variable {runtime : String} {probe : Place → Nat → Nat} {root : Node} {Control Exit : Type}
  {flags flags' : Flags} {outcome : Outcome Exit} {selected recorded : List Alternative}
  {place list : Place} {index : Nat}

theorem Entered.settled (last : FallthroughsLast root)
    (entered : Entered root (insertionsOf (allSwitchEdits runtime probe root)) (index :: place) flags
      outcome flags' selected recorded)
    (single : kindAt root place ≠ some .statementList) (enters : Enters root place index)
    (clear : flags = quiet) : Settled outcome flags' selected recorded := by
  obtain ⟨flags₁, recorded₁, recorded₂, inserted, rfl, bare⟩ := entered
  have outside : ∀ switch number, ¬ IsBody root switch number place := fun switch number body =>
    single body.kindAt
  rw [clear] at inserted
  cases (runInserted_other outside).symm.trans inserted
  refine bare.settled (fun falls => ?_) (fun switch number body => ?_) rfl
  · obtain ⟨switch, number, ends⟩ := last _ falls
    exact outside switch number ends.isBody
  · obtain ⟨parent, child, has, has', apart⟩ := enters
    obtain ⟨kind, same, isCase⟩ := body.isCase
    cases has.symm.trans same
    exact apart ⟨isCase, Option.some.inj (has'.symm.trans body.kindAt)⟩

theorem Invariant.listed (parsed : Parsed root) (last : FallthroughsLast root)
    (isList : kindAt root list = some .statementList) {landed : Bool}
    (label : landed = true → kindAt root (index :: list) = some .labeledStatement)
    (item : Invariant root (insertionsOf (allSwitchEdits runtime probe root))
      (Task.item landed (index :: list) : Task Control) flags outcome flags' selected recorded) :
    Listed root list (index = 0 && !landed) flags outcome flags' selected recorded := by
  have outside : ∀ switch number, ¬ IsBody root switch number (index :: list) := by
    intro switch number body
    obtain ⟨kind, same, isCase⟩ := body.isCase
    cases isList.symm.trans same
    cases isCase
  cases landed with
  | true =>
    have settled (clear : flags = quiet) : Settled outcome flags' selected recorded :=
      Bare.settled item (by rw [label rfl]; simp) outside clear
    rw [Bool.not_true, Bool.and_false]
    exact {
      matched := fun switch number body clear => ⟨(settled clear).same, (settled clear).ended⟩
      fallen := nofun
      other := fun _ => settled }
  | false =>
    obtain ⟨flags₁, recorded₁, recorded₂, inserted, rfl, bare⟩ := item
    rw [Bool.not_false, Bool.and_true]
    have ended {switch : Place} {number : Nat} (body : IsBody root switch number list)
        (ready : Readied root switch number (index :: list) flags₁) :
        recorded₂ = selected ∧ Ended root switch number outcome flags' := by
      by_cases falls : kindAt root (index :: list) = some .fallthroughStatement
      · obtain ⟨switch', number', ends⟩ := last _ falls
        obtain ⟨rfl, rfl⟩ := body.unique ends.isBody
        obtain ⟨same, rfl, same'⟩ := bare.falls falls
        refine ⟨same', ⟨fun past => absurd rfl past, fun _ => ⟨?_, ends.fallenInto⟩⟩⟩
        rw [same, ready.1 ends]
      · have settled := bare.settled falls outside (ready.2 fun ends => falls ends.kindAt)
        exact ⟨settled.same, settled.ended⟩
    constructor
    · intro switch number body clear
      obtain ⟨readied, run, ready⟩ :=
        before_selected parsed body index
      rw [clear] at inserted
      cases run.symm.trans inserted
      obtain ⟨same, ended⟩ := ended body ready
      rw [same]
      simp only [decide_eq_true_eq, ended, and_true]
    · intro switch number body first fallen set
      cases of_decide_eq_true first
      obtain ⟨readied, run, ready⟩ :=
        before_fallen parsed body fallen
      rw [set] at inserted
      cases run.symm.trans inserted
      rw [List.nil_append]
      exact ended body ready
    · intro none clear
      rw [clear] at inserted
      cases (runInserted_other none).symm.trans inserted
      refine bare.settled (fun falls => ?_) outside rfl
      obtain ⟨switch, number, ends⟩ := last _ falls
      exact none switch number ends.isBody

theorem mem_clausesOfPlace {switch : Place} {number : Nat} {clause : Clause}
    (stands : (clausesOfPlace root switch)[number]? = some clause) :
    ∃ node, root.subtree? switch = some node ∧ (Node.kind node).isSwitch = true ∧
      (clausesAt switch node)[number]? = some clause := by
  rw [clausesOfPlace] at stands
  split at stands
  · rename_i node found
    split at stands
    · rename_i isSwitch
      exact ⟨node, found, isSwitch, stands⟩
    · cases stands
  · cases stands

theorem IsBody.nonempty (parsed : Parsed root) {switch : Place} {number : Nat} {node : Node}
    (body : IsBody root switch number list) (stands : root.subtree? list = some node) :
    0 < node.children.length := by
  have kind := body.kindAt
  rw [Go.kindAt, stands] at kind
  have own := parsed.at stands
  simp only [isParsed, Bool.and_eq_true, Bool.or_eq_true, decide_eq_true_eq] at own
  have first := (own.1.2.resolve_left fun other => other (Option.some.inj kind)).2
  cases children : node.children with
  | nil => rw [children] at first; cases first
  | cons head rest => exact Nat.succ_pos _

end Steps

section Run

variable {runtime : String} {probe : Place → Nat → Nat} {root : Node} {meaning : Meaning}

theorem Runs.invariant (parsed : Parsed root) (last : FallthroughsLast root)
    {task : Task meaning.Control} {flags flags' : Flags} {memory memory' : meaning.Memory}
    {outcome : Outcome meaning.Exit} {selected recorded : List Alternative}
    (runs : Runs root (insertionsOf (allSwitchEdits runtime probe root)) meaning task flags memory
      outcome flags' memory' selected recorded) :
    Invariant root (insertionsOf (allSwitchEdits runtime probe root)) task flags outcome flags'
      selected recorded := by
  induction runs with
  | node inserted runs ih => exact ⟨_, _, _, inserted, rfl, ih⟩
  | fallthrough has =>
    exact {
      falls := fun _ => ⟨rfl, rfl, rfl⟩
      listed := fun other => by rw [has] at other; cases other
      other := fun other => absurd has other }
  | list has runs ih =>
    exact {
      falls := fun other => by rw [has] at other; cases other
      listed := fun _ => ih has nofun
      other := fun _ other => absurd has other }
  | other has statement single runs ih =>
    exact {
      falls := fun other => absurd (Option.some.inj (has.symm.trans other)) statement
      listed := fun other => absurd (Option.some.inj (has.symm.trans other)) single
      other := fun _ other => ih other }
  | @restEnd place node index landed _ _ stands ended =>
    intro isList label
    have first {switch : Place} {number : Nat} (body : IsBody root switch number place) :
        (index = 0 && !landed) = false := by
      have some := body.nonempty parsed stands
      rw [decide_eq_false (by omega), Bool.false_and]
    exact {
      matched := fun switch number body clear => by
        rw [first body]
        exact ⟨rfl, ⟨fun _ => clear, nofun⟩⟩
      fallen := fun switch number body isFirst => absurd isFirst (by rw [first body]; nofun)
      other := fun _ clear => ⟨rfl, clear, nofun⟩ }
  | restNext first rest ih ih' =>
    intro isList label
    exact (Invariant.listed parsed last isList label ih).append nofun (ih' isList nofun)
  | restFell first ih => exact fun isList label => Invariant.listed parsed last isList label ih
  | restLeft first beyond ih =>
    exact fun isList label => Invariant.listed parsed last isList label ih
  | restLand first lands label' rest ih ih' =>
    intro isList label
    refine (Invariant.listed parsed last isList label ih).append nofun ?_
    have rest := ih' isList fun _ => label'
    rwa [Bool.not_true, Bool.and_false] at rest
  | finish acts => exact fun _ clear => ⟨rfl, clear, nofun⟩
  | leave acts => exact fun _ clear => ⟨rfl, clear, nofun⟩
  | enterFell acts enters child ih =>
    intro single clear
    exact absurd rfl (Entered.settled last ih single enters clear).past
  | enter acts enters child ended rest ih ih' =>
    intro single clear
    have first := Entered.settled last ih single enters clear
    exact first.append (ih' single first.clear)
  | call acts has isFunction body rest ih ih' =>
    intro single clear
    have first := ih (fun list => by
      rw [Option.some.inj (has.symm.trans list)] at isFunction
      cases isFunction) rfl
    exact first.append (ih' single clear)
  | select acts clause rest ih ih' =>
    intro single clear
    have first := ih.1 clear
    exact first.append (ih' single first.clear)
  | selectNone acts stands isSwitch unguarded inserted rest ih =>
    intro single clear
    have run : runInserted (standingAt (allSwitchEdits runtime probe root) _) quiet = _ :=
      runInserted_brace parsed stands isSwitch unguarded fun _ _ => rfl
    rw [clear] at inserted
    cases (run.symm.trans inserted : (quiet, _) = _)
    have rest := ih single rfl
    exact ⟨by rw [rest.same]; rfl, rest.clear, rest.past⟩
  | clauseBody stands holds runs ended ih =>
    obtain ⟨node, found, isSwitch, numbered⟩ := mem_clausesOfPlace stands
    have body : IsBody root _ _ _ := ⟨node, _, _, found, isSwitch, numbered, holds⟩
    have listed := Bare.listed ih body.kindAt
    constructor
    · intro clear
      obtain ⟨same, past⟩ := listed.matched _ _ body clear
      exact ⟨same, past.past ended, ended⟩
    · intro fallen set
      obtain ⟨same, past⟩ := listed.fallen _ _ body rfl fallen set
      exact ⟨same, past.past ended, ended⟩
  | clauseFell stands holds runs after ih ih' =>
    obtain ⟨node, found, isSwitch, numbered⟩ := mem_clausesOfPlace stands
    have body : IsBody root _ _ _ := ⟨node, _, _, found, isSwitch, numbered, holds⟩
    have listed := Bare.listed ih body.kindAt
    constructor
    · intro clear
      obtain ⟨same, past⟩ := listed.matched _ _ body clear
      have ⟨set, fallen⟩ := past.fell rfl
      have next := ih'.2 fallen set
      exact ⟨by rw [same, next.same]; rfl, next.clear, next.past⟩
    · intro fallen set
      obtain ⟨same, past⟩ := listed.fallen _ _ body rfl fallen set
      have ⟨set, fallen⟩ := past.fell rfl
      have next := ih'.2 fallen set
      exact ⟨by rw [same, next.same], next.clear, next.past⟩
  | @clauseEmpty switch number clause _ _ _ _ stands holds inserted =>
    obtain ⟨node, found, isSwitch, numbered⟩ := mem_clausesOfPlace stands
    constructor
    · intro clear
      have run : runInserted (standingAt (allSwitchEdits runtime probe root) _) quiet = _ :=
        runInserted_closing parsed found isSwitch numbered holds fun _ _ => rfl
      have probed : runInserted [if fallenInto (clausesAt switch node) number then
          Inserted.hitUnlessFell switch number else .hit switch number] quiet =
          (quiet, [(switch, number)]) := by
        cases fallenInto (clausesAt switch node) number <;> rfl
      rw [clear] at inserted
      cases (probed.symm.trans (run.symm.trans inserted))
      exact ⟨rfl, rfl, nofun⟩
    · intro fallen set
      obtain ⟨node', found', fallen⟩ := fallen
      cases found.symm.trans found'
      have run : runInserted (standingAt (allSwitchEdits runtime probe root) _) (armed switch) = _ :=
        runInserted_closing parsed found isSwitch numbered holds
          fun _ differ => Function.update_of_ne differ _ _
      have isSet : armed switch switch = true := by rw [armed, Function.update_self]
      have probed : runInserted [if fallenInto (clausesAt switch node) number then
          Inserted.hitUnlessFell switch number else .hit switch number] (armed switch) =
          (quiet, []) := by
        simp only [fallen, if_true, runInserted, Inserted.run, isSet, update_armed, List.append_nil]
      rw [set] at inserted
      cases (probed.symm.trans (run.symm.trans inserted))
      exact ⟨rfl, rfl, nofun⟩

end Run

end Supercov.Go
