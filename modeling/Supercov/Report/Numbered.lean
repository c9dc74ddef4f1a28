import Supercov.Library.Ordered
import Mathlib.Data.List.Destutter
import Mathlib.Data.List.GetD
import Mathlib.Data.List.Nodup
import Mathlib.Logic.Function.Basic

/-!
# Numbered relations

Which tests or phases reached each obligation, by numbers.  Obligations are numbered, tests and
phases are numbered apart from them in 32 bits, and the numbers are put back in the order of the
names at the end.
-/

namespace Supercov.Report.Numbered

section Numbering

structure HitIds where
  names : List String
  numbers : String → Option Nat

namespace HitIds

def empty : HitIds := ⟨[], fun _ => none⟩

def number (hits : HitIds) (name : String) : Nat × HitIds :=
  match hits.numbers name with
  | some number => (number, hits)
  | none =>
    (hits.names.length,
      { names := hits.names ++ [name]
        numbers := Function.update hits.numbers name (some hits.names.length) })

end HitIds

/-- Which tests or phases reached each obligation. -/
structure References where
  names : List String
  numbers : String → Option UInt32
  last : Option UInt32
  byObligation : List (List UInt32)

namespace References

def empty : References := ⟨[], fun _ => none, none, []⟩

/-- The number from the table, whichever name came last. -/
def lookUp (references : References) (name : String) : UInt32 × References :=
  match references.numbers name with
  | some number => (number, { references with last := some number })
  | none =>
    let number := UInt32.ofNat references.names.length
    (number,
      { references with
        names := references.names ++ [name]
        numbers := Function.update references.numbers name (some number)
        last := some number })

theorem lookUp_of_known {references : References} {name : String} {number : UInt32}
    (known : references.numbers name = some number) :
    references.lookUp name = (number, { references with last := some number }) := by
  rw [lookUp, known]

theorem lookUp_of_new {references : References} {name : String}
    (new : references.numbers name = none) :
    references.lookUp name =
      (UInt32.ofNat references.names.length,
        { references with
          names := references.names ++ [name]
          numbers := Function.update references.numbers name
            (some (UInt32.ofNat references.names.length))
          last := some (UInt32.ofNat references.names.length) }) := by
  rw [lookUp, new]

/-- The number standing for a test or phase, the last one's first; none where an index is past the
names. -/
def number (references : References) (name : String) : Option (UInt32 × References) :=
  match references.last with
  | some number => do
    let last ← references.names[number.toNat]?
    if last = name then some (number, references) else some (references.lookUp name)
  | none => some (references.lookUp name)

def onObligation (references : References) (obligation : Nat)
    (change : List UInt32 → List UInt32) : References :=
  let lists := references.byObligation
  { references with
    byObligation :=
      (lists ++ List.replicate (obligation + 1 - lists.length) []).modify obligation change }

def add (references : References) (obligation : Nat) (name : String) : Option References := do
  let (number, references) ← references.number name
  some (references.onObligation obligation fun reached =>
    if reached.getLast? = some number then reached else reached ++ [number])

/-- `add` without its two shortcuts: the last name's number and the last element. -/
def addPlain (references : References) (obligation : Nat) (name : String) : References :=
  let (number, references) := references.lookUp name
  references.onObligation obligation (· ++ [number])

end References

end Numbering

section Relations

def order (names : List String) : List Nat :=
  (List.range names.length).insertionSort fun left right => names.getD left "" ≤ names.getD right ""

def ranks (names : List String) : List UInt32 :=
  (order names).zipIdx.foldl (fun rank entry => rank.set entry.1 (UInt32.ofNat entry.2))
    (List.replicate names.length 0)

structure Reached where
  names : List String
  numbers : List UInt32

structure Relation where
  names : List String
  rank : List UInt32
  byHit : String → Option Reached

namespace Relation

def of (relation : Relation) (id : String) : Reached := (relation.byHit id).getD ⟨[], []⟩

/-- The names of the numbers in order and once each, none where a number is past the names. -/
def reached (relation : Relation) (numbers : List UInt32) : Option Reached := do
  let sorted := (numbers.insertionSort fun left right =>
    relation.rank.getD left.toNat 0 ≤ relation.rank.getD right.toNat 0).destutter (· ≠ ·)
  let names ← sorted.mapM fun number => relation.names[number.toNat]?
  some ⟨names, sorted⟩

/-- An obligation's list taken over. -/
def insert (hits : HitIds) (relation : Relation) (entry : List UInt32 × Nat) : Option Relation :=
  if entry.1 = [] then some relation
  else do
    let reached ← relation.reached entry.1
    let id ← hits.names[entry.2]?
    some { relation with byHit := Function.update relation.byHit id (some reached) }

end Relation

def References.intoRelation (references : References) (hits : HitIds) : Option Relation :=
  references.byObligation.zipIdx.foldlM (Relation.insert hits)
    { names := references.names, rank := ranks references.names, byHit := fun _ => none }

end Relations

section Calls

/-- `HitIds::number`, `References::number` and `References::add`. -/
inductive Call where
  | hit (name : String)
  | reference (name : String)
  | add (obligation : Nat) (name : String)
  deriving DecidableEq

structure State where
  hits : HitIds
  references : References

def State.initial : State := ⟨.empty, .empty⟩

def State.step (state : State) : Call → Option State
  | .hit name => some { state with hits := (state.hits.number name).2 }
  | .reference name => do
    let numbered ← state.references.number name
    some { state with references := numbered.2 }
  | .add obligation name => do
    let references ← state.references.add obligation name
    some { state with references }

/-- A step without the shortcuts. -/
def State.stepPlain (state : State) : Call → Option State
  | .hit name => some { state with hits := (state.hits.number name).2 }
  | .reference name => some { state with references := (state.references.lookUp name).2 }
  | .add obligation name =>
    some { state with references := state.references.addPlain obligation name }

/-- The obligations in the order they were first numbered in. -/
def obligations (list : List Call) : List String :=
  (list.filterMap fun
    | .hit name => some name
    | _ => none).eraseDups

/-- The tests and phases in the order they were first numbered in. -/
def referenceNames (list : List Call) : List String :=
  (list.filterMap fun
    | .reference name => some name
    | .add _ name => some name
    | .hit _ => none).eraseDups

def addedTo (list : List Call) (id : String) : List String :=
  list.filterMap fun
    | .add number name => if (obligations list)[number]? = some id then some name else none
    | _ => none

def Call.Known (before : List Call) : Call → Prop
  | .add obligation _ => obligation < (obligations before).length
  | _ => True

instance (before : List Call) (call : Call) : Decidable (call.Known before) := by
  cases call <;> unfold Call.Known <;> infer_instance

structure Calls where
  list : List Call
  known : ∀ (count : Nat) (call : Call), list[count]? = some call → call.Known (list.take count)

namespace Calls

def relation (calls : Calls) : Option Relation := do
  let state ← calls.list.foldlM State.step .initial
  state.references.intoRelation state.hits

def relationPlain (calls : Calls) : Option Relation := do
  let state ← calls.list.foldlM State.stepPlain .initial
  state.references.intoRelation state.hits

end Calls

end Calls

section Numbers

variable {list : List Call} {name : String} {names : List String}

def extended (names : List String) (name : String) : List String :=
  if name ∈ names then names else names ++ [name]

theorem mem_extended {other : String} : other ∈ extended names name ↔ other ∈ names ∨ other = name := by
  rw [extended]
  split
  · next inside =>
    constructor
    · exact Or.inl
    · rintro (old | rfl)
      · exact old
      · exact inside
  · simp

theorem eraseDups_append_singleton : (names ++ [name]).eraseDups = extended names.eraseDups name := by
  rw [extended, List.eraseDups_append]
  by_cases inside : name ∈ names <;> simp [List.removeAll, inside, List.eraseDups_cons]

theorem nodup_extended (nodup : names.Nodup) : (extended names name).Nodup := by
  rw [extended]
  split
  · exact nodup
  · next outside =>
    apply List.nodup_append.mpr
    refine ⟨nodup, List.nodup_singleton name, ?_⟩
    intro other member new isNew same
    rw [same, List.mem_singleton.mp isNew] at member
    exact outside member

theorem nodup_eraseDups : names.eraseDups.Nodup := by
  induction names using List.reverseRecOn with
  | nil => exact List.nodup_nil
  | append_singleton names name ih =>
    rw [eraseDups_append_singleton]
    exact nodup_extended ih

theorem eraseDups_of_nodup (nodup : names.Nodup) : names.eraseDups = names := by
  induction names using List.reverseRecOn with
  | nil => rfl
  | append_singleton names name ih =>
    obtain ⟨before, -, apart⟩ := List.nodup_append.mp nodup
    have outside : name ∉ names := fun member =>
      apart name member name (List.mem_singleton_self name) rfl
    rw [eraseDups_append_singleton, ih before, extended, if_neg outside]

theorem idxOf_extended {other : String} (inside : other ∈ names) :
    (extended names name).idxOf other = names.idxOf other := by
  rw [extended]
  split
  · rfl
  · exact List.idxOf_append_of_mem inside

theorem idxOf_extended_new (outside : name ∉ names) :
    (extended names name).idxOf name = names.length := by
  rw [extended, if_neg outside, List.idxOf_append_of_notMem outside]
  simp

theorem update_extended {Number : Type} {make : Nat → Number} {numbers : String → Option Number}
    (table : ∀ name, numbers name = if name ∈ names then some (make (names.idxOf name)) else none)
    (outside : name ∉ names) (other : String) :
    Function.update numbers name (some (make names.length)) other =
      if other ∈ extended names name then some (make ((extended names name).idxOf other))
      else none := by
  by_cases same : other = name
  · subst same
    rw [Function.update_self, if_pos (mem_extended.mpr (Or.inr rfl)), idxOf_extended_new outside]
  · rw [Function.update_of_ne same, table]
    by_cases old : other ∈ names
    · rw [if_pos old, if_pos (mem_extended.mpr (Or.inl old)), idxOf_extended old]
    · rw [if_neg old, if_neg]
      intro member
      exact (mem_extended.mp member).elim old same

theorem length_le_extended : names.length ≤ (extended names name).length := by
  rw [extended]
  split
  · exact Nat.le_refl _
  · simp

/-- The table is the names in the order they came, each under its place in it. -/
structure References.Tables (references : References) (names : List String) : Prop where
  names_eq : references.names = names
  numbers_eq : ∀ name, references.numbers name =
    if name ∈ names then some (UInt32.ofNat (names.idxOf name)) else none
  last_lt : ∀ number, references.last = some number → number.toNat < names.length

structure References.Gives (references : References) (names : List String) (name : String)
    (given : UInt32 × References) : Prop where
  number_eq : given.1 = UInt32.ofNat ((extended names name).idxOf name)
  tables : given.2.Tables (extended names name)
  lists_eq : given.2.byObligation = references.byObligation

namespace References.Tables

variable {references : References}

theorem lookUp (tables : references.Tables names) :
    references.Gives names name (references.lookUp name) := by
  have found := tables.numbers_eq name
  by_cases inside : name ∈ names
  · have same : extended names name = names := if_pos inside
    rw [if_pos inside] at found
    rw [lookUp_of_known found]
    refine ⟨by rw [same], ?_, rfl⟩
    rw [same]
    refine ⟨tables.names_eq, tables.numbers_eq, ?_⟩
    intro number equal
    cases equal
    apply Nat.lt_of_le_of_lt _ (List.idxOf_lt_length_of_mem inside)
    rw [UInt32.toNat_ofNat']
    exact Nat.mod_le _ _
  · have more : extended names name = names ++ [name] := if_neg inside
    rw [if_neg inside] at found
    rw [lookUp_of_new found]
    refine ⟨?_, ?_, rfl⟩
    · rw [idxOf_extended_new inside, tables.names_eq]
    · constructor
      · rw [more, ← tables.names_eq]
      · rw [tables.names_eq]
        exact update_extended tables.numbers_eq inside
      · intro number equal
        cases equal
        rw [more, List.length_append, List.length_singleton, UInt32.toNat_ofNat', tables.names_eq]
        exact Nat.lt_succ_of_le (Nat.mod_le _ _)

theorem number (tables : references.Tables names) (nodup : names.Nodup) (name : String) :
    ∃ given, references.number name = some given ∧ references.Gives names name given := by
  rw [References.number]
  cases last : references.last with
  | none => exact ⟨_, rfl, tables.lookUp⟩
  | some number =>
    have inside := tables.last_lt number last
    have found : references.names[number.toNat]? = some names[number.toNat] := by
      rw [tables.names_eq]
      exact List.getElem?_eq_getElem inside
    simp only [found, Option.bind_eq_bind, Option.bind_some]
    split
    · next same =>
      have known : name ∈ names := same ▸ List.getElem_mem inside
      have extends_to : extended names name = names := if_pos known
      have place : names.idxOf name = number.toNat := by
        rw [← same]
        exact nodup.idxOf_getElem _ inside
      refine ⟨_, rfl, ?_, ?_, rfl⟩
      · rw [extends_to, place]
        exact UInt32.ofNat_toNat.symm
      · rw [extends_to]
        exact tables
    · exact ⟨_, rfl, tables.lookUp⟩

end References.Tables

end Numbers

section Holding

variable {state : State} {before list : List Call} {name : String} {names : List String}

theorem obligations_hit : obligations (list ++ [.hit name]) = extended (obligations list) name := by
  rw [obligations, obligations, ← eraseDups_append_singleton, List.filterMap_append]
  rfl

theorem obligations_other {call : Call} (other : ∀ name, call ≠ .hit name) :
    obligations (list ++ [call]) = obligations list := by
  rw [obligations, obligations, List.filterMap_append]
  cases call with
  | hit name => exact absurd rfl (other name)
  | reference name => exact congrArg List.eraseDups (List.append_nil _)
  | add obligation name => exact congrArg List.eraseDups (List.append_nil _)

theorem referenceNames_hit : referenceNames (list ++ [.hit name]) = referenceNames list := by
  rw [referenceNames, referenceNames, List.filterMap_append]
  exact congrArg List.eraseDups (List.append_nil _)

theorem referenceNames_reference :
    referenceNames (list ++ [.reference name]) = extended (referenceNames list) name := by
  rw [referenceNames, referenceNames, ← eraseDups_append_singleton, List.filterMap_append]
  rfl

theorem referenceNames_add {obligation : Nat} :
    referenceNames (list ++ [.add obligation name]) = extended (referenceNames list) name := by
  rw [referenceNames, referenceNames, ← eraseDups_append_singleton, List.filterMap_append]
  rfl

theorem mem_addedTo {id : String} :
    name ∈ addedTo list id ↔
      ∃ obligation, Call.add obligation name ∈ list ∧ (obligations list)[obligation]? = some id := by
  rw [addedTo, List.mem_filterMap]
  constructor
  · rintro ⟨call, member, given⟩
    cases call with
    | hit other => cases given
    | reference other => cases given
    | add number other =>
      dsimp only at given
      split at given
      · next named =>
        cases given
        exact ⟨number, member, named⟩
      · cases given
  · rintro ⟨obligation, member, named⟩
    exact ⟨_, member, if_pos named⟩

theorem mem_referenceNames_of_add {obligation : Nat} (member : Call.add obligation name ∈ list) :
    name ∈ referenceNames list := by
  rw [referenceNames, List.mem_eraseDups, List.mem_filterMap]
  exact ⟨_, member, rfl⟩

theorem nodup_obligations : (obligations list).Nodup := nodup_eraseDups

theorem nodup_referenceNames : (referenceNames list).Nodup := nodup_eraseDups

/-- What the numbers of a state stand for after the calls. -/
structure State.Holds (state : State) (list : List Call) : Prop where
  hits_eq : state.hits.names = obligations list
  numbers_eq : ∀ name, state.hits.numbers name =
    if name ∈ obligations list then some ((obligations list).idxOf name) else none
  tables : state.references.Tables (referenceNames list)
  lists_le : state.references.byObligation.length ≤ (obligations list).length
  mem_lists : ∀ obligation number, number ∈ state.references.byObligation.getD obligation [] ↔
    ∃ name, Call.add obligation name ∈ list ∧
      number = UInt32.ofNat ((referenceNames list).idxOf name)

theorem State.holds_initial : State.initial.Holds [] := by
  constructor
  · rfl
  · intro name
    rfl
  · refine ⟨rfl, ?_, ?_⟩
    · intro name
      rfl
    · intro number equal
      cases equal
  · exact Nat.le_refl 0
  · simp [State.initial, References.empty]

theorem getD_onObligation (references : References) (obligation other : Nat)
    (change : List UInt32 → List UInt32) :
    (references.onObligation obligation change).byObligation.getD other [] =
      if other = obligation then change (references.byObligation.getD obligation [])
      else references.byObligation.getD other [] := by
  have grown : ∀ place, place ≤ obligation →
      (references.byObligation ++
          List.replicate (obligation + 1 - references.byObligation.length) [])[place]? =
        some (references.byObligation.getD place []) := by
    intro place within
    by_cases old : place < references.byObligation.length
    · rw [List.getElem?_append_left old, List.getD_eq_getElem?_getD, List.getElem?_eq_getElem old]
      rfl
    · rw [List.getElem?_append_right (Nat.le_of_not_lt old), List.getElem?_replicate,
        if_pos (by omega), List.getD_eq_getElem?_getD, List.getElem?_eq_none (Nat.le_of_not_lt old)]
      rfl
  rw [References.onObligation]
  dsimp only
  rw [List.getD_eq_getElem?_getD, List.getElem?_modify]
  by_cases same : other = obligation
  · subst same
    rw [if_pos rfl, grown other (Nat.le_refl _)]
    simp
  · have kept : (fun reached => if obligation = other then change reached else reached) = id := by
      funext reached
      exact if_neg (Ne.symm same)
    rw [if_neg same, kept, id_map]
    by_cases within : other ≤ obligation
    · rw [grown other within]
      rfl
    · rw [List.getD_eq_getElem?_getD]
      by_cases old : other < references.byObligation.length
      · rw [List.getElem?_append_left old]
      · rw [List.getElem?_eq_none (Nat.le_of_not_lt old), List.getElem?_eq_none]
        rw [List.length_append, List.length_replicate]
        omega

theorem length_onObligation (references : References) (obligation : Nat)
    (change : List UInt32 → List UInt32) :
    (references.onObligation obligation change).byObligation.length =
      max references.byObligation.length (obligation + 1) := by
  rw [References.onObligation]
  dsimp only
  rw [List.length_modify, List.length_append, List.length_replicate]
  omega

def Puts (number : UInt32) (change : List UInt32 → List UInt32) : Prop :=
  ∀ reached other, other ∈ change reached ↔ other ∈ reached ∨ other = number

theorem puts_append (number : UInt32) : Puts number (· ++ [number]) := by
  intro reached other
  rw [List.mem_append, List.mem_singleton]

theorem puts_unless_last (number : UInt32) :
    Puts number fun reached =>
      if reached.getLast? = some number then reached else reached ++ [number] := by
  intro reached other
  dsimp only
  split
  · next last =>
    have inside := List.mem_of_getLast? last
    constructor
    · exact Or.inl
    · rintro (old | rfl)
      · exact old
      · exact inside
  · exact puts_append number reached other

theorem idxOf_kept {obligation : Nat} {other : String} (member : Call.add obligation other ∈ list) :
    (extended (referenceNames list) name).idxOf other = (referenceNames list).idxOf other :=
  idxOf_extended (mem_referenceNames_of_add member)

namespace State.Holds

variable (holds : state.Holds list)
include holds

theorem hit (name : String) :
    State.Holds { state with hits := (state.hits.number name).2 } (list ++ [.hit name]) := by
  have found := holds.numbers_eq name
  have named : state.references.Tables (referenceNames (list ++ [.hit name])) := by
    rw [referenceNames_hit]
    exact holds.tables
  have lists : ∀ obligation number, number ∈ state.references.byObligation.getD obligation [] ↔
      ∃ other, Call.add obligation other ∈ list ++ [.hit name] ∧
        number = UInt32.ofNat ((referenceNames (list ++ [.hit name])).idxOf other) := by
    intro obligation number
    rw [referenceNames_hit, holds.mem_lists]
    simp
  by_cases inside : name ∈ obligations list
  · have same : obligations (list ++ [.hit name]) = obligations list :=
      obligations_hit.trans (if_pos inside)
    rw [if_pos inside] at found
    rw [HitIds.number, found]
    refine ⟨holds.hits_eq.trans same.symm, ?_, named, ?_, lists⟩
    · rw [same]
      exact holds.numbers_eq
    · rw [same]
      exact holds.lists_le
  · rw [if_neg inside] at found
    rw [HitIds.number, found]
    refine ⟨?_, ?_, named, ?_, lists⟩
    · rw [obligations_hit, extended, if_neg inside, ← holds.hits_eq]
    · rw [obligations_hit, holds.hits_eq]
      exact @update_extended _ _ _ id _ holds.numbers_eq inside
    · rw [obligations_hit]
      exact Nat.le_trans holds.lists_le length_le_extended

theorem reference {given : UInt32 × References}
    (gives : state.references.Gives (referenceNames list) name given) :
    State.Holds { state with references := given.2 } (list ++ [.reference name]) := by
  have same : obligations (list ++ [.reference name]) = obligations list :=
    obligations_other fun _ => Call.noConfusion
  refine ⟨?_, ?_, ?_, ?_, ?_⟩
  · rw [same]
    exact holds.hits_eq
  · rw [same]
    exact holds.numbers_eq
  · rw [referenceNames_reference]
    exact gives.tables
  · rw [same]
    dsimp only
    rw [gives.lists_eq]
    exact holds.lists_le
  · intro obligation number
    dsimp only
    rw [gives.lists_eq, holds.mem_lists, referenceNames_reference]
    apply exists_congr
    intro other
    simp only [List.mem_append, List.mem_singleton, reduceCtorEq, or_false]
    apply and_congr_right
    intro member
    rw [idxOf_kept member]

theorem add {obligation : Nat} (known : obligation < (obligations list).length)
    {given : UInt32 × References}
    (gives : state.references.Gives (referenceNames list) name given)
    {change : List UInt32 → List UInt32} (puts : Puts given.1 change) :
    State.Holds { state with references := given.2.onObligation obligation change }
      (list ++ [.add obligation name]) := by
  have same : obligations (list ++ [.add obligation name]) = obligations list :=
    obligations_other fun _ => Call.noConfusion
  refine ⟨?_, ?_, ?_, ?_, ?_⟩
  · rw [same]
    exact holds.hits_eq
  · rw [same]
    exact holds.numbers_eq
  · rw [referenceNames_add]
    exact ⟨gives.tables.names_eq, gives.tables.numbers_eq, gives.tables.last_lt⟩
  · rw [same, length_onObligation, gives.lists_eq]
    exact Nat.max_le.mpr ⟨holds.lists_le, known⟩
  · intro other number
    have old : number ∈ state.references.byObligation.getD other [] ↔
        ∃ earlier, Call.add other earlier ∈ list ∧
          number = UInt32.ofNat ((extended (referenceNames list) name).idxOf earlier) := by
      rw [holds.mem_lists]
      apply exists_congr
      intro earlier
      apply and_congr_right
      intro member
      rw [idxOf_kept member]
    rw [getD_onObligation, gives.lists_eq, referenceNames_add]
    by_cases here : other = obligation
    · subst here
      rw [if_pos rfl, puts, old, gives.number_eq]
      simp [or_and_right, exists_or]
    · rw [if_neg here, old]
      simp [here]

end State.Holds

end Holding

section Running

/-- Every call goes through, and what it stands for is kept. -/
def Meets (step : State → Call → Option State) : Prop :=
  ∀ state list call, state.Holds list → call.Known list →
    ∃ after, step state call = some after ∧ after.Holds (list ++ [call])

theorem meets_step : Meets State.step := by
  intro state list call holds known
  cases call with
  | hit name => exact ⟨_, rfl, holds.hit name⟩
  | reference name =>
    obtain ⟨given, numbered, gives⟩ := holds.tables.number nodup_referenceNames name
    refine ⟨{ state with references := given.2 }, ?_, holds.reference gives⟩
    rw [State.step, numbered]
    rfl
  | add obligation name =>
    obtain ⟨given, numbered, gives⟩ := holds.tables.number nodup_referenceNames name
    refine ⟨_, ?_, holds.add known gives (puts_unless_last given.1)⟩
    rw [State.step, References.add, numbered]
    rfl

theorem meets_stepPlain : Meets State.stepPlain := by
  intro state list call holds known
  cases call with
  | hit name => exact ⟨_, rfl, holds.hit name⟩
  | reference name => exact ⟨_, rfl, holds.reference holds.tables.lookUp⟩
  | add obligation name =>
    exact ⟨_, rfl, holds.add known holds.tables.lookUp (puts_append _)⟩

/-- By induction on the calls from their end. -/
theorem Meets.run {step : State → Call → Option State} (meets : Meets step) (list : List Call)
    (known : ∀ (count : Nat) (call : Call), list[count]? = some call →
      call.Known (list.take count)) :
    ∃ state, list.foldlM step .initial = some state ∧ state.Holds list := by
  induction list using List.reverseRecOn with
  | nil => exact ⟨_, rfl, State.holds_initial⟩
  | append_singleton list call ih =>
    have earlier : ∀ (count : Nat) (other : Call), list[count]? = some other →
        other.Known (list.take count) := by
      intro count other found
      obtain ⟨inside, -⟩ := List.getElem?_eq_some_iff.mp found
      have kept := known count other (by rw [List.getElem?_append_left inside, found])
      rwa [List.take_append_of_le_length (Nat.le_of_lt inside)] at kept
    have last : call.Known list := by
      have kept := known list.length call (by simp)
      rwa [List.take_left'] at kept
      rfl
    obtain ⟨state, ran, holds⟩ := ih earlier
    obtain ⟨after, stepped, held⟩ := meets state list call holds last
    refine ⟨after, ?_, held⟩
    rw [List.foldlM_append, ran]
    simp [stepped]

end Running

section Restored

variable {names : List String}

def nameOf (names : List String) (number : UInt32) : String := names.getD number.toNat ""

def listed (names ids : List String) : Reached :=
  ⟨ids, ids.map fun name => UInt32.ofNat (names.idxOf name)⟩

theorem perm_order : (order names).Perm (List.range names.length) := List.perm_insertionSort _ _

theorem nodup_order : (order names).Nodup := perm_order.nodup_iff.mpr List.nodup_range

theorem mem_order {place : Nat} : place ∈ order names ↔ place < names.length :=
  perm_order.mem_iff.trans List.mem_range

theorem length_order : (order names).length = names.length := by
  rw [perm_order.length_eq, List.length_range]

theorem order_sorted :
    (order names).Pairwise fun left right => names.getD left "" ≤ names.getD right "" := by
  have total : Std.Total fun left right => names.getD left "" ≤ names.getD right "" :=
    ⟨fun left right => le_total _ _⟩
  have trans : IsTrans Nat fun left right => names.getD left "" ≤ names.getD right "" :=
    ⟨fun _ _ _ => le_trans⟩
  exact List.pairwise_insertionSort _ _

theorem getElem?_foldl_set (list : List Nat) (nodup : list.Nodup) (start : List UInt32)
    (inside : ∀ place ∈ list, place < start.length) (place : Nat) (member : place ∈ list) :
    (list.zipIdx.foldl (fun rank entry => rank.set entry.1 (UInt32.ofNat entry.2)) start)[place]? =
      some (UInt32.ofNat (list.idxOf place)) := by
  have lengths : ∀ entries : List (Nat × Nat),
      (entries.foldl (fun rank entry => rank.set entry.1 (UInt32.ofNat entry.2)) start).length =
        start.length := by
    intro entries
    induction entries using List.reverseRecOn with
    | nil => rfl
    | append_singleton entries entry ih => simp [ih]
  induction list using List.reverseRecOn with
  | nil => cases member
  | append_singleton list last ih =>
    obtain ⟨before, -, apart⟩ := List.nodup_append.mp nodup
    rw [List.zipIdx_append, List.foldl_append]
    simp only [List.zipIdx_singleton, Nat.zero_add, List.foldl_cons, List.foldl_nil]
    rcases List.mem_append.mp member with earlier | here
    · have different : last ≠ place := fun same =>
        apart place earlier last (List.mem_singleton_self last) same.symm
      rw [List.getElem?_set_ne different, List.idxOf_append_of_mem earlier]
      apply ih before _ earlier
      intro other among
      exact inside other (List.mem_append_left _ among)
    · have same : place = last := List.mem_singleton.mp here
      subst same
      have outside : place ∉ list := fun among =>
        apart place among place (List.mem_singleton_self place) rfl
      rw [List.getElem?_set_self, List.idxOf_append_of_notMem outside]
      · simp
      · rw [lengths]
        exact inside place member

theorem getD_ranks {place : Nat} (inside : place < names.length) :
    (ranks names).getD place 0 = UInt32.ofNat ((order names).idxOf place) := by
  have found := getElem?_foldl_set (order names) nodup_order (List.replicate names.length 0)
    (fun other member => by simpa using mem_order.mp member) place (mem_order.mpr inside)
  rw [List.getD_eq_getElem?_getD]
  exact congrArg (·.getD 0) found

section Few

variable (nodup : names.Nodup) (few : names.length ≤ 2 ^ 32)
include few

theorem le_of_rank {left right : UInt32} (inside : left.toNat < names.length)
    (inside' : right.toNat < names.length)
    (ordered : (ranks names).getD left.toNat 0 ≤ (ranks names).getD right.toNat 0) :
    nameOf names left ≤ nameOf names right := by
  have place : (order names).idxOf left.toNat < (order names).length :=
    List.idxOf_lt_length_of_mem (mem_order.mpr inside)
  have place' : (order names).idxOf right.toNat < (order names).length :=
    List.idxOf_lt_length_of_mem (mem_order.mpr inside')
  have small : (order names).idxOf left.toNat < 2 ^ 32 := by
    rw [length_order] at place
    exact Nat.lt_of_lt_of_le place few
  have small' : (order names).idxOf right.toNat < 2 ^ 32 := by
    rw [length_order] at place'
    exact Nat.lt_of_lt_of_le place' few
  rw [getD_ranks inside, getD_ranks inside', UInt32.le_iff_toNat_le, UInt32.toNat_ofNat',
    UInt32.toNat_ofNat', Nat.mod_eq_of_lt small, Nat.mod_eq_of_lt small'] at ordered
  rcases Nat.lt_or_eq_of_le ordered with earlier | same
  · have sorted := List.pairwise_iff_getElem.mp order_sorted _ _ place place' earlier
    rwa [List.getElem_idxOf, List.getElem_idxOf] at sorted
  · have equal : left.toNat = right.toNat := by
      have found := List.getElem_idxOf place
      simp only [same, List.getElem_idxOf] at found
      exact found.symm
    rw [nameOf, nameOf, equal]

omit few in
theorem nameOf_inj (nodup : names.Nodup) {left right : UInt32} (inside : left.toNat < names.length)
    (inside' : right.toNat < names.length) (same : nameOf names left = nameOf names right) :
    left = right := by
  rw [nameOf, nameOf, List.getD_eq_getElem _ _ inside, List.getD_eq_getElem _ _ inside',
    nodup.getElem_inj_iff] at same
  exact UInt32.toNat_inj.mp same

omit few in
theorem idxOf_nameOf (nodup : names.Nodup) {number : UInt32} (inside : number.toNat < names.length) :
    UInt32.ofNat (names.idxOf (nameOf names number)) = number := by
  rw [nameOf, List.getD_eq_getElem _ _ inside, nodup.idxOf_getElem]
  exact UInt32.ofNat_toNat

theorem nameOf_idxOf {name : String} (member : name ∈ names) :
    nameOf names (UInt32.ofNat (names.idxOf name)) = name := by
  have inside := List.idxOf_lt_length_of_mem member
  rw [nameOf, UInt32.toNat_ofNat', Nat.mod_eq_of_lt (Nat.lt_of_lt_of_le inside few),
    List.getD_eq_getElem _ _ inside, List.getElem_idxOf]

end Few

theorem mapM_getElem? {numbers : List UInt32}
    (inside : ∀ number ∈ numbers, number.toNat < names.length) :
    (numbers.mapM fun number => names[number.toNat]?) = some (numbers.map (nameOf names)) := by
  induction numbers with
  | nil => rfl
  | cons number numbers ih =>
    have found : names[number.toNat]? = some (nameOf names number) := by
      have here := inside number List.mem_cons_self
      rw [nameOf, List.getElem?_eq_getElem here, List.getD_eq_getElem _ _ here]
    rw [List.mapM_cons, found, ih fun other member => inside other (List.mem_cons_of_mem _ member)]
    rfl

end Restored

section Reaching

variable {names : List String} {relation : Relation} {numbers : List UInt32}

def ranked (rank : List UInt32) (numbers : List UInt32) : List UInt32 :=
  numbers.insertionSort fun left right => rank.getD left.toNat 0 ≤ rank.getD right.toNat 0

theorem mem_ranked {rank : List UInt32} {number : UInt32} :
    number ∈ ranked rank numbers ↔ number ∈ numbers :=
  (List.perm_insertionSort _ _).mem_iff

theorem ranked_sorted (rank : List UInt32) (numbers : List UInt32) :
    (ranked rank numbers).Pairwise fun left right =>
      rank.getD left.toNat 0 ≤ rank.getD right.toNat 0 := by
  have total : Std.Total fun left right : UInt32 =>
      rank.getD left.toNat 0 ≤ rank.getD right.toNat 0 :=
    ⟨fun _ _ => UInt32.le_total _ _⟩
  have trans : IsTrans UInt32 fun left right =>
      rank.getD left.toNat 0 ≤ rank.getD right.toNat 0 :=
    ⟨fun _ _ _ => UInt32.le_trans⟩
  exact List.pairwise_insertionSort _ _

theorem reached_eq_map (inside : ∀ number ∈ numbers, number.toNat < relation.names.length) :
    relation.reached numbers =
      some ⟨((ranked relation.rank numbers).destutter (· ≠ ·)).map (nameOf relation.names),
        (ranked relation.rank numbers).destutter (· ≠ ·)⟩ := by
  have inside_sorted : ∀ number ∈ (ranked relation.rank numbers).destutter (· ≠ ·),
      number.toNat < relation.names.length := by
    intro number member
    exact inside number (mem_ranked.mp ((List.destutter_sublist _ _).subset member))
  have named := mapM_getElem? inside_sorted
  change (((ranked relation.rank numbers).destutter (· ≠ ·)).mapM fun number =>
    relation.names[number.toNat]?).bind _ = _
  rw [named]
  rfl

theorem destutter_eq_setOf {ids : List String} (sorted : ids.Pairwise (· ≤ ·)) :
    ids.destutter (· ≠ ·) = Ordered.setOf ids := by
  rw [sorted.destutter_eq_dedup]
  apply Ordered.eq_of_mem_iff _ (Ordered.setOf_pairwise ids)
  · intro name
    rw [List.mem_dedup, Ordered.mem_setOf]
  · apply ((sorted.sublist (List.dedup_sublist _)).and (List.nodup_dedup ids)).imp
    intro left right both
    exact lt_of_le_of_ne both.1 both.2

theorem reached_eq (nodup : names.Nodup) (few : names.length ≤ 2 ^ 32)
    (names_eq : relation.names = names) (rank_eq : relation.rank = ranks names)
    (inside : ∀ number ∈ numbers, number.toNat < names.length) :
    relation.reached numbers = some (listed names (Ordered.setOf (numbers.map (nameOf names)))) := by
  subst names_eq
  have inside_ranked : ∀ number ∈ ranked relation.rank numbers,
      number.toNat < relation.names.length := by
    intro number member
    exact inside number (mem_ranked.mp member)
  have named : ((ranked relation.rank numbers).destutter (· ≠ ·)).map (nameOf relation.names) =
      Ordered.setOf (numbers.map (nameOf relation.names)) := by
    have apart : ∀ left ∈ ranked relation.rank numbers, ∀ right ∈ ranked relation.rank numbers,
        left ≠ right ↔ nameOf relation.names left ≠ nameOf relation.names right := by
      intro left member right member'
      apply not_congr
      constructor
      · exact congrArg _
      · exact nameOf_inj nodup (inside_ranked left member) (inside_ranked right member')
    have sorted : ((ranked relation.rank numbers).map (nameOf relation.names)).Pairwise (· ≤ ·) := by
      apply List.pairwise_map.mpr
      apply (ranked_sorted relation.rank numbers).imp_of_mem
      intro left right member member' ordered
      rw [rank_eq] at ordered
      exact le_of_rank few (inside_ranked left member) (inside_ranked right member') ordered
    rw [List.map_destutter apart, destutter_eq_setOf sorted]
    apply Ordered.setOf_congr
    intro name
    rw [List.mem_map, List.mem_map]
    apply exists_congr
    intro number
    rw [mem_ranked]
  have numbered : ((ranked relation.rank numbers).destutter (· ≠ ·)).map
      ((fun name => UInt32.ofNat (relation.names.idxOf name)) ∘ nameOf relation.names) =
      (ranked relation.rank numbers).destutter (· ≠ ·) := by
    apply (List.map_congr_left _).trans (List.map_id _)
    intro number member
    exact idxOf_nameOf nodup (inside_ranked number ((List.destutter_sublist _ _).subset member))
  rw [reached_eq_map inside, listed, ← named, List.map_map, numbered]

theorem reached_nil (relation : Relation) : relation.reached [] = some ⟨[], []⟩ := rfl

theorem reached_congr {other : Relation} (names_eq : other.names = relation.names)
    (rank_eq : other.rank = relation.rank) : other.reached numbers = relation.reached numbers := by
  rw [Relation.reached, Relation.reached, names_eq, rank_eq]

/-- Each obligation has what its list says, and no other has anything. -/
structure Relation.Restores (relation start : Relation) (hits : HitIds)
    (lists : List (List UInt32)) : Prop where
  names_eq : relation.names = start.names
  rank_eq : relation.rank = start.rank
  of_eq : ∀ (obligation : Nat) (id : String), hits.names[obligation]? = some id →
    start.reached (lists.getD obligation []) = some (relation.of id)
  of_unknown : ∀ id, id ∉ hits.names → relation.of id = ⟨[], []⟩

/-- By induction on the lists from their end. -/
theorem restores_foldlM {hits : HitIds} (nodup : hits.names.Nodup) (start : Relation)
    (fresh : ∀ id, start.of id = ⟨[], []⟩) (lists : List (List UInt32))
    (known : lists.length ≤ hits.names.length)
    (inside : ∀ list ∈ lists, ∀ number ∈ list, number.toNat < start.names.length) :
    ∃ relation, lists.zipIdx.foldlM (Relation.insert hits) start = some relation ∧
      relation.Restores start hits lists := by
  induction lists using List.reverseRecOn with
  | nil =>
    refine ⟨start, rfl, rfl, rfl, ?_, ?_⟩
    · intro obligation id named
      rw [fresh]
      exact reached_nil start
    · intro id _
      exact fresh id
  | append_singleton lists list ih =>
    rw [List.length_append, List.length_singleton] at known
    obtain ⟨relation, folded, restores⟩ := ih (Nat.le_of_succ_le known)
      fun list member => inside list (List.mem_append_left _ member)
    have last : (lists ++ [list]).getD lists.length [] = list := by simp
    have earlier : ∀ obligation, obligation ≠ lists.length →
        (lists ++ [list]).getD obligation [] = lists.getD obligation [] := by
      intro obligation different
      rw [List.getD_eq_getElem?_getD, List.getD_eq_getElem?_getD, List.getElem?_append]
      split
      · rfl
      · next past =>
        rw [List.getElem?_eq_none (by simp; omega), List.getElem?_eq_none (Nat.le_of_not_lt past)]
    rw [List.zipIdx_append, List.foldlM_append, folded]
    simp only [List.zipIdx_singleton, Nat.zero_add, List.foldlM_cons, List.foldlM_nil,
      Option.bind_eq_bind, Option.bind_some, Relation.insert]
    by_cases empty : list = []
    · subst empty
      refine ⟨relation, rfl, restores.names_eq, restores.rank_eq, ?_, restores.of_unknown⟩
      intro obligation id named
      have same : (lists ++ [[]]).getD obligation [] = lists.getD obligation [] := by
        by_cases here : obligation = lists.length
        · rw [here, last]
          simp
        · exact earlier obligation here
      rw [same]
      exact restores.of_eq obligation id named
    · have within : ∀ number ∈ list, number.toNat < relation.names.length := by
        intro number member
        rw [restores.names_eq]
        exact inside list (by simp) number member
      obtain ⟨id, named⟩ : ∃ id, hits.names[lists.length]? = some id :=
        ⟨_, List.getElem?_eq_getElem known⟩
      obtain ⟨reached, gives⟩ : ∃ reached, relation.reached list = some reached :=
        ⟨_, reached_eq_map within⟩
      have gives_start : start.reached list = some reached := by
        rw [← gives]
        exact (reached_congr restores.names_eq restores.rank_eq).symm
      refine ⟨{ relation with byHit := Function.update relation.byHit id (some reached) }, ?_,
        restores.names_eq, restores.rank_eq, ?_, ?_⟩
      · simp [empty, gives, named]
      · intro obligation other found
        rw [Relation.of]
        dsimp only
        by_cases here : obligation = lists.length
        · subst here
          have same : other = id := Option.some.inj (found.symm.trans named)
          rw [last, same, Function.update_self]
          exact gives_start
        · have different : other ≠ id := by
            intro same
            subst same
            obtain ⟨bound, place⟩ := List.getElem?_eq_some_iff.mp found
            obtain ⟨bound', place'⟩ := List.getElem?_eq_some_iff.mp named
            exact here (nodup.getElem_inj_iff.mp (place.trans place'.symm))
          rw [earlier obligation here, Function.update_of_ne different]
          exact restores.of_eq obligation other found
      · intro other unknown
        have different : other ≠ id := by
          intro same
          subst same
          exact unknown (List.mem_of_getElem? named)
        rw [Relation.of]
        dsimp only
        rw [Function.update_of_ne different]
        exact restores.of_unknown other unknown

end Reaching

section Sets

variable {state : State} {list : List Call} {id : String}

theorem toNat_ofNat_le (place : Nat) : (UInt32.ofNat place).toNat ≤ place := by
  rw [UInt32.toNat_ofNat']
  exact Nat.mod_le _ _

namespace State.Holds

variable (holds : state.Holds list)
include holds

theorem inside_list (obligation : Nat) :
    ∀ number ∈ state.references.byObligation.getD obligation [],
      number.toNat < (referenceNames list).length := by
  intro number held
  obtain ⟨name, added, equal⟩ := (holds.mem_lists obligation number).mp held
  rw [equal]
  exact Nat.lt_of_le_of_lt (toNat_ofNat_le _)
    (List.idxOf_lt_length_of_mem (mem_referenceNames_of_add added))

theorem inside : ∀ numbers ∈ state.references.byObligation, ∀ number ∈ numbers,
    number.toNat < state.references.names.length := by
  intro numbers among number member
  obtain ⟨obligation, bound, here⟩ := List.getElem_of_mem among
  have held : number ∈ state.references.byObligation.getD obligation [] := by
    rw [List.getD_eq_getElem _ _ bound, here]
    exact member
  rw [holds.tables.names_eq]
  exact holds.inside_list obligation number held

theorem restores : ∃ relation, state.references.intoRelation state.hits = some relation ∧
    relation.Restores
      { names := referenceNames list, rank := ranks (referenceNames list), byHit := fun _ => none }
      state.hits state.references.byObligation := by
  have nodup : state.hits.names.Nodup := by
    rw [holds.hits_eq]
    exact nodup_obligations
  have known : state.references.byObligation.length ≤ state.hits.names.length := by
    rw [holds.hits_eq]
    exact holds.lists_le
  rw [References.intoRelation, ← holds.tables.names_eq]
  apply restores_foldlM nodup _ _ _ known holds.inside
  intro id
  rfl

theorem of_eq (few : (referenceNames list).length ≤ 2 ^ 32) {relation : Relation}
    (restores : relation.Restores
      { names := referenceNames list, rank := ranks (referenceNames list), byHit := fun _ => none }
      state.hits state.references.byObligation) (id : String) :
    relation.of id = listed (referenceNames list) (Ordered.setOf (addedTo list id)) := by
  by_cases member : id ∈ obligations list
  · obtain ⟨obligation, bound, here⟩ := List.getElem_of_mem member
    have found : (obligations list)[obligation]? = some id := by
      rw [List.getElem?_eq_getElem bound, here]
    have named : state.hits.names[obligation]? = some id := by rw [holds.hits_eq, found]
    have reached := restores.of_eq obligation id named
    rw [reached_eq nodup_referenceNames few rfl rfl (holds.inside_list obligation), Option.some.injEq] at reached
    rw [← reached]
    congr 1
    apply Ordered.setOf_congr
    intro name
    rw [List.mem_map, mem_addedTo]
    constructor
    · rintro ⟨number, held, rfl⟩
      obtain ⟨name, added, equal⟩ := (holds.mem_lists obligation number).mp held
      refine ⟨obligation, ?_, found⟩
      rw [equal, nameOf_idxOf few (mem_referenceNames_of_add added)]
      exact added
    · rintro ⟨other, added, found'⟩
      obtain ⟨bound', here'⟩ := List.getElem?_eq_some_iff.mp found'
      have same : other = obligation := nodup_obligations.getElem_inj_iff.mp (here'.trans here.symm)
      subst same
      exact ⟨_, (holds.mem_lists other _).mpr ⟨name, added, rfl⟩,
        nameOf_idxOf few (mem_referenceNames_of_add added)⟩
  · have unknown : id ∉ state.hits.names := by
      rw [holds.hits_eq]
      exact member
    have nothing : addedTo list id = [] := by
      apply List.eq_nil_iff_forall_not_mem.mpr
      intro name among
      obtain ⟨obligation, -, found⟩ := mem_addedTo.mp among
      exact member (List.mem_of_getElem? found)
    rw [restores.of_unknown id unknown, nothing]
    rfl

end State.Holds

namespace Calls

variable (calls : Calls)

theorem restores_relation : ∃ (state : State) (relation : Relation), state.Holds calls.list ∧
    calls.relation = some relation ∧
    relation.Restores
      { names := referenceNames calls.list, rank := ranks (referenceNames calls.list),
        byHit := fun _ => none }
      state.hits state.references.byObligation := by
  obtain ⟨state, ran, holds⟩ := meets_step.run calls.list calls.known
  obtain ⟨relation, restored, restores⟩ := holds.restores
  refine ⟨state, relation, holds, ?_, restores⟩
  rw [Calls.relation, ran]
  exact restored

/-- The relation is the sets that were added, with the shortcuts and without. -/
theorem relation_sets (few : (referenceNames calls.list).length ≤ 2 ^ 32) :
    ∃ relation plain, calls.relation = some relation ∧ calls.relationPlain = some plain ∧
      (∀ id, relation.of id =
        listed (referenceNames calls.list) (Ordered.setOf (addedTo calls.list id))) ∧
      (∀ id, plain.of id = relation.of id) ∧
      ∀ numbers : List UInt32, (∀ number ∈ numbers, number.toNat < relation.names.length) →
        relation.reached numbers = some (listed (referenceNames calls.list)
          (Ordered.setOf (numbers.map (nameOf relation.names)))) ∧
        plain.reached numbers = relation.reached numbers := by
  obtain ⟨state, relation, holds, restored, restores⟩ := calls.restores_relation
  obtain ⟨state', ran', holds'⟩ := meets_stepPlain.run calls.list calls.known
  obtain ⟨plain, restored', restores'⟩ := holds'.restores
  refine ⟨relation, plain, restored, ?_, holds.of_eq few restores, ?_, ?_⟩
  · rw [relationPlain, ran']
    exact restored'
  · intro id
    rw [holds.of_eq few restores, holds'.of_eq few restores']
  · intro numbers inside
    have names_eq : relation.names = referenceNames calls.list := restores.names_eq
    constructor
    · rw [names_eq] at inside ⊢
      exact reached_eq nodup_referenceNames few names_eq restores.rank_eq inside
    · exact reached_congr (restores'.names_eq.trans restores.names_eq.symm)
        (restores'.rank_eq.trans restores.rank_eq.symm)

end Calls

/-- Out of order, repeated and interleaved, with an obligation that no test reached. -/
def arrivals : Calls where
  list := [.hit "unused", .hit "py:statement:b", .add 1 "test_b", .hit "py:statement:a",
    .add 2 "test_b", .add 1 "test_a", .add 1 "test_b", .add 1 "test_b"]
  known := by
    intro count call found
    match count with
    | 0 | 1 | 2 | 3 | 4 | 5 | 6 | 7 => cases found; decide
    | count + 8 => cases found

theorem relation_sets_arrivals :
    (referenceNames arrivals.list).length ≤ 2 ^ 32 ∧
      ∃ relation plain, arrivals.relation = some relation ∧ arrivals.relationPlain = some plain ∧
        (∀ id, relation.of id =
          listed (referenceNames arrivals.list) (Ordered.setOf (addedTo arrivals.list id))) ∧
        (∀ id, plain.of id = relation.of id) ∧
        ∀ numbers : List UInt32, (∀ number ∈ numbers, number.toNat < relation.names.length) →
          relation.reached numbers = some (listed (referenceNames arrivals.list)
            (Ordered.setOf (numbers.map (nameOf relation.names)))) ∧
          plain.reached numbers = relation.reached numbers :=
  have few : (referenceNames arrivals.list).length ≤ 2 ^ 32 := by decide
  ⟨few, arrivals.relation_sets few⟩

end Sets

section Wide

def called (place : Nat) : String := String.ofList (List.replicate place 'a')

theorem called_injective : Function.Injective called := by
  intro left right same
  have lists := String.ofList_injective same
  simpa using congrArg List.length lists

def adds (count : Nat) : List Call := (List.range count).map fun place => .add 0 (called place)

theorem obligations_adds (count : Nat) : obligations (.hit "o" :: adds count) = ["o"] := by
  have none : (adds count).filterMap (fun
      | Call.hit name => some name
      | _ => none) = [] := by
    simp [adds]
  rw [obligations]
  change ("o" :: (adds count).filterMap _).eraseDups = ["o"]
  rw [none]
  rfl

def wide (count : Nat) : Calls where
  list := .hit "o" :: adds count
  known := by
    intro place call found
    cases place with
    | zero =>
      cases found
      trivial
    | succ place =>
      rw [List.getElem?_cons_succ] at found
      obtain ⟨other, -, rfl⟩ := List.mem_map.mp (List.mem_of_getElem? found)
      rw [List.take_succ_cons, adds, ← List.map_take, List.take_range]
      change 0 < (obligations (.hit "o" :: adds _)).length
      rw [obligations_adds]
      exact Nat.one_pos

theorem referenceNames_wide (count : Nat) :
    referenceNames (wide count).list = (List.range count).map called := by
  have names : (wide count).list.filterMap (fun
      | Call.reference name => some name
      | .add _ name => some name
      | .hit _ => none) = (List.range count).map called := by
    simp [wide, adds, List.filterMap_map]
  rw [referenceNames, names]
  exact eraseDups_of_nodup (List.nodup_range.map called_injective)

theorem mem_take_of_reached {relation : Relation} {numbers : List UInt32} {reached : Reached}
    (inside : ∀ number ∈ numbers, number.toNat < relation.names.length)
    (found : relation.reached numbers = some reached) :
    ∀ name ∈ reached.names, name ∈ relation.names.take (2 ^ 32) := by
  rw [reached_eq_map inside, Option.some.injEq] at found
  subst found
  intro name member
  obtain ⟨number, among, rfl⟩ := List.mem_map.mp member
  have bound := inside number (mem_ranked.mp ((List.destutter_sublist _ _).subset among))
  apply List.mem_take_iff_getElem.mpr
  refine ⟨number.toNat, Nat.lt_min.mpr ⟨number.toNat_lt, bound⟩, ?_⟩
  rw [nameOf, List.getD_eq_getElem _ _ bound]

theorem lost_of_wide (last : Nat) (past : 2 ^ 32 ≤ last) :
    ∃ relation, (wide (last + 1)).relation = some relation ∧
      called last ∈ addedTo (wide (last + 1)).list "o" ∧
      called last ∉ (relation.of "o").names := by
  obtain ⟨state, relation, holds, restored, restores⟩ := (wide (last + 1)).restores_relation
  refine ⟨relation, restored, ?_, ?_⟩
  · apply mem_addedTo.mpr
    refine ⟨0, ?_, ?_⟩
    · apply List.mem_cons_of_mem
      exact List.mem_map.mpr ⟨last, List.mem_range.mpr (Nat.lt_succ_self last), rfl⟩
    · rw [wide, obligations_adds]
      rfl
  · intro member
    have named : state.hits.names[0]? = some "o" := by
      rw [holds.hits_eq, wide, obligations_adds]
      rfl
    have early := mem_take_of_reached (holds.inside_list 0) (restores.of_eq 0 "o" named) _ member
    dsimp only at early
    rw [referenceNames_wide, ← List.map_take, List.take_range] at early
    obtain ⟨place, before, same⟩ := List.mem_map.mp early
    have bound := List.mem_range.mp before
    rw [called_injective same] at bound
    exact absurd (Nat.lt_of_lt_of_le bound (Nat.min_le_left _ _)) (Nat.not_lt.mpr past)

/-- A name with 2^32 others before it is not among the names of what it was added to. -/
theorem not_relation_sets_wide :
    ∃ relation, (wide (2 ^ 32 + 1)).relation = some relation ∧
      called (2 ^ 32) ∈ addedTo (wide (2 ^ 32 + 1)).list "o" ∧
      called (2 ^ 32) ∉ (relation.of "o").names :=
  lost_of_wide (2 ^ 32) (Nat.le_refl _)

end Wide

end Supercov.Report.Numbered
