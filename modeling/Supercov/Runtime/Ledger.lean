import Supercov.Runtime.Vectors
import Mathlib.Data.Set.Insert
import Mathlib.Data.Set.Lattice

/-!
# What a runtime is to keep of a run's evaluations

The purpose of the runtimes' bookkeeping, without their caches and arrays: the
vectors not yet swept, those of the whole run, those credited to each test's
record, and the record that is open.  `Faithful` says that these are the
vectors of the completed evaluations, each under the test that ran.

What the Go and the Java runtime hold in their arrays and records: a list of
keys to each decision, a list of vectors to each record.
-/

namespace Supercov.Runtime

open ShortCircuit

structure Ledger where
  pending : Nat → Set Word
  runWide : Nat → Set Word
  credited : Nat → Set (Nat × Word)
  current : Option Nat

namespace Ledger

def empty : Ledger :=
  { pending := fun _ => ∅, runWide := fun _ => ∅, credited := fun _ => ∅, current := none }

def record (ledger : Ledger) (decision : Nat) (key : Word) : Ledger :=
  { ledger with
    pending := fun other => {kept | kept ∈ ledger.pending other ∨ (other = decision ∧ kept = key)} }

def sweep (ledger : Ledger) : Ledger :=
  { pending := fun _ => ∅
    runWide := fun decision => ledger.runWide decision ∪ ledger.pending decision
    credited := fun record => {hit | hit ∈ ledger.credited record ∨
      (ledger.current = some record ∧ hit.2 ∈ ledger.pending hit.1)}
    current := ledger.current }

def assign (ledger : Ledger) (record : Option Nat) : Ledger := { ledger with current := record }

/-- An evaluation's vector is in the run-wide table and in its test's record. -/
def Holds (ledger : Ledger) (label : Option Nat) (evaluation : Evaluation) : Prop :=
  ∃ key, Describes key evaluation ∧ key ∈ ledger.runWide evaluation.decision ∧
    ∀ record, label = some record → (evaluation.decision, key) ∈ ledger.credited record

/-- An evaluation's vector waits to be swept into its test's record. -/
def Awaits (ledger : Ledger) (label : Option Nat) (evaluation : Evaluation) : Prop :=
  label = ledger.current ∧
    ∃ key, Describes key evaluation ∧ key ∈ ledger.pending evaluation.decision

/-- The key describes an evaluation of the decision that completed under the label. -/
def Happened (completed : List (Option Nat × Evaluation)) (label : Option Nat) (decision : Nat)
    (key : Word) : Prop :=
  ∃ evaluation, (label, evaluation) ∈ completed ∧ evaluation.decision = decision ∧
    Describes key evaluation

/-- The ledger of a run: every key is the vector of an evaluation that completed,
under the test whose key it is, and every completed evaluation of a decision that
is measured has its key. -/
structure Faithful (measured : Nat → Prop) (completed : List (Option Nat × Evaluation))
    (ledger : Ledger) : Prop where
  pending : ∀ decision, ∀ key ∈ ledger.pending decision,
    Happened completed ledger.current decision key
  runWide : ∀ decision, ∀ key ∈ ledger.runWide decision,
    ∃ label, Happened completed label decision key
  credited : ∀ record, ∀ hit ∈ ledger.credited record, Happened completed (some record) hit.1 hit.2
  complete : ∀ label evaluation, (label, evaluation) ∈ completed → measured evaluation.decision →
    ledger.Awaits label evaluation ∨ ledger.Holds label evaluation

variable {measured : Nat → Prop} {completed : List (Option Nat × Evaluation)} {ledger : Ledger}

theorem Happened.append {label : Option Nat} {decision : Nat} {key : Word}
    (happened : Happened completed label decision key) (more : List (Option Nat × Evaluation)) :
    Happened (completed ++ more) label decision key := by
  obtain ⟨evaluation, member, rest⟩ := happened
  exact ⟨evaluation, List.mem_append_left _ member, rest⟩

theorem Faithful.empty : Faithful measured [] empty where
  pending := fun _ _ member => absurd member (Set.notMem_empty _)
  runWide := fun _ _ member => absurd member (Set.notMem_empty _)
  credited := fun _ _ member => absurd member (Set.notMem_empty _)
  complete := fun _ _ member => absurd member List.not_mem_nil

theorem Faithful.skip (faithful : Faithful measured completed ledger) {label : Option Nat}
    {evaluation : Evaluation} (skipped : ¬ measured evaluation.decision) :
    Faithful measured (completed ++ [(label, evaluation)]) ledger where
  pending := fun decision key member => (faithful.pending decision key member).append _
  runWide := fun decision key member =>
    (faithful.runWide decision key member).imp fun _ happened => happened.append _
  credited := fun record hit member => (faithful.credited record hit member).append _
  complete := by
    intro label' evaluation' member isMeasured
    rcases List.mem_append.mp member with old | new
    · exact faithful.complete label' evaluation' old isMeasured
    · cases List.mem_singleton.mp new
      exact absurd isMeasured skipped

theorem Faithful.record (faithful : Faithful measured completed ledger) {evaluation : Evaluation}
    {key : Word} (describes : Describes key evaluation) :
    Faithful measured (completed ++ [(ledger.current, evaluation)])
      (ledger.record evaluation.decision key) where
  pending := by
    intro decision kept member
    rcases member with old | ⟨rfl, rfl⟩
    · exact (faithful.pending decision kept old).append _
    · exact ⟨evaluation, List.mem_append_right _ (List.mem_singleton.mpr rfl), rfl, describes⟩
  runWide := fun decision kept member =>
    (faithful.runWide decision kept member).imp fun _ happened => happened.append _
  credited := fun record hit member => (faithful.credited record hit member).append _
  complete := by
    intro label evaluation' member isMeasured
    rcases List.mem_append.mp member with old | new
    · rcases faithful.complete label evaluation' old isMeasured with ⟨same, kept, h, waits⟩ | holds
      · exact Or.inl ⟨same, kept, h, Or.inl waits⟩
      · exact Or.inr holds
    · cases List.mem_singleton.mp new
      exact Or.inl ⟨rfl, key, describes, Or.inr ⟨rfl, rfl⟩⟩

theorem Faithful.repeat (faithful : Faithful measured completed ledger) {evaluation : Evaluation}
    {key : Word} (describes : Describes key evaluation)
    (known : key ∈ ledger.pending evaluation.decision) :
    Faithful measured (completed ++ [(ledger.current, evaluation)]) ledger where
  pending := fun decision kept member => (faithful.pending decision kept member).append _
  runWide := fun decision kept member =>
    (faithful.runWide decision kept member).imp fun _ happened => happened.append _
  credited := fun record hit member => (faithful.credited record hit member).append _
  complete := by
    intro label evaluation' member isMeasured
    rcases List.mem_append.mp member with old | new
    · exact faithful.complete label evaluation' old isMeasured
    · cases List.mem_singleton.mp new
      exact Or.inl ⟨rfl, key, describes, known⟩

theorem Faithful.sweep_holds (faithful : Faithful measured completed ledger) {label : Option Nat}
    {evaluation : Evaluation} (member : (label, evaluation) ∈ completed)
    (isMeasured : measured evaluation.decision) : ledger.sweep.Holds label evaluation := by
  rcases faithful.complete label evaluation member isMeasured with
    ⟨same, key, describes, waits⟩ | ⟨key, describes, inRun, inRecord⟩
  · refine ⟨key, describes, Or.inr waits, ?_⟩
    intro record labelled
    exact Or.inr ⟨same ▸ labelled, waits⟩
  · exact ⟨key, describes, Or.inl inRun, fun record labelled => Or.inl (inRecord record labelled)⟩

theorem Faithful.sweep (faithful : Faithful measured completed ledger) :
    Faithful measured completed ledger.sweep where
  pending := fun _ _ member => absurd member (Set.notMem_empty _)
  runWide := by
    intro decision key member
    rcases member with old | swept
    · exact faithful.runWide decision key old
    · exact ⟨_, faithful.pending decision key swept⟩
  credited := by
    intro record hit member
    rcases member with old | ⟨opened, swept⟩
    · exact faithful.credited record hit old
    · exact opened ▸ faithful.pending hit.1 hit.2 swept
  complete := fun _ _ member isMeasured => Or.inr (faithful.sweep_holds member isMeasured)

theorem Faithful.assign (faithful : Faithful measured completed ledger)
    (record : Option Nat) : Faithful measured completed (ledger.sweep.assign record) where
  pending := fun _ _ member => absurd member (Set.notMem_empty _)
  runWide := faithful.sweep.runWide
  credited := faithful.sweep.credited
  complete := fun _ _ member isMeasured => Or.inr (faithful.sweep_holds member isMeasured)

end Ledger

universe u v

variable {Item : Type u} {Entry : Type v}

/-- `keys` with `key` in it. -/
def including (keys : List Word) (key : Word) : List Word :=
  if key ∈ keys then keys else keys ++ [key]

@[simp]
theorem mem_including {keys : List Word} {key other : Word} :
    other ∈ including keys key ↔ other ∈ keys ∨ other = key := by
  unfold including
  split
  · constructor
    · exact Or.inl
    · intro h
      rcases h with old | rfl
      · exact old
      · assumption
  · simp

@[simp]
theorem mem_foldl_including {added keys : List Word} {key : Word} :
    key ∈ added.foldl including keys ↔ key ∈ keys ∨ key ∈ added := by
  induction added generalizing keys with
  | nil => simp
  | cons first added ih => rw [List.foldl_cons, ih, mem_including, List.mem_cons, or_assoc]

theorem nodup_including {keys : List Word} (distinct : keys.Nodup) (key : Word) :
    (including keys key).Nodup := by
  unfold including
  split
  · exact distinct
  · next absent => exact List.nodup_append.mpr ⟨distinct, List.nodup_singleton key, by grind⟩

theorem nodup_foldl_including {added keys : List Word} (distinct : keys.Nodup) :
    (added.foldl including keys).Nodup := by
  induction added generalizing keys with
  | nil => exact distinct
  | cons key added ih => exact ih (nodup_including distinct key)

def listAt (items : List Item) (field : Item → List Entry) (index : Nat) : List Entry :=
  ((items[index]?).map field).getD []

variable {items : List Item} {field : Item → List Entry} {change : Item → Item}

theorem listAt_of_known {index : Nat} {item : Item} (known : items[index]? = some item) :
    listAt items field index = field item := by
  simp [listAt, known]

theorem listAt_map_of_nil (empty : ∀ item, field (change item) = []) (index : Nat) :
    listAt (items.map change) field index = [] := by
  simp only [listAt, List.getElem?_map, Option.map_map]
  cases items[index]? with
  | none => rfl
  | some item => exact empty item

theorem listAt_modify_of_ne {id index : Nat} (apart : id ≠ index) :
    listAt (items.modify id change) field index = listAt items field index := by
  simp only [listAt, List.getElem?_modify_ne _ _ apart]

theorem listAt_modify_eq {id : Nat} {item : Item} (known : items[id]? = some item) :
    listAt (items.modify id change) field id = field (change item) := by
  simp [listAt, List.getElem?_modify_eq, known]

theorem modify_eq_self {id : Nat} (fixed : ∀ item, items[id]? = some item → change item = item) :
    items.modify id change = items := by
  apply List.ext_getElem?
  intro position
  rw [List.getElem?_modify]
  by_cases here : id = position
  · subst here
    cases known : items[id]? with
    | none => rfl
    | some item => simp [fixed item known]
  · simp [here]

theorem modify_eq_of_known {id : Nat} {item : Item} (known : items[id]? = some item)
    (change : Item → Item) : items.modify id change = items.modify id fun _ => change item := by
  apply List.ext_getElem?
  intro position
  simp only [List.getElem?_modify]
  by_cases here : id = position
  · subst here
    simp [known]
  · simp [here]

theorem listAt_modify_of_kept (kept : ∀ item, field (change item) = field item)
    (id : Nat) : listAt (items.modify id change) field = listAt items field := by
  funext index
  simp only [listAt, List.getElem?_modify]
  cases items[index]? with
  | none => rfl
  | some held => by_cases same : id = index <;> simp [same, kept]

theorem listAt_append_of_nil {last : Item} (empty : field last = []) :
    listAt (items ++ [last]) field = listAt items field := by
  funext index
  simp only [listAt, List.getElem?_append]
  by_cases old : index < items.length
  · simp [old]
  · simp only [old, if_false, List.getElem?_eq_none (Nat.not_lt.mp old)]
    cases index - items.length with
    | zero => simp [empty]
    | succ _ => rfl

def indexedKeys (items : List Item) (field : Item → List Word) : List (Nat × Word) :=
  items.zipIdx.flatMap fun entry => (field entry.1).map fun key => (entry.2, key)

@[simp]
theorem mem_indexedKeys {field : Item → List Word} {hit : Nat × Word} :
    hit ∈ indexedKeys items field ↔ hit.2 ∈ listAt items field hit.1 := by
  obtain ⟨id, key⟩ := hit
  simp only [indexedKeys, List.mem_flatMap, List.mem_zipIdx_iff_getElem?, List.mem_map, listAt]
  constructor
  · intro ⟨entry, found, key', member, same⟩
    cases same
    simpa [found] using member
  · intro member
    cases found : items[id]? with
    | none => simp [found] at member
    | some item => exact ⟨(item, id), found, key, by simpa [found] using member, rfl⟩

def Ledger.ofTables (seen runWide : Nat → List Word) (vectors : Nat → List (Nat × Word))
    (current : Option Nat) : Ledger :=
  { pending := fun decision => {key | key ∈ seen decision}
    runWide := fun decision => {key | key ∈ runWide decision}
    credited := fun record => {hit | hit ∈ vectors record}
    current := current }

section Ledger

variable {seen runWide seen' runWide' : Nat → List Word} {vectors vectors' : Nat → List (Nat × Word)}
  {current : Option Nat}

theorem Ledger.ofTables_empty (seenNothing : ∀ decision, seen decision = [])
    (nothingRunWide : ∀ decision, runWide decision = [])
    (nothingCredited : ∀ record, vectors record = []) :
    ofTables seen runWide vectors none = .empty := by
  simp only [ofTables, seenNothing, nothingRunWide, nothingCredited, List.not_mem_nil,
    Set.ofPred_false]
  rfl

theorem Ledger.ofTables_sweep (nothingSeen : ∀ decision, seen' decision = [])
    (swept : ∀ decision key, key ∈ runWide' decision ↔
      key ∈ runWide decision ∨ key ∈ seen decision)
    (credited : ∀ record hit, hit ∈ vectors' record ↔
      hit ∈ vectors record ∨ (current = some record ∧ hit.2 ∈ seen hit.1)) :
    ofTables seen' runWide' vectors' current = (ofTables seen runWide vectors current).sweep := by
  simp only [ofTables, sweep, nothingSeen, swept, credited, List.not_mem_nil, Set.ofPred_false,
    Set.mem_ofPred_eq]
  rfl

theorem Ledger.ofTables_record {decision : Nat} {key : Word}
    (recorded : ∀ other kept, kept ∈ seen' other ↔
      kept ∈ seen other ∨ (other = decision ∧ kept = key)) :
    ofTables seen' runWide vectors current =
      (ofTables seen runWide vectors current).record decision key := by
  simp only [ofTables, record, recorded, Set.mem_ofPred_eq]

end Ledger

end Supercov.Runtime
