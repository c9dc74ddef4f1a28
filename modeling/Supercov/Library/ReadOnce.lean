import Supercov.Library.Ordered
import Mathlib.Tactic.Common

/-!
# Formulas read once

A formula over numbered conditions is evaluated from left to right, and no further than
its outcome needs.  Each condition leads on each of its values to one place: a later
condition or an outcome.  Two formulas over the same conditions evaluate alike exactly
when their conditions lead to the same places.
-/

namespace ReadOnce

/-- A junction goes on to its right side where its left one is `goesOn`: `true` for
`&&`, `false` for `||`. -/
inductive Formula where
  | condition (index : Nat)
  | not (inner : Formula)
  | junction (goesOn : Bool) (left right : Formula)
  deriving DecidableEq, Repr

inductive Exit where
  | condition (index : Nat)
  | outcome (value : Bool)
  deriving DecidableEq, Repr

/-- A condition, and where it leads when it is true and when it is false. -/
abbrev Lead := Nat × Exit × Exit

namespace Formula

def conditions : Formula → List Nat
  | condition index => [index]
  | not inner => inner.conditions
  | junction _ left right => left.conditions ++ right.conditions

section Evaluation

variable (values : Nat → Bool)

def outcome : Formula → Bool
  | condition index => values index
  | not inner => !inner.outcome
  | junction goesOn left right => if left.outcome = goesOn then right.outcome else !goesOn

def evaluated : Formula → List Nat
  | condition index => [index]
  | not inner => inner.evaluated
  | junction goesOn left right =>
    left.evaluated ++ if left.outcome values = goesOn then right.evaluated else []

end Evaluation

def shown (formula : Formula) (size : Nat) (values : Nat → Bool) : List (Option Bool) × Bool :=
  ((List.range size).map fun index =>
    if index ∈ formula.evaluated values then some (values index) else none, formula.outcome values)

def first : Formula → Nat
  | condition index => index
  | not inner => inner.first
  | junction _ left _ => left.first

def leads : Formula → Exit → Exit → List Lead
  | condition index, whenTrue, whenFalse => [(index, whenTrue, whenFalse)]
  | not inner, whenTrue, whenFalse => inner.leads whenFalse whenTrue
  | junction true left right, whenTrue, whenFalse =>
    left.leads (.condition right.first) whenFalse ++ right.leads whenTrue whenFalse
  | junction false left right, whenTrue, whenFalse =>
    left.leads whenTrue (.condition right.first) ++ right.leads whenTrue whenFalse

def exits (formula : Formula) : List Lead := formula.leads (.outcome true) (.outcome false)

end Formula

section Evaluation

variable {formula : Formula} {values values' : Nat → Bool}

theorem evaluated_sublist (formula : Formula) (values : Nat → Bool) :
    (formula.evaluated values).Sublist formula.conditions := by
  induction formula with
  | condition index => exact List.Sublist.refl _
  | not inner ih => exact ih
  | junction goesOn left right ihLeft ihRight =>
    apply ihLeft.append
    split
    · exact ihRight
    · exact List.nil_sublist _

theorem evaluated_congr (agree : ∀ index ∈ formula.evaluated values, values index = values' index) :
    formula.evaluated values' = formula.evaluated values ∧
      formula.outcome values' = formula.outcome values := by
  induction formula with
  | condition index => exact ⟨rfl, (agree index (List.mem_singleton_self _)).symm⟩
  | not inner ih =>
    obtain ⟨same, ends⟩ := ih agree
    exact ⟨same, congrArg (!·) ends⟩
  | junction goesOn left right ihLeft ihRight =>
    rw [Formula.evaluated, List.forall_mem_append] at agree
    obtain ⟨same, ends⟩ := ihLeft agree.1
    rw [Formula.evaluated, Formula.evaluated, Formula.outcome, Formula.outcome, same, ends]
    by_cases on : left.outcome values = goesOn
    · rw [if_pos on] at agree
      obtain ⟨same, ends⟩ := ihRight agree.2
      simp only [if_pos on, same, ends, and_self]
    · simp only [if_neg on, and_self]

theorem outcome_congr (agree : ∀ index ∈ formula.conditions, values index = values' index) :
    formula.outcome values' = formula.outcome values :=
  (evaluated_congr fun index member => agree index ((evaluated_sublist _ _).subset member)).2

/-- Any two evaluations of formulas that share no condition are one of both. -/
theorem exists_values {left right : Formula} (apart : (left.conditions ++ right.conditions).Nodup)
    (values values' : Nat → Bool) : ∃ both : Nat → Bool,
      (∀ index ∈ left.conditions, values index = both index) ∧
        ∀ index ∈ right.conditions, values' index = both index := by
  refine ⟨fun index => if index ∈ left.conditions then values index else values' index, ?_, ?_⟩
  · intro index member
    exact (if_pos member).symm
  · intro index member
    have elsewhere : index ∉ left.conditions := fun other =>
      (List.nodup_append.mp apart).2.2 index other index member rfl
    exact (if_neg elsewhere).symm

theorem exists_outcome (once : formula.conditions.Nodup) (ending : Bool) :
    ∃ values, formula.outcome values = ending := by
  induction formula generalizing ending with
  | condition index => exact ⟨fun _ => ending, rfl⟩
  | not inner ih =>
    obtain ⟨values, ends⟩ := ih once (!ending)
    exact ⟨values, by rw [Formula.outcome, ends, Bool.not_not]⟩
  | junction goesOn left right ihLeft ihRight =>
    obtain ⟨values, on⟩ := ihLeft (List.Nodup.of_append_left once) goesOn
    obtain ⟨values', ends⟩ := ihRight (List.Nodup.of_append_right once) ending
    obtain ⟨both, here, there⟩ := exists_values once values values'
    refine ⟨both, ?_⟩
    rw [Formula.outcome, outcome_congr here, outcome_congr there, if_pos on, ends]

theorem exists_evaluated (once : formula.conditions.Nodup) {index : Nat}
    (member : index ∈ formula.conditions) (value : Bool) :
    ∃ values, index ∈ formula.evaluated values ∧ values index = value := by
  induction formula with
  | condition other =>
    refine ⟨fun _ => value, ?_, rfl⟩
    simpa [Formula.conditions, Formula.evaluated] using member
  | not inner ih => exact ih once member
  | junction goesOn left right ihLeft ihRight =>
    rcases List.mem_append.mp member with here | there
    · obtain ⟨values, reached, given⟩ := ihLeft (List.Nodup.of_append_left once) here
      exact ⟨values, List.mem_append_left _ reached, given⟩
    · obtain ⟨values, on⟩ := exists_outcome (List.Nodup.of_append_left once) goesOn
      obtain ⟨values', reached, given⟩ := ihRight (List.Nodup.of_append_right once) there
      obtain ⟨both, same, same'⟩ := exists_values once values values'
      refine ⟨both, List.mem_append_right _ ?_, (same' index there).symm.trans given⟩
      rw [outcome_congr same, if_pos on]
      rwa [(evaluated_congr fun other inside =>
        same' other ((evaluated_sublist _ _).subset inside)).1]

/-- Values that are `fixed` on a formula's conditions, and as they were elsewhere. -/
def Formula.settle (formula : Formula) (fixed values : Nat → Bool) (index : Nat) : Bool :=
  if index ∈ formula.conditions then fixed index else values index

theorem outcome_settle (formula : Formula) (fixed values : Nat → Bool) :
    formula.outcome (formula.settle fixed values) = formula.outcome fixed :=
  outcome_congr fun _ member => (if_pos member).symm

theorem settle_apart {formula other : Formula}
    (apart : ∀ index ∈ other.conditions, index ∉ formula.conditions) (fixed values : Nat → Bool) :
    other.evaluated (formula.settle fixed values) = other.evaluated values ∧
      other.outcome (formula.settle fixed values) = other.outcome values :=
  evaluated_congr fun index member =>
    (if_neg (apart index ((evaluated_sublist _ _).subset member))).symm

/-- Two evaluations that differ in one condition, which both reach, and in their ends. -/
structure Decides (formula : Formula) (index : Nat) (values values' : Nat → Bool) : Prop where
  same : ∀ other, other ≠ index → values other = values' other
  flipped : values' index = !values index
  reached : index ∈ formula.evaluated values
  reached' : index ∈ formula.evaluated values'
  ends : formula.outcome values' = !formula.outcome values

theorem Decides.settle {formula other : Formula} {index : Nat}
    (decides : Decides other index values values')
    (apart : ∀ index ∈ other.conditions, index ∉ formula.conditions) (fixed : Nat → Bool) :
    Decides other index (formula.settle fixed values) (formula.settle fixed values') where
  same := by
    intro place ne
    simp only [Formula.settle, decides.same place ne]
  flipped := by
    have inside := (evaluated_sublist _ _).subset decides.reached
    simp only [Formula.settle, if_neg (apart index inside), decides.flipped]
  reached := by
    rw [(settle_apart apart fixed values).1]
    exact decides.reached
  reached' := by
    rw [(settle_apart apart fixed values').1]
    exact decides.reached'
  ends := by
    rw [(settle_apart apart fixed values).2, (settle_apart apart fixed values').2]
    exact decides.ends

theorem exists_decides (once : formula.conditions.Nodup) {index : Nat}
    (member : index ∈ formula.conditions) : ∃ values values', Decides formula index values values' := by
  induction formula with
  | condition other =>
    obtain rfl := List.mem_singleton.mp member
    refine ⟨fun _ => true, fun other => decide (other ≠ index), ?_, by simp, member, member, by
      simp [Formula.outcome]⟩
    intro other ne
    simp [ne]
  | not inner ih =>
    obtain ⟨values, values', same, flipped, reached, reached', ends⟩ := ih once member
    exact ⟨values, values', same, flipped, reached, reached', by simp [Formula.outcome, ends]⟩
  | junction goesOn left right ihLeft ihRight =>
    have apart := (List.nodup_append.mp once).2.2
    rcases List.mem_append.mp member with here | there
    · -- The right side is to end as the left one does where it goes on.
      obtain ⟨values, values', decides⟩ := ihLeft (List.Nodup.of_append_left once) here
      obtain ⟨after, on⟩ := exists_outcome (List.Nodup.of_append_right once) goesOn
      have decides : Decides left index (right.settle after values) (right.settle after values') :=
        decides.settle (fun place inside inside' => apart place inside place inside' rfl) after
      refine ⟨_, _, decides.same, decides.flipped, List.mem_append_left _ decides.reached,
        List.mem_append_left _ decides.reached', ?_⟩
      simp only [Formula.outcome, outcome_settle, on, decides.ends]
      cases left.outcome (right.settle after values) <;> cases goesOn <;> rfl
    · obtain ⟨values, values', decides⟩ := ihRight (List.Nodup.of_append_right once) there
      obtain ⟨before, on⟩ := exists_outcome (List.Nodup.of_append_left once) goesOn
      have decides : Decides right index (left.settle before values) (left.settle before values') :=
        decides.settle (fun place inside inside' => apart place inside' place inside rfl) before
      have goes (values : Nat → Bool) : left.outcome (left.settle before values) = goesOn :=
        (outcome_settle left before values).trans on
      refine ⟨_, _, decides.same, decides.flipped, List.mem_append_right _ ?_,
        List.mem_append_right _ ?_, ?_⟩
      · rw [if_pos (goes values)]
        exact decides.reached
      · rw [if_pos (goes values')]
        exact decides.reached'
      · simp only [Formula.outcome, goes, if_true, decides.ends]

end Evaluation

section Leads

variable (table : List Lead) (values : Nat → Bool)

/-- The conditions that a table leads through from a place, and the outcome at the end. -/
inductive Through : Exit → List Nat → Bool → Prop where
  | outcome (value : Bool) : Through (.outcome value) [] value
  | condition {index : Nat} {whenTrue whenFalse : Exit} {rest : List Nat} {value : Bool} :
      (index, whenTrue, whenFalse) ∈ table →
      Through (if values index then whenTrue else whenFalse) rest value →
      Through (.condition index) (index :: rest) value

variable {table values} {formula : Formula} {exit exit' : Exit} {path path' : List Nat}
  {value value' : Bool}

theorem map_leads (formula : Formula) (whenTrue whenFalse : Exit) :
    (formula.leads whenTrue whenFalse).map Prod.fst = formula.conditions := by
  induction formula generalizing whenTrue whenFalse with
  | condition index => rfl
  | not inner ih => exact ih whenFalse whenTrue
  | junction goesOn left right ihLeft ihRight =>
    cases goesOn <;> rw [Formula.leads, List.map_append, ihLeft, ihRight, Formula.conditions]

theorem head_conditions (formula : Formula) : formula.conditions.head? = some formula.first := by
  induction formula with
  | condition index => rfl
  | not inner ih => exact ih
  | junction goesOn left right ihLeft ihRight =>
    rw [Formula.conditions, List.head?_append, ihLeft]
    rfl

/-- What a formula evaluates is what its conditions lead through. -/
theorem Through.of_formula {whenTrue whenFalse : Exit}
    (held : formula.leads whenTrue whenFalse ⊆ table)
    (after : Through table values (if formula.outcome values then whenTrue else whenFalse) path value) :
    Through table values (.condition formula.first) (formula.evaluated values ++ path) value := by
  induction formula generalizing whenTrue whenFalse path with
  | condition index => exact .condition (held (List.mem_singleton_self _)) after
  | not inner ih =>
    apply ih held
    simp only [Formula.outcome] at after
    cases ends : inner.outcome values <;> simpa [ends] using after
  | junction goesOn left right ihLeft ihRight =>
    rw [Formula.evaluated, List.append_assoc]
    rw [Formula.outcome] at after
    cases goesOn with
    | true =>
      obtain ⟨heldLeft, heldRight⟩ := List.append_subset.mp held
      apply ihLeft heldLeft
      cases ends : left.outcome values with
      | true => exact ihRight heldRight (by simpa [ends] using after)
      | false => simpa [ends] using after
    | false =>
      obtain ⟨heldLeft, heldRight⟩ := List.append_subset.mp held
      apply ihLeft heldLeft
      cases ends : left.outcome values with
      | true => simpa [ends] using after
      | false => exact ihRight heldRight (by simpa [ends] using after)

theorem through_exits (formula : Formula) (values : Nat → Bool) :
    Through formula.exits values (.condition formula.first) (formula.evaluated values)
      (formula.outcome values) := by
  have ends : Through formula.exits values
      (if formula.outcome values then .outcome true else .outcome false) []
      (formula.outcome values) := by
    cases formula.outcome values with
    | true => exact .outcome true
    | false => exact .outcome false
  have all : Through formula.exits values (.condition formula.first)
      (formula.evaluated values ++ []) (formula.outcome values) :=
    Through.of_formula (List.Subset.refl _) ends
  rwa [List.append_nil] at all

theorem Through.exit_eq (first : Through table values exit path value)
    {table' : List Lead} (second : Through table' values exit' path value) : exit = exit' := by
  cases first with
  | outcome => cases second with
    | outcome => rfl
  | condition => cases second with
    | condition => rfl

theorem Through.unique (once : (table.map Prod.fst).Nodup)
    (first : Through table values exit path value) (second : Through table values exit path' value') :
    path = path' ∧ value = value' := by
  induction first generalizing path' value' with
  | outcome value =>
    cases second
    exact ⟨rfl, rfl⟩
  | condition member _ ih =>
    cases second with
    | condition member' next =>
      have same := List.inj_on_of_nodup_map once member member' rfl
      cases same
      obtain ⟨rfl, rfl⟩ := ih next
      exact ⟨rfl, rfl⟩

/-- From a condition on the path, the table leads through what is behind it. -/
theorem Through.split (through : Through table values exit path value) {index : Nat}
    (member : index ∈ path) : ∃ before after whenTrue whenFalse, path = before ++ index :: after ∧
      (index, whenTrue, whenFalse) ∈ table ∧
      Through table values (if values index then whenTrue else whenFalse) after value := by
  induction through with
  | outcome value => cases member
  | @condition other whenTrue whenFalse rest value listed next ih =>
    rcases List.mem_cons.mp member with rfl | later
    · exact ⟨[], rest, whenTrue, whenFalse, rfl, listed, next⟩
    · obtain ⟨before, after, whenTrue, whenFalse, rfl, among, ends⟩ := ih later
      exact ⟨other :: before, after, whenTrue, whenFalse, rfl, among, ends⟩

end Leads

theorem eq_of_subset_of_keys {Value : Type} {table table' : List (Nat × Value)}
    (keys : table.map Prod.fst = table'.map Prod.fst) (once : (table.map Prod.fst).Nodup)
    (within : table ⊆ table') : table = table' := by
  have sizes : table.length = table'.length := by simpa using congrArg List.length keys
  apply List.ext_getElem sizes
  intro place inside inside'
  have same : table[place].1 = table'[place].1 := by
    simpa [inside, inside'] using congrArg (·[place]?) keys
  exact List.inj_on_of_nodup_map (keys ▸ once) (within (List.getElem_mem inside))
    (List.getElem_mem inside') same

section Alike

variable {formula other : Formula} {size : Nat}

theorem alike_of_exits (same : formula.exits = other.exits) (once : formula.conditions.Nodup)
    (values : Nat → Bool) : formula.evaluated values = other.evaluated values ∧
      formula.outcome values = other.outcome values := by
  have conditions : formula.conditions = other.conditions := by
    rw [← map_leads formula (.outcome true) (.outcome false),
      ← map_leads other (.outcome true) (.outcome false)]
    exact congrArg (List.map Prod.fst) same
  have first : formula.first = other.first := by
    have heads := head_conditions formula
    rw [conditions, head_conditions other] at heads
    exact (Option.some.inj heads).symm
  have through := through_exits other values
  rw [← same, ← first] at through
  exact (through_exits formula values).unique (by rwa [Formula.exits, map_leads]) through

/-- Where formulas evaluate alike, their conditions lead to the same places. -/
theorem exits_eq_of_alike (conditions : formula.conditions = other.conditions)
    (once : formula.conditions.Nodup)
    (alike : ∀ values, formula.evaluated values = other.evaluated values ∧
      formula.outcome values = other.outcome values) : formula.exits = other.exits := by
  have keys : formula.exits.map Prod.fst = formula.conditions := map_leads _ _ _
  have keys' : other.exits.map Prod.fst = formula.conditions := (map_leads _ _ _).trans conditions.symm
  apply eq_of_subset_of_keys (keys.trans keys'.symm) (keys ▸ once)
  rintro ⟨index, whenTrue, whenFalse⟩ listed
  have member : index ∈ formula.conditions := keys ▸ List.mem_map_of_mem listed
  have leads (value : Bool) : ∃ whenTrue' whenFalse', (index, whenTrue', whenFalse') ∈ other.exits ∧
      (if value then whenTrue else whenFalse) = if value then whenTrue' else whenFalse' := by
    obtain ⟨values, reached, given⟩ := exists_evaluated once member value
    obtain ⟨same, ends⟩ := alike values
    obtain ⟨before, after, _, _, path, listed', through⟩ := (through_exits formula values).split reached
    obtain ⟨before', after', whenTrue', whenFalse', path', listed'', through'⟩ :=
      (through_exits other values).split (same ▸ reached)
    have own := List.inj_on_of_nodup_map (keys ▸ once) listed listed' rfl
    cases own
    have distinct : (before ++ index :: after).Nodup :=
      path ▸ (evaluated_sublist formula values).nodup once
    have absent := (List.nodup_cons.mp (List.nodup_middle.mp distinct)).1
    rw [List.mem_append, not_or] at absent
    have split : before ++ index :: after = before' ++ index :: after' := by rw [← path, ← path', same]
    obtain ⟨-, -, rfl⟩ := (List.append_cons_inj_of_notMem absent.1 absent.2).mp split
    rw [← ends, given] at through'
    rw [given] at through
    exact ⟨whenTrue', whenFalse', listed'', through.exit_eq through'⟩
  obtain ⟨whenTrue', whenFalse', listed', same⟩ := leads true
  obtain ⟨_, _, listed'', same'⟩ := leads false
  have one := List.inj_on_of_nodup_map (keys' ▸ once) listed' listed'' rfl
  cases one
  simp only [if_true, if_false, Bool.false_eq_true] at same same'
  rw [same, same']
  exact listed'

/-- An evaluation shows exactly what it evaluates. -/
theorem shown_eq_some_iff (conditions : formula.conditions = List.range size)
    (values : Nat → Bool) (index : Nat) (value : Bool) :
    ((formula.shown size values).1[index]?).join = some value ↔
      index ∈ formula.evaluated values ∧ values index = value := by
  have within : index ∈ formula.evaluated values → index < size := fun member =>
    List.mem_range.mp (conditions ▸ (evaluated_sublist _ _).subset member)
  by_cases inside : index < size
  · by_cases member : index ∈ formula.evaluated values <;>
      simp [Formula.shown, inside, member]
  · have outside : index ∉ formula.evaluated values := fun member => inside (within member)
    simp [Formula.shown, inside, outside]

theorem evaluated_pairwise (conditions : formula.conditions = List.range size)
    (values : Nat → Bool) : (formula.evaluated values).Pairwise (· < ·) :=
  List.Pairwise.sublist (conditions ▸ evaluated_sublist formula values) List.pairwise_lt_range

/-- Evaluations that show the same evaluate the same. -/
theorem evaluated_of_shown {values values' : Nat → Bool} (left : formula.conditions = List.range size)
    (right : other.conditions = List.range size)
    (shows : formula.shown size values = other.shown size values') :
    formula.evaluated values = other.evaluated values ∧
      formula.outcome values = other.outcome values := by
  have given (index : Nat) (value : Bool) : index ∈ formula.evaluated values ∧ values index = value ↔
      index ∈ other.evaluated values' ∧ values' index = value := by
    rw [← shown_eq_some_iff left, shows, shown_eq_some_iff right]
  have agree : ∀ index ∈ other.evaluated values', values' index = values index := by
    intro index member
    exact ((given index (values' index)).mpr ⟨member, rfl⟩).2.symm
  obtain ⟨same, ends⟩ := evaluated_congr agree
  rw [same, ends]
  refine ⟨?_, congrArg Prod.snd shows⟩
  apply Ordered.eq_of_mem_iff (evaluated_pairwise left values) (evaluated_pairwise right values')
  intro index
  exact ⟨fun member => ((given index (values index)).mp ⟨member, rfl⟩).1,
    fun member => ((given index (values' index)).mpr ⟨member, rfl⟩).1⟩

/-- Two formulas over the same conditions show the same evaluations exactly where their
conditions lead to the same places. -/
theorem shown_iff_exits (left : formula.conditions = List.range size)
    (right : other.conditions = List.range size) :
    (∀ seen, (∃ values, other.shown size values = seen) ↔ ∃ values, formula.shown size values = seen) ↔
      formula.exits = other.exits := by
  have once : formula.conditions.Nodup := left ▸ List.nodup_range
  constructor
  · intro shows
    apply exits_eq_of_alike (left.trans right.symm) once
    intro values
    obtain ⟨values', same⟩ := (shows (formula.shown size values)).mpr ⟨values, rfl⟩
    exact evaluated_of_shown left right same.symm
  · intro same seen
    have shows (values : Nat → Bool) : other.shown size values = formula.shown size values := by
      obtain ⟨evaluated, ends⟩ := alike_of_exits same once values
      rw [Formula.shown, Formula.shown, evaluated, ends]
    simp only [shows]

end Alike

end ReadOnce
