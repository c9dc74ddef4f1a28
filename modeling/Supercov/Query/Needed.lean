import Mathlib.Data.Prod.Lex
import Mathlib.Order.OrderDual
import Supercov.DecisionShape.Deciding

/-!
# The run that a condition needs

A condition that no two of the observed vectors show needs another run: of the vectors that
the decision can produce and that were not seen, the one that with those seen shows it, and
the most conditions with it; or else two such vectors.
-/

namespace Supercov.Query

open Analysis
open DecisionShape (possibleVectors)

/-- `Iterator::max_by_key`: of several that are largest the last. -/
def maxByKey {Item Key : Type} [LinearOrder Key] (key : Item → Key) : List Item → Option Item
  | [] => none
  | first :: rest =>
    some (rest.foldl (fun best item => if key best ≤ key item then item else best) first)

def pairs {Item : Type} : List Item → List (Item × Item)
  | [] => []
  | first :: rest => rest.map (first, ·) ++ pairs rest

def vectorText (vector : McdcVector) : String :=
  let values := vector.values.map fun value =>
    match value with
    | none => '-'
    | some false => 'F'
    | some true => 'T'
  String.ofList values ++ " -> " ++ if vector.outcome then "T" else "F"

section Needed

variable (index : Nat) (observed : List McdcVector) (sources : List String)

def vectorWords (vector : McdcVector) : String :=
  let values := (vector.values.zip sources).filterMap fun (value, source) =>
    value.map fun value => "`" ++ source ++ "` " ++ toString value
  ", ".intercalate (values ++ ["decision " ++ toString vector.outcome])

def shows (vectors : List McdcVector) : Option Nat :=
  match findWitnessesForConditions vectors sources.length with
  | .ok witnesses =>
    if witnesses[index]?.any Option.isSome then some (witnesses.filter Option.isSome).length else none
  | .error _ => none

/-- The run that would complete a condition's independence pair, from the runs observed. -/
def needed (isAlphanumeric : Char → Bool) (decision : String) : Option String × String :=
  let condition := sources.getD index "the condition"
  match possibleVectors isAlphanumeric decision sources with
  | none =>
    -- What to run is not guessed at, since a guess can be a run that cannot happen.
    if observed.any fun vector => (vector.value index).isSome then
      (none, "a run where `" ++ condition ++ "` alone changes the decision")
    else (none, "no test evaluated `" ++ condition ++ "`")
  | some possible =>
    let unseen := possible.filter fun vector => vector ∉ observed
    let best := maxByKey (fun shown : Nat × McdcVector =>
        toLex (shown.1, OrderDual.toDual (shown.2.values.filter Option.isSome).length))
      (unseen.filterMap fun vector =>
        (shows index sources (observed ++ [vector])).map fun shown => (shown, vector))
    match best with
    | some (_, vector) => (some (vectorText vector), vectorWords sources vector)
    | none =>
      -- No run alone does it: no test evaluated the condition.
      match (pairs unseen).find? fun pair =>
        (shows index sources (observed ++ [pair.1, pair.2])).isSome with
      | some (first, second) =>
        (some (vectorText first ++ " and " ++ vectorText second),
          vectorWords sources first ++ "; and " ++ vectorWords sources second)
      | none => (none, "`" ++ condition ++ "` cannot decide the result on its own")

end Needed

section Search

variable {Item Key : Type} [LinearOrder Key] {key : Item → Key} {items : List Item} {best : Item}

theorem foldl_max (first : Item) (items : List Item) :
    let best := items.foldl (fun best item => if key best ≤ key item then item else best) first
    best ∈ first :: items ∧ ∀ item ∈ first :: items, key item ≤ key best := by
  induction items generalizing first with
  | nil => simp
  | cons next items ih =>
    rw [List.foldl_cons]
    obtain ⟨member, largest⟩ := ih (if key first ≤ key next then next else first)
    rw [List.forall_mem_cons] at largest
    refine ⟨?_, List.forall_mem_cons.mpr ⟨?_, List.forall_mem_cons.mpr ⟨?_, largest.2⟩⟩⟩
    · rcases List.mem_cons.mp member with same | member
      · rw [same]
        split <;> simp
      · exact List.mem_cons_of_mem _ (List.mem_cons_of_mem _ member)
    · refine le_trans ?_ largest.1
      split
      · assumption
      · exact le_rfl
    · refine le_trans ?_ largest.1
      split
      · exact le_rfl
      · next before => exact (not_le.mp before).le

theorem maxByKey_spec (found : maxByKey key items = some best) :
    best ∈ items ∧ ∀ item ∈ items, key item ≤ key best := by
  cases items with
  | nil => cases found
  | cons first rest =>
    cases found
    exact foldl_max first rest

theorem maxByKey_eq_none : maxByKey key items = none ↔ items = [] := by
  cases items <;> simp [maxByKey]

theorem mem_pairs {first second : Item} (member : first ∈ items) (member' : second ∈ items)
    (ne : first ≠ second) : (first, second) ∈ pairs items ∨ (second, first) ∈ pairs items := by
  induction items with
  | nil => cases member
  | cons head rest ih =>
    simp only [pairs, List.mem_append, List.mem_map, Prod.mk.injEq]
    rcases List.mem_cons.mp member with same | inside <;>
      rcases List.mem_cons.mp member' with same' | inside'
    · exact absurd (same.trans same'.symm) ne
    · exact .inl (.inl ⟨second, inside', same.symm, rfl⟩)
    · exact .inr (.inl ⟨first, inside, same'.symm, rfl⟩)
    · exact (ih inside inside').imp .inr .inr

theorem mem_of_mem_pairs {first second : Item} (member : (first, second) ∈ pairs items) :
    first ∈ items ∧ second ∈ items := by
  induction items with
  | nil => cases member
  | cons head rest ih =>
    rcases List.mem_append.mp member with here | later
    · obtain ⟨item, inside, same⟩ := List.mem_map.mp here
      cases same
      exact ⟨List.mem_cons_self .., List.mem_cons_of_mem _ inside⟩
    · exact (ih later).imp (List.mem_cons_of_mem _) (List.mem_cons_of_mem _)

end Search

section Shown

variable {index : Nat} {sources : List String} {vectors : List McdcVector}

def ShownBy (size : Nat) (vectors : List McdcVector) (index count : Nat) : Prop :=
  ∃ witnesses, findWitnessesForConditions vectors size = .ok witnesses ∧
    (∃ pair, witnesses[index]? = some (some pair)) ∧
    (witnesses.filter Option.isSome).length = count

theorem shows_eq_some {count : Nat} :
    shows index sources vectors = some count ↔ ShownBy sources.length vectors index count := by
  unfold shows ShownBy
  cases findWitnessesForConditions vectors sources.length with
  | error error => simp
  | ok witnesses =>
    cases found : witnesses[index]? with
    | none => simp [found]
    | some witness => cases witness <;> simp [found]

theorem shows_isSome (uniform : ∀ vector ∈ vectors, vector.values.length = sources.length)
    (within : index < sources.length) {first second : McdcVector} (member : first ∈ vectors)
    (member' : second ∈ vectors) (pair : isIndependencePair first second index) :
    (shows index sources vectors).isSome := by
  obtain ⟨row, found⟩ := findWitnessesForConditions_isOk_iff.mpr uniform
  have rows : row.map Option.isSome = (List.range sources.length).map
      (DecisionCoverage.witnessed { conditionCount := sources.length, vectors }) := row_isSome found
  have witnessed : DecisionCoverage.witnessed { conditionCount := sources.length, vectors } index :=
    DecisionCoverage.witnessed_iff_exists.mpr ⟨first, member, second, member', pair⟩
  have here := congrArg (·[index]?) rows
  simp only [List.getElem?_map, List.getElem?_range within, Option.map_some, witnessed] at here
  obtain ⟨witness, found', isSome⟩ := Option.map_eq_some_iff.mp here
  unfold shows
  rw [found]
  simp [found', isSome]

end Shown

section Advice

variable {isAlphanumeric : Char → Bool} {decision : String} {sources : List String}
  {possible observed : List McdcVector} {index : Nat}

/-- A vector that was not seen is advised: with those seen it shows the condition, and as
many as any other would that shows it. -/
def AdvisesOne (possible observed : List McdcVector) (sources : List String) (index : Nat)
    (advice : Option String × String) : Prop :=
  ∃ vector ∈ possible, vector ∉ observed ∧
    advice = (some (vectorText vector), vectorWords sources vector) ∧
    ∃ count, ShownBy sources.length (observed ++ [vector]) index count ∧
      ∀ other ∈ possible, other ∉ observed → ∀ count',
        ShownBy sources.length (observed ++ [other]) index count' → count' ≤ count

def AdvisesTwo (possible observed : List McdcVector) (sources : List String) (index : Nat)
    (advice : Option String × String) : Prop :=
  ∃ first ∈ possible, ∃ second ∈ possible, first ∉ observed ∧ second ∉ observed ∧
    advice = (some (vectorText first ++ " and " ++ vectorText second),
      vectorWords sources first ++ "; and " ++ vectorWords sources second) ∧
    (∃ count, ShownBy sources.length (observed ++ [first, second]) index count) ∧
    ∀ other ∈ possible, other ∉ observed → ∀ count,
      ¬ ShownBy sources.length (observed ++ [other]) index count

/-- The advice for a condition that was not shown is to run one vector or two that the
decision can produce, and with them the condition is shown. -/
theorem needed_shows (answered : possibleVectors isAlphanumeric decision sources = some possible)
    (produced : ∀ vector ∈ observed, vector ∈ possible) (within : index < sources.length)
    (unshown : ∀ first ∈ observed, ∀ second ∈ observed, ¬ isIndependencePair first second index) :
    AdvisesOne possible observed sources index (needed index observed sources isAlphanumeric decision) ∨
      AdvisesTwo possible observed sources index
        (needed index observed sources isAlphanumeric decision) := by
  obtain ⟨uniform, first, member, second, member', pair⟩ :=
    DecisionShape.exists_independencePair answered within
  have uniform' (added : List McdcVector) (inside : ∀ vector ∈ added, vector ∈ possible) :
      ∀ vector ∈ observed ++ added, vector.values.length = sources.length := fun vector among =>
    uniform vector ((List.mem_append.mp among).elim (produced vector) (inside vector))
  have shown {added : List McdcVector} (inside : ∀ vector ∈ added, vector ∈ possible)
      (here : first ∈ observed ++ added) (here' : second ∈ observed ++ added) :
      (shows index sources (observed ++ added)).isSome :=
    shows_isSome (uniform' added inside) within here here' pair
  have unseen {vector : McdcVector} : vector ∈ possible.filter (fun vector => vector ∉ observed) ↔
      vector ∈ possible ∧ vector ∉ observed := by simp
  have listed {vector : McdcVector} {count : Nat} (inside : vector ∈ possible)
      (absent : vector ∉ observed)
      (shows' : shows index sources (observed ++ [vector]) = some count) :
      (count, vector) ∈ (possible.filter fun vector => vector ∉ observed).filterMap fun vector =>
        (shows index sources (observed ++ [vector])).map fun shown => (shown, vector) :=
    List.mem_filterMap.mpr ⟨vector, unseen.mpr ⟨inside, absent⟩, by rw [shows']; rfl⟩
  unfold needed
  simp only [answered]
  split
  · next count vector best =>
    left
    obtain ⟨among, largest⟩ := maxByKey_spec best
    obtain ⟨vector', inside, found⟩ := List.mem_filterMap.mp among
    obtain ⟨count', shows', same⟩ := Option.map_eq_some_iff.mp found
    cases same
    obtain ⟨inside, absent⟩ := unseen.mp inside
    refine ⟨vector, inside, absent, rfl, count, shows_eq_some.mp shows', ?_⟩
    intro other inside' absent' count' shown'
    have le := largest _ (listed inside' absent' (shows_eq_some.mpr shown'))
    rcases Prod.Lex.toLex_le_toLex.mp le with lt | ⟨same, -⟩
    · exact lt.le
    · exact same.le
  · next nothing =>
    right
    have empty := maxByKey_eq_none.mp nothing
    have alone {other : McdcVector} (inside : other ∈ possible) (absent : other ∉ observed) :
        shows index sources (observed ++ [other]) = none := by
      cases shows' : shows index sources (observed ++ [other]) with
      | none => rfl
      | some count =>
        have among := listed inside absent shows'
        rw [empty] at among
        cases among
    -- Of a pair of which one was seen the other would do alone.
    have absent : first ∉ observed := fun seen => by
      have absent' : second ∉ observed := fun seen' => unshown first seen second seen' pair
      have := shown (List.forall_mem_singleton.mpr member') (List.mem_append_left _ seen) (by simp)
      simp [alone member' absent'] at this
    have absent' : second ∉ observed := fun seen => by
      have := shown (List.forall_mem_singleton.mpr member) (by simp) (List.mem_append_left _ seen)
      simp [alone member absent] at this
    have ne : first ≠ second := by
      rintro rfl
      simp [isIndependencePair_self] at pair
    split
    · next first' second' found =>
      obtain ⟨inside, inside'⟩ := mem_of_mem_pairs (List.mem_of_find?_eq_some found)
      have shows' := List.find?_some found
      obtain ⟨count, shows'⟩ := Option.isSome_iff_exists.mp shows'
      refine ⟨first', (unseen.mp inside).1, second', (unseen.mp inside').1, (unseen.mp inside).2,
        (unseen.mp inside').2, rfl, ⟨count, shows_eq_some.mp shows'⟩, ?_⟩
      intro other within' absent'' count' shown'
      have := shows_eq_some.mpr shown'
      rw [alone within' absent''] at this
      cases this
    · next missing =>
      have missing := List.find?_eq_none.mp missing
      have both : ∀ vector ∈ [first, second], vector ∈ possible := by simp [member, member']
      have both' : ∀ vector ∈ [second, first], vector ∈ possible := by simp [member, member']
      rcases mem_pairs (unseen.mpr ⟨member, absent⟩) (unseen.mpr ⟨member', absent'⟩) ne with among | among
      · exact absurd (shown both (by simp) (by simp)) (missing _ among)
      · exact absurd (shown both' (by simp) (by simp)) (missing _ among)

end Advice

/-- The vectors of `a || b`. -/
def eitherVectors : List McdcVector :=
  [⟨[some false, some false], false⟩, ⟨[some true, none], true⟩, ⟨[some false, some true], true⟩]

theorem needed_shows_either :
    AdvisesOne eitherVectors [⟨[some true, none], true⟩] ["a", "b"] 0
        (needed 0 [⟨[some true, none], true⟩] ["a", "b"] Char.isAlphanum "a || b") ∨
      AdvisesTwo eitherVectors [⟨[some true, none], true⟩] ["a", "b"] 0
        (needed 0 [⟨[some true, none], true⟩] ["a", "b"] Char.isAlphanum "a || b") :=
  needed_shows rfl (by decide) (by decide) (by decide)

end Supercov.Query
