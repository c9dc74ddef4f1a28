import Mathlib.Data.List.Sort
import Mathlib.Data.List.Dedup
import Mathlib.Data.List.Induction
import Mathlib.Data.String.Basic

/-!
# Ordered sets and maps

A set as its elements in order, a map as its keys in order with their values.
-/

namespace Ordered

universe u v

variable {Key : Type u} {Value : Type v} [LinearOrder Key]

def setOf (items : List Key) : List Key := (items.insertionSort (· ≤ ·)).dedup

@[simp]
theorem mem_setOf {items : List Key} {item : Key} : item ∈ setOf items ↔ item ∈ items := by
  simp [setOf]

def put (key : Key) (value : Value) : List (Key × Value) → List (Key × Value)
  | [] => [(key, value)]
  | (other, held) :: rest =>
    if key < other then (key, value) :: (other, held) :: rest
    else if key = other then (key, value) :: rest
    else (other, held) :: put key value rest

def find (key : Key) (map : List (Key × Value)) : Option Value := map.lookup key

theorem lookup_cons_ite (other : Key) (entry : Key × Value) (map : List (Key × Value)) :
    List.lookup other (entry :: map) = if other = entry.1 then some entry.2 else map.lookup other := by
  by_cases same : other = entry.1
  · rw [List.lookup_cons, beq_iff_eq.mpr same, if_pos same]
  · rw [List.lookup_cons, beq_eq_false_iff_ne.mpr same, if_neg same]

@[simp]
theorem lookup_put (key other : Key) (value : Value) (map : List (Key × Value)) :
    (put key value map).lookup other = if other = key then some value else map.lookup other := by
  induction map with
  | nil => exact lookup_cons_ite other (key, value) []
  | cons entry rest ih =>
    obtain ⟨held, old⟩ := entry
    rw [put]
    split
    · exact lookup_cons_ite other (key, value) _
    · split
      · next same =>
        subst same
        rw [lookup_cons_ite, lookup_cons_ite]
        split <;> rfl
      · next different =>
        rw [lookup_cons_ite, lookup_cons_ite, ih]
        by_cases here : other = held
        · rw [if_pos here, if_pos here, if_neg fun same => different (same.symm.trans here)]
        · rw [if_neg here, if_neg here]

theorem find_put (key other : Key) (value : Value) (map : List (Key × Value)) :
    find other (put key value map) = if other = key then some value else find other map :=
  lookup_put key other value map

/-- Every key once, in order. -/
def Sorted (map : List (Key × Value)) : Prop := map.Pairwise fun left right => left.1 < right.1

instance (map : List (Key × Value)) : Decidable (Sorted map) :=
  inferInstanceAs (Decidable (map.Pairwise fun left right => left.1 < right.1))

theorem mem_keys_put {key other : Key} {value : Value} {map : List (Key × Value)} :
    other ∈ (put key value map).map Prod.fst ↔ other = key ∨ other ∈ map.map Prod.fst := by
  induction map with
  | nil => simp [put]
  | cons entry rest ih =>
    rw [put]
    split
    · simp
    · split
      · next same => simp [same]
      · rw [List.map_cons, List.map_cons, List.mem_cons, List.mem_cons, ih]
        tauto

theorem Sorted.put {map : List (Key × Value)} (sorted : Sorted map) (key : Key) (value : Value) :
    Sorted (put key value map) := by
  induction map with
  | nil => exact List.pairwise_singleton _ _
  | cons entry rest ih =>
    obtain ⟨below, rest_sorted⟩ := List.pairwise_cons.mp sorted
    rw [Ordered.put]
    split
    · next before =>
      apply List.pairwise_cons.mpr
      refine ⟨?_, sorted⟩
      intro later member
      rcases List.mem_cons.mp member with same | after
      · rw [same]
        exact before
      · exact lt_trans before (below later after)
    · next notBefore =>
      split
      · next same =>
        apply List.pairwise_cons.mpr
        refine ⟨?_, rest_sorted⟩
        intro later member
        rw [same]
        exact below later member
      · next different =>
        apply List.pairwise_cons.mpr
        refine ⟨?_, ih rest_sorted⟩
        intro later member
        have key_of_put := mem_keys_put.mp (List.mem_map_of_mem member)
        rcases key_of_put with same | old
        · rw [same]
          exact lt_of_le_of_ne (not_lt.mp notBefore) (Ne.symm different)
        · obtain ⟨held, member, same⟩ := List.mem_map.mp old
          rw [← same]
          exact below held member

theorem mem_keys_iff_lookup {key : Key} {map : List (Key × Value)} :
    key ∈ map.map Prod.fst ↔ ∃ value, map.lookup key = some value := by
  induction map with
  | nil => simp
  | cons entry rest ih =>
    rw [List.map_cons, List.mem_cons, ih, lookup_cons_ite]
    by_cases same : key = entry.1 <;> simp [same]

theorem find_eq_none_iff {key : Key} {map : List (Key × Value)} :
    find key map = none ↔ key ∉ map.map Prod.fst := by
  rw [mem_keys_iff_lookup, ← Option.isSome_iff_exists, Option.not_isSome_iff_eq_none]
  rfl

theorem Sorted.getLast? {map : List (Key × Value)} (sorted : Sorted map) {last : Key × Value}
    (found : map.getLast? = some last) :
    map.lookup last.1 = some last.2 ∧ ∀ key ∈ map.map Prod.fst, key ≤ last.1 := by
  obtain ⟨before, rfl⟩ := List.getLast?_eq_some_iff.mp found
  obtain ⟨-, -, below⟩ := List.pairwise_append.mp sorted
  constructor
  · have absent : before.lookup last.1 = none := by
      rw [List.lookup_eq_none_iff]
      intro entry member
      have less := below entry member last (List.mem_singleton_self _)
      exact bne_iff_ne.mpr (ne_of_gt less)
    rw [List.lookup_append, absent, Option.none_or, lookup_cons_ite, if_pos rfl]
  · intro key member
    rw [List.map_append, List.mem_append] at member
    rcases member with earlier | same
    · obtain ⟨entry, member, rfl⟩ := List.mem_map.mp earlier
      exact le_of_lt (below entry member last (List.mem_singleton_self _))
    · exact le_of_eq (List.mem_singleton.mp same)

theorem setOf_pairwise (items : List Key) : (setOf items).Pairwise (· < ·) := by
  have sorted : (setOf items).Pairwise (· ≤ ·) :=
    (List.pairwise_insertionSort (· ≤ ·) items).sublist (List.dedup_sublist _)
  have distinct : (setOf items).Pairwise (· ≠ ·) := List.nodup_dedup _
  apply (sorted.and distinct).imp
  intro left right both
  exact lt_of_le_of_ne both.1 both.2

theorem eq_of_mem_iff {left right : List Key} (ordered : left.Pairwise (· < ·))
    (ordered' : right.Pairwise (· < ·)) (same : ∀ key, key ∈ left ↔ key ∈ right) :
    left = right := by
  have perm : left.Perm right :=
    (List.perm_ext_iff_of_nodup (ordered.imp ne_of_lt) (ordered'.imp ne_of_lt)).mpr same
  exact perm.eq_of_pairwise (fun _ _ _ _ first second => absurd (lt_trans first second) (lt_irrefl _))
    ordered ordered'

theorem setOf_congr {items others : List Key} (same : ∀ key, key ∈ items ↔ key ∈ others) :
    setOf items = setOf others := by
  apply eq_of_mem_iff (setOf_pairwise _) (setOf_pairwise _)
  intro key
  rw [mem_setOf, mem_setOf, same]

theorem Sorted.lookup_of_mem {map : List (Key × Value)} (sorted : Sorted map) {key : Key}
    {value : Value} (member : (key, value) ∈ map) : map.lookup key = some value := by
  induction map with
  | nil => cases member
  | cons entry rest ih =>
    obtain ⟨below, rest_sorted⟩ := List.pairwise_cons.mp sorted
    rw [lookup_cons_ite]
    rcases List.mem_cons.mp member with rfl | later
    · rw [if_pos rfl]
    · rw [if_neg (ne_of_gt (below _ later)), ih rest_sorted later]

/-- A map is its keys in order, each with what is under it. -/
theorem Sorted.map_eq {map : List (Key × Value)} (sorted : Sorted map) {keys : List Key}
    (known : ∀ key, key ∈ map.map Prod.fst ↔ key ∈ keys) {Part : Type*} {f : Value → Part}
    {v : Key → Part} (held : ∀ key value, find key map = some value → f value = v key) :
    map.map (fun entry => (entry.1, f entry.2)) = (setOf keys).map fun key => (key, v key) := by
  have keysOf : map.map Prod.fst = setOf keys := by
    apply eq_of_mem_iff (List.pairwise_map.mpr sorted) (setOf_pairwise keys)
    intro key
    rw [known, mem_setOf]
  rw [← keysOf, List.map_map]
  apply List.map_congr_left
  intro entry member
  rw [Function.comp_apply, held entry.1 entry.2 (sorted.lookup_of_mem member)]

section Groups

variable {Item : Type*} (keyOf : Item → Key)

def group (items : List Item) : List (Key × List Item) :=
  items.foldl (fun groups item =>
    put (keyOf item) ((groups.lookup (keyOf item)).getD [] ++ [item]) groups) []

theorem group_append (items : List Item) (item : Item) :
    group keyOf (items ++ [item]) =
      put (keyOf item) (((group keyOf items).lookup (keyOf item)).getD [] ++ [item])
        (group keyOf items) := by
  rw [group, List.foldl_append]
  rfl

theorem lookup_group (items : List Item) (key : Key) :
    (group keyOf items).lookup key =
      if ∃ item ∈ items, keyOf item = key then some (items.filter (keyOf · = key)) else none := by
  induction items using List.reverseRecOn with
  | nil => simp [group]
  | append_singleton items item ih =>
    rw [group_append, lookup_put]
    by_cases same : key = keyOf item
    · subst same
      have all : ((group keyOf items).lookup (keyOf item)).getD [] =
          items.filter (keyOf · = keyOf item) := by
        rw [ih]
        split
        · rfl
        · next absent =>
          rw [Option.getD_none, eq_comm, List.filter_eq_nil_iff]
          intro other member
          simpa using fun same => absent ⟨other, member, same⟩
      rw [if_pos rfl, all, if_pos ⟨item, by simp, rfl⟩, List.filter_append,
        List.filter_cons_of_pos (by simp), List.filter_nil]
    · have others : (∃ other ∈ items ++ [item], keyOf other = key) ↔
          ∃ other ∈ items, keyOf other = key := by
        simp [Ne.symm same]
      rw [if_neg same, ih, List.filter_append, List.filter_cons_of_neg (by simpa using Ne.symm same),
        List.filter_nil, List.append_nil]
      simp only [others]

end Groups

def mapOf (pairs : List (Key × Value)) : List (Key × Value) :=
  pairs.foldl (fun map pair => put pair.1 pair.2 map) []

def extend (map others : List (Key × Value)) : List (Key × Value) :=
  others.foldl (fun map pair => put pair.1 pair.2 map) map

theorem Sorted.extend {map : List (Key × Value)} (sorted : Sorted map)
    (others : List (Key × Value)) : Sorted (extend map others) := by
  induction others generalizing map with
  | nil => exact sorted
  | cons pair others ih => exact ih (sorted.put pair.1 pair.2)

theorem lookup_extend (map others : List (Key × Value)) (key : Key) :
    (extend map others).lookup key = (others.reverse.lookup key).or (map.lookup key) := by
  induction others generalizing map with
  | nil => simp [extend]
  | cons pair others ih =>
    have later := ih (put pair.1 pair.2 map)
    rw [extend, List.foldl_cons]
    refine later.trans ?_
    rw [lookup_put, List.reverse_cons, List.lookup_append, lookup_cons_ite, List.lookup_nil,
      Option.or_assoc]
    split <;> rfl

theorem find_mapOf (pairs : List (Key × Value)) (key : Key) :
    find key (mapOf pairs) = ((pairs.filter (·.1 = key)).getLast?).map Prod.snd := by
  induction pairs using List.reverseRecOn with
  | nil => rfl
  | append_singleton pairs pair ih =>
    rw [mapOf, List.foldl_append, List.foldl_cons, List.foldl_nil, find_put, List.filter_append]
    by_cases same : key = pair.1
    · simp [same]
    · rw [if_neg same, List.filter_cons_of_neg (by simpa using Ne.symm same), List.filter_nil,
        List.append_nil]
      exact ih

theorem Sorted.mem_iff_lookup {map : List (Key × Value)} (sorted : Sorted map) {key : Key}
    {value : Value} : (key, value) ∈ map ↔ map.lookup key = some value := by
  constructor
  · exact sorted.lookup_of_mem
  · intro found
    obtain ⟨before, after, rfl, _⟩ := List.lookup_eq_some_iff.mp found
    simp

end Ordered
