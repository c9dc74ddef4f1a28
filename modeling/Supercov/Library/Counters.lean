import Supercov.Library.Tally

/-!
# Counts kept by key

A map of counts to which counts are added one by one.  A `limit` says what is kept of a sum: all
of it, or at most so much.
-/

namespace Counters

open Ordered (put find Sorted)
open Tally (sumAt)

universe u

variable {Key : Type u} [LinearOrder Key]

def count (key : Key) (counts : List (Key × Nat)) : Nat := (find key counts).getD 0

section Noting

variable (limit : Nat → Nat)

def note (counts : List (Key × Nat)) (entry : Key × Nat) : List (Key × Nat) :=
  put entry.1 (limit (count entry.1 counts + entry.2)) counts

def tallied (entries : List (Key × Nat)) : List (Key × Nat) := entries.foldl (note limit) []

variable {limit} {entries others : List (Key × Nat)} {key : Key}

theorem sumAt_append : sumAt key (entries ++ others) = sumAt key entries + sumAt key others := by
  simp [sumAt]

theorem sumAt_singleton (entry : Key × Nat) :
    sumAt key [entry] = if key = entry.1 then entry.2 else 0 := by
  by_cases same : key = entry.1
  · simp [sumAt, same]
  · simp [sumAt, same, Ne.symm same]

theorem sumAt_of_not_mem (absent : key ∉ entries.map Prod.fst) : sumAt key entries = 0 := by
  have none : entries.filter (·.1 = key) = [] := by
    rw [List.filter_eq_nil_iff]
    intro entry member same
    have held := List.mem_map_of_mem (f := Prod.fst) member
    rw [of_decide_eq_true same] at held
    exact absent held
  rw [sumAt, none]
  rfl

theorem sumAt_pos_iff : 0 < sumAt key entries ↔ ∃ count, (key, count) ∈ entries ∧ 0 < count := by
  induction entries with
  | nil => simp [sumAt]
  | cons entry entries ih =>
    rw [← List.singleton_append, sumAt_append, sumAt_singleton]
    have cases_iff : 0 < (if key = entry.1 then entry.2 else 0) ↔ key = entry.1 ∧ 0 < entry.2 := by
      split <;> simp_all
    rw [Nat.add_pos_iff_pos_or_pos, ih, cases_iff]
    constructor
    · rintro (⟨rfl, some⟩ | ⟨count, member, some⟩)
      · exact ⟨entry.2, List.mem_cons_self, some⟩
      · exact ⟨count, List.mem_cons_of_mem _ member, some⟩
    · rintro ⟨count, member, some⟩
      rcases List.mem_cons.mp member with rfl | member
      · exact Or.inl ⟨rfl, some⟩
      · exact Or.inr ⟨count, member, some⟩

theorem sumAt_flatMap {Item : Type*} (items : List Item) (of : Item → List (Key × Nat)) :
    sumAt key (items.flatMap of) = (items.map fun item => sumAt key (of item)).sum := by
  induction items with
  | nil => rfl
  | cons item items ih => rw [List.flatMap_cons, sumAt_append, ih, List.map_cons, List.sum_cons]

theorem sumAt_of_sorted {counts : List (Key × Nat)} (sorted : Sorted counts) :
    sumAt key counts = count key counts := by
  induction counts with
  | nil => rfl
  | cons entry counts ih =>
    have ⟨below, sorted⟩ := List.pairwise_cons.mp sorted
    rw [← List.singleton_append, sumAt_append, sumAt_singleton, List.singleton_append, count, find,
      Ordered.lookup_cons_ite]
    by_cases same : key = entry.1
    · have absent : key ∉ counts.map Prod.fst := by
        intro member
        obtain ⟨later, member, same'⟩ := List.mem_map.mp member
        exact absurd (same ▸ same' ▸ below later member) (lt_irrefl _)
      rw [if_pos same, if_pos same, sumAt_of_not_mem absent]
      rfl
    · rw [if_neg same, if_neg same, Nat.zero_add, ih sorted]
      rfl

theorem tallied_snoc (entry : Key × Nat) :
    tallied limit (entries ++ [entry]) = note limit (tallied limit entries) entry := by
  rw [tallied, List.foldl_append]
  rfl

theorem tallied_sorted : Sorted (tallied limit entries) := by
  induction entries using List.reverseRecOn with
  | nil => exact List.Pairwise.nil
  | append_singleton entries entry ih =>
    rw [tallied_snoc]
    exact ih.put _ _

theorem find_tallied (kept : ∀ held more, limit (limit held + more) = limit (held + more)) :
    find key (tallied limit entries) =
      if key ∈ entries.map Prod.fst then some (limit (sumAt key entries)) else none := by
  induction entries using List.reverseRecOn with
  | nil => rfl
  | append_singleton entries entry ih =>
    rw [tallied_snoc, note, Ordered.find_put, sumAt_append, sumAt_singleton]
    by_cases same : key = entry.1
    · subst same
      rw [if_pos rfl, if_pos rfl, if_pos (by simp), count, ih]
      split
      · rw [Option.getD_some, kept]
      · next absent => rw [Option.getD_none, sumAt_of_not_mem absent]
    · rw [if_neg same, if_neg same, ih, Nat.add_zero]
      have keys : key ∈ (entries ++ [entry]).map Prod.fst ↔ key ∈ entries.map Prod.fst := by
        rw [List.map_append, List.mem_append, List.map_singleton, List.mem_singleton]
        simp only [same, or_false]
      simp only [keys]

theorem count_tallied (kept : ∀ held more, limit (limit held + more) = limit (held + more))
    (empty : limit 0 = 0) : count key (tallied limit entries) = limit (sumAt key entries) := by
  rw [count, find_tallied kept]
  split
  · rfl
  · next absent => rw [Option.getD_none, sumAt_of_not_mem absent, empty]

end Noting

theorem eq_of_find {Value : Type*} {map map' : List (Key × Value)} (sorted : Sorted map)
    (sorted' : Sorted map') (same : ∀ key, find key map = find key map') : map = map' := by
  have keys : map.map Prod.fst = map'.map Prod.fst := by
    apply Ordered.eq_of_mem_iff (List.pairwise_map.mpr sorted) (List.pairwise_map.mpr sorted')
    intro key
    rw [Ordered.mem_keys_iff_lookup, Ordered.mem_keys_iff_lookup]
    change (∃ value, find key map = some value) ↔ ∃ value, find key map' = some value
    rw [same]
  have entry_iff (entry : Key × Value) : entry ∈ map ↔ entry ∈ map' := by
    rw [sorted.mem_iff_lookup, sorted'.mem_iff_lookup]
    change find entry.1 map = _ ↔ find entry.1 map' = _
    rw [same]
  have length := congrArg List.length keys
  have perm : map.Perm map' := by
    apply (List.perm_ext_iff_of_nodup ?_ ?_).mpr entry_iff
    · exact List.Nodup.of_map _ (List.Pairwise.imp (fun before => ne_of_lt before)
        (List.pairwise_map.mpr sorted))
    · exact List.Nodup.of_map _ (List.Pairwise.imp (fun before => ne_of_lt before)
        (List.pairwise_map.mpr sorted'))
  exact perm.eq_of_pairwise
    (fun left right _ _ before after => absurd (lt_trans before after) (lt_irrefl _)) sorted sorted'

theorem tallied_of_sorted {limit : Nat → Nat} {entries : List (Key × Nat)}
    (kept : ∀ held more, limit (limit held + more) = limit (held + more)) (sorted : Sorted entries)
    (whole : ∀ entry ∈ entries, limit entry.2 = entry.2) : tallied limit entries = entries := by
  apply eq_of_find tallied_sorted sorted
  intro key
  rw [find_tallied kept, sumAt_of_sorted sorted]
  split
  · next member =>
    obtain ⟨value, found⟩ := Ordered.mem_keys_iff_lookup.mp member
    have held : find key entries = some value := found
    rw [count, held, Option.getD_some, whole _ (sorted.mem_iff_lookup.mpr found)]
  · next absent => exact (Ordered.find_eq_none_iff.mpr absent).symm

section Permuted

variable {limit : Nat → Nat} {entries others : List (Key × Nat)}

theorem sumAt_perm (same : entries.Perm others) (key : Key) : sumAt key entries = sumAt key others :=
  ((same.filter _).map _).sum_eq

theorem tallied_perm (kept : ∀ held more, limit (limit held + more) = limit (held + more))
    (same : entries.Perm others) : tallied limit entries = tallied limit others := by
  apply eq_of_find tallied_sorted tallied_sorted
  intro key
  rw [find_tallied kept, find_tallied kept, sumAt_perm same]
  simp only [(same.map Prod.fst).mem_iff]

end Permuted

end Counters
