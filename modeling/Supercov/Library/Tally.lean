import Supercov.Library.Ordered
import Supercov.Library.Outcome
import Mathlib

/-!
# Sums kept by key

A map whose values are measured holds so much in all, and so much under each key.  A
change says what it adds under which key, and changes add up.
-/

namespace Tally

open Ordered (put Sorted)

universe u v w x

variable {Key : Type u} {Value : Type v} {Amount : Type w} [LinearOrder Key] [AddCommMonoid Amount]
  (measure : Value → Amount)

def total (map : List (Key × Value)) : Amount := (map.map fun entry => measure entry.2).sum

def share (key : Key) (map : List (Key × Value)) : Amount :=
  ((map.lookup key).map measure).getD 0

def sumAt (key : Key) (gains : List (Key × Amount)) : Amount :=
  ((gains.filter (·.1 = key)).map Prod.snd).sum

variable {measure} {map map' map'' : List (Key × Value)}

theorem share_put (key other : Key) (value : Value) :
    share measure other (put key value map) =
      if other = key then measure value else share measure other map := by
  rw [share, Ordered.lookup_put]
  split
  · rfl
  · rfl

theorem share_cons (key : Key) (entry : Key × Value) :
    share measure key (entry :: map) = if key = entry.1 then measure entry.2 else share measure key map := by
  rw [share, Ordered.lookup_cons_ite]
  split <;> rfl

theorem total_put (sorted : Sorted map) {key : Key} {value : Value} {gain : Amount}
    (grown : measure value = share measure key map + gain) :
    total measure (put key value map) = total measure map + gain := by
  induction map with
  | nil =>
    have whole : measure value = gain := by simpa [share] using grown
    simp [put, total, whole]
  | cons entry rest ih =>
    obtain ⟨other, held⟩ := entry
    obtain ⟨below, rest_sorted⟩ := List.pairwise_cons.mp sorted
    rw [share_cons] at grown
    rw [put]
    split
    · next before =>
      have absent : rest.lookup key = none := by
        rw [List.lookup_eq_none_iff]
        intro later member
        exact bne_iff_ne.mpr (ne_of_lt (lt_trans before (below later member)))
      rw [if_neg (ne_of_lt before), share, absent, Option.map_none, Option.getD_none, zero_add] at grown
      simp only [total, List.map_cons, List.sum_cons, grown]
      exact add_comm _ _
    · split
      · next same =>
        rw [if_pos same] at grown
        simp only [total, List.map_cons, List.sum_cons, grown]
        exact add_right_comm _ _ _
      · next different =>
        rw [if_neg different] at grown
        have later := ih rest_sorted grown
        simp only [total, List.map_cons, List.sum_cons] at later ⊢
        rw [later, add_assoc]

variable (measure) in
/-- The second map is the first one with these amounts added under their keys. -/
structure Gains (map map' : List (Key × Value)) (gains : List (Key × Amount)) : Prop where
  sorted : Sorted map → Sorted map'
  total : Sorted map → total measure map' = Tally.total measure map + (gains.map Prod.snd).sum
  share : ∀ key, share measure key map' = Tally.share measure key map + sumAt key gains

theorem Gains.refl : Gains measure map map ([] : List (Key × Amount)) where
  sorted := id
  total := fun _ => (add_zero _).symm
  share := fun _ => (add_zero _).symm

theorem Gains.trans {gains gains' : List (Key × Amount)} (first : Gains measure map map' gains)
    (second : Gains measure map' map'' gains') : Gains measure map map'' (gains ++ gains') where
  sorted := second.sorted ∘ first.sorted
  total := by
    intro sorted
    rw [second.total (first.sorted sorted), first.total sorted, List.map_append, List.sum_append,
      add_assoc]
  share := by
    intro key
    rw [second.share, first.share, sumAt, sumAt, sumAt, List.filter_append, List.map_append,
      List.sum_append, add_assoc]

theorem Gains.put {key : Key} {value : Value} {gain : Amount}
    (grown : measure value = Tally.share measure key map + gain) :
    Gains measure map (Ordered.put key value map) [(key, gain)] where
  sorted := fun sorted => sorted.put key value
  total := fun sorted => by simpa using total_put sorted grown
  share := by
    intro other
    rw [share_put, sumAt]
    by_cases same : key = other
    · subst same
      simp [grown]
    · simp [same, Ne.symm same]

variable (map)

theorem Gains.foldl {Item : Type x} (items : List Item)
    {step : List (Key × Value) → Item → List (Key × Value)} {gain : Item → List (Key × Amount)}
    (each : ∀ map, ∀ item ∈ items, Gains measure map (step map item) (gain item)) :
    Gains measure map (items.foldl step map) (items.flatMap gain) := by
  induction items generalizing map with
  | nil => exact Gains.refl
  | cons item items ih =>
    apply (each map item List.mem_cons_self).trans
    exact ih _ fun map other member => each map other (List.mem_cons_of_mem _ member)

theorem Gains.foldlM {ε : Type*} {Item : Type x} (items : List Item)
    {step : List (Key × Value) → Item → Outcome ε (List (Key × Value))}
    {gain : Item → List (Key × Amount)}
    (each : ∀ map, ∀ item ∈ items, ∃ map', step map item = .ok map' ∧ Gains measure map map' (gain item)) :
    ∃ map', items.foldlM step map = .ok map' ∧ Gains measure map map' (items.flatMap gain) := by
  induction items generalizing map with
  | nil => exact ⟨map, rfl, Gains.refl⟩
  | cons item items ih =>
    obtain ⟨next, taken, first⟩ := each map item List.mem_cons_self
    obtain ⟨last, ends, others⟩ :=
      ih next fun map other member => each map other (List.mem_cons_of_mem _ member)
    exact ⟨last, by rw [List.foldlM_cons, taken, Outcome.ok_bind, ends], first.trans others⟩

end Tally
