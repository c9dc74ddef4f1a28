import Mathlib

/-!
# Lists compared item by item

Two lists whose items stand in a relation one by one, and lists of values under
keys, where every value of one is at most that of the other.
-/

namespace Pointwise

universe u v

variable {α : Type u} {β : Type v} {R : α → β → Prop} {xs : List α} {ys : List β}

theorem length_filter_le {p : α → Bool} {q : β → Bool} (related : List.Forall₂ R xs ys)
    (keeps : ∀ x y, R x y → p x = true → q y = true) :
    (xs.filter p).length ≤ (ys.filter q).length := by
  induction related with
  | nil => exact Nat.le_refl _
  | @cons x y xs ys head _ ih =>
    rw [List.filter_cons, List.filter_cons]
    by_cases holds : p x = true
    · rw [if_pos holds, if_pos (keeps x y head holds), List.length_cons, List.length_cons]
      omega
    · rw [if_neg holds]
      split
      · rw [List.length_cons]
        omega
      · exact ih

theorem sum_map_le {f : α → Nat} {g : β → Nat} (related : List.Forall₂ R xs ys)
    (le : ∀ x y, R x y → f x ≤ g y) : (xs.map f).sum ≤ (ys.map g).sum := by
  induction related with
  | nil => exact Nat.le_refl _
  | cons head _ ih =>
    rw [List.map_cons, List.map_cons, List.sum_cons, List.sum_cons]
    exact Nat.add_le_add (le _ _ head) ih

theorem sum_map_eq_iff {f : α → Nat} {g : β → Nat} (related : List.Forall₂ R xs ys)
    (le : ∀ x y, R x y → f x ≤ g y) :
    (xs.map f).sum = (ys.map g).sum ↔ List.Forall₂ (fun x y => f x = g y) xs ys := by
  induction related with
  | nil => simp
  | @cons x y xs ys head rest ih =>
    have here := le x y head
    have later := sum_map_le rest le
    rw [List.forall₂_cons, ← ih]
    simp only [List.map_cons, List.sum_cons]
    omega

theorem length_filter_eq_sum (p : α → Bool) (xs : List α) :
    (xs.filter p).length = (xs.map fun x => (p x).toNat).sum := by
  induction xs with
  | nil => rfl
  | cons x xs ih =>
    rw [List.map_cons, List.sum_cons, ← ih, List.filter_cons]
    cases p x with
    | true => simp [Nat.add_comm]
    | false => simp

theorem length_filter_eq_iff {p : α → Bool} {q : β → Bool} (related : List.Forall₂ R xs ys)
    (keeps : ∀ x y, R x y → p x = true → q y = true) :
    (xs.filter p).length = (ys.filter q).length ↔ List.Forall₂ (fun x y => p x = q y) xs ys := by
  rw [length_filter_eq_sum, length_filter_eq_sum,
    sum_map_eq_iff related fun x y here => Bool.toNat_le_toNat (keeps x y here)]
  have same (x : α) (y : β) : (p x).toNat = (q y).toNat ↔ p x = q y := by
    cases p x <;> cases q y <;> decide
  simp only [same]

theorem length_filter_id_eq_iff {flags flags' : List Bool}
    (related : List.Forall₂ (· ≤ ·) flags flags') :
    (flags.filter id).length = (flags'.filter id).length ↔ flags = flags' := by
  have rises (flag flag' : Bool) (le : flag ≤ flag') : id flag = true → id flag' = true := le
  rw [length_filter_eq_iff related rises]
  simp only [id_eq, List.forall₂_eq_eq_eq]

theorem map_eq {γ : Type*} {f : α → γ} {g : β → γ} (related : List.Forall₂ R xs ys)
    (same : ∀ x y, R x y → f x = g y) : xs.map f = ys.map g := by
  induction related with
  | nil => rfl
  | cons head _ ih => rw [List.map_cons, List.map_cons, same _ _ head, ih]

theorem filter {p : α → Bool} {q : β → Bool} (related : List.Forall₂ R xs ys)
    (same : ∀ x y, R x y → p x = q y) : List.Forall₂ R (xs.filter p) (ys.filter q) :=
  List.rel_filter (fun x y here => Bool.eq_iff_iff.mp (same x y here)) related

theorem map {γ δ : Type*} {S : γ → δ → Prop} {f : α → γ} {g : β → δ}
    (related : List.Forall₂ R xs ys) (each : ∀ x y, R x y → S (f x) (g y)) :
    List.Forall₂ S (xs.map f) (ys.map g) :=
  List.rel_map (fun x y here => each x y here) related

theorem map_self {γ δ : Type*} {S : γ → δ → Prop} {f : α → γ} {g : α → δ}
    (each : ∀ x ∈ xs, S (f x) (g x)) : List.Forall₂ S (xs.map f) (xs.map g) := by
  rw [List.forall₂_map_left_iff, List.forall₂_map_right_iff]
  exact List.forall₂_same.mpr each

theorem flatMap {γ δ : Type*} {S : γ → δ → Prop} {f : α → List γ} {g : β → List δ}
    (related : List.Forall₂ R xs ys) (each : ∀ x y, R x y → List.Forall₂ S (f x) (g y)) :
    List.Forall₂ S (xs.flatMap f) (ys.flatMap g) :=
  List.rel_flatMap related fun x y here => each x y here

theorem exists_right (related : List.Forall₂ R xs ys) {x : α} (member : x ∈ xs) :
    ∃ y ∈ ys, R x y := by
  induction related with
  | nil => cases member
  | cons head _ ih =>
    rcases List.mem_cons.mp member with rfl | later
    · exact ⟨_, List.mem_cons_self, head⟩
    · obtain ⟨y, among, holds⟩ := ih later
      exact ⟨y, List.mem_cons_of_mem _ among, holds⟩

theorem exists_left (related : List.Forall₂ R xs ys) {y : β} (member : y ∈ ys) :
    ∃ x ∈ xs, R x y :=
  exists_right (R := fun y x => R x y) (List.Forall₂.flip related) member

/-- Values under the same keys, each at most the other's. -/
def Below {Key : Type u} {Value : Type v} [LE Value] :
    List (Key × Value) → List (Key × Value) → Prop :=
  List.Forall₂ fun left right => left.1 = right.1 ∧ left.2 ≤ right.2

theorem Below.antisymm {Key : Type u} {Value : Type v} [PartialOrder Value]
    {left right : List (Key × Value)} (forth : Below left right) (back : Below right left) :
    left = right := by
  induction forth with
  | nil => rfl
  | @cons first second _ _ head _ ih =>
    cases back with
    | cons head' back' =>
      rw [ih back', Prod.ext head.1 (le_antisymm head.2 head'.2)]

theorem Below.eq_iff {Key : Type u} {Value : Type v} [LE Value] {left right : List (Key × Value)}
    (below : Below left right) : left = right ↔ left.map Prod.snd = right.map Prod.snd := by
  induction below with
  | nil => simp
  | @cons first second rest rest' head _ ih =>
    rw [List.cons.injEq, ih, List.map_cons, List.map_cons, List.cons.injEq, Prod.ext_iff]
    exact and_congr_left fun _ => and_iff_right head.1

end Pointwise
