import Mathlib

/-!
# Lists measured by their items

A list whose items have widths is cut where the items before the cut are so wide in all.
-/

namespace Measured

variable {Item : Type*} (width : Item → Nat)

def total (items : List Item) : Nat := (items.map width).sum

def dropTo : List Item → Nat → Option (List Item)
  | items, 0 => some items
  | [], _ + 1 => none
  | item :: items, offset + 1 =>
    if width item ≤ offset + 1 then dropTo items (offset + 1 - width item) else none

def takeTo : List Item → Nat → Option (List Item)
  | _, 0 => some []
  | [], _ + 1 => none
  | item :: items, offset + 1 =>
    if width item ≤ offset + 1 then
      (takeTo items (offset + 1 - width item)).map (item :: ·)
    else none

def slice (items : List Item) (start stop : Nat) : Option (List Item) :=
  if start ≤ stop then (dropTo width items start).bind fun rest => takeTo width rest (stop - start)
  else none

section Totals

variable {width}

@[simp]
theorem total_nil : total width [] = 0 := rfl

@[simp]
theorem total_cons (item : Item) (items : List Item) :
    total width (item :: items) = width item + total width items := by
  simp [total]

@[simp]
theorem total_append (items others : List Item) :
    total width (items ++ others) = total width items + total width others := by
  simp [total]

theorem total_le_of_front {items others : List Item} (before : items <+: others) :
    total width items ≤ total width others := by
  obtain ⟨rest, rfl⟩ := before
  rw [total_append]
  exact Nat.le_add_right _ _

theorem total_map {Other : Type*} (f : Other → Item) (items : List Other) :
    total width (items.map f) = total (width ∘ f) items := by
  rw [total, total, List.map_map]

end Totals

section Cuts

variable {width} (positive : ∀ item, 0 < width item)
include positive

theorem total_pos {items : List Item} (some : items ≠ []) : 0 < total width items := by
  cases items with
  | nil => exact absurd rfl some
  | cons item items =>
    have := positive item
    rw [total_cons]
    omega

theorem total_lt_of_front {items others : List Item} (before : items <+: others)
    (part : items ≠ others) : total width items < total width others := by
  obtain ⟨rest, rfl⟩ := before
  have rest_some : rest ≠ [] := fun nothing => part (by rw [nothing, List.append_nil])
  have := total_pos positive rest_some
  rw [total_append]
  omega

theorem prefix_of_total_le {items others whole : List Item} (before : items <+: whole)
    (before' : others <+: whole) (le : total width items ≤ total width others) :
    items <+: others := by
  rcases List.prefix_or_prefix_of_prefix before before' with inside | inside
  · exact inside
  · by_cases same : others = items
    · exact same ▸ List.prefix_rfl
    · exact absurd le (Nat.not_le.mpr (total_lt_of_front positive inside same))

theorem dropTo_append (items rest : List Item) :
    dropTo width (items ++ rest) (total width items) = some rest := by
  induction items with
  | nil => cases rest <;> rfl
  | cons item items ih =>
    have := positive item
    obtain ⟨offset, same⟩ : ∃ offset, total width (item :: items) = offset + 1 :=
      ⟨total width (item :: items) - 1, by rw [total_cons]; omega⟩
    rw [List.cons_append, same, dropTo, if_pos (by rw [total_cons] at same; omega), ← ih]
    congr 1
    rw [total_cons] at same
    omega

theorem takeTo_append (items rest : List Item) :
    takeTo width (items ++ rest) (total width items) = some items := by
  induction items with
  | nil => cases rest <;> rfl
  | cons item items ih =>
    have := positive item
    obtain ⟨offset, same⟩ : ∃ offset, total width (item :: items) = offset + 1 :=
      ⟨total width (item :: items) - 1, by rw [total_cons]; omega⟩
    have inner : offset + 1 - width item = total width items := by
      rw [total_cons] at same
      omega
    rw [List.cons_append, same, takeTo, if_pos (by rw [total_cons] at same; omega), inner, ih]
    rfl

theorem slice_append (before items after : List Item) :
    slice width (before ++ items ++ after) (total width before)
      (total width before + total width items) = some items := by
  rw [slice, if_pos (Nat.le_add_right _ _), List.append_assoc, dropTo_append positive,
    Option.bind_some, Nat.add_sub_cancel_left, takeTo_append positive]

end Cuts

section Found

variable {width}

theorem eq_of_dropTo {items rest : List Item} {offset : Nat}
    (found : dropTo width items offset = some rest) :
    ∃ before, items = before ++ rest ∧ total width before = offset := by
  induction items generalizing offset with
  | nil =>
    cases offset with
    | zero =>
      cases found
      exact ⟨[], rfl, rfl⟩
    | succ offset => cases found
  | cons item items ih =>
    cases offset with
    | zero =>
      cases found
      exact ⟨[], rfl, rfl⟩
    | succ offset =>
      rw [dropTo] at found
      split at found
      · obtain ⟨before, rfl, same⟩ := ih found
        refine ⟨item :: before, rfl, ?_⟩
        rw [total_cons, same]
        omega
      · cases found

theorem eq_of_takeTo {items front : List Item} {offset : Nat}
    (found : takeTo width items offset = some front) :
    front <+: items ∧ total width front = offset := by
  induction items generalizing offset front with
  | nil =>
    cases offset with
    | zero =>
      cases found
      exact ⟨List.nil_prefix, rfl⟩
    | succ offset => cases found
  | cons item items ih =>
    cases offset with
    | zero =>
      cases found
      exact ⟨List.nil_prefix, rfl⟩
    | succ offset =>
      rw [takeTo] at found
      split at found
      · obtain ⟨inner, taken, rfl⟩ := Option.map_eq_some_iff.mp found
        obtain ⟨before, same⟩ := ih taken
        refine ⟨List.prefix_cons_inj item |>.mpr before, ?_⟩
        rw [total_cons, same]
        omega
      · cases found

theorem eq_of_slice {items middle : List Item} {start stop : Nat}
    (found : slice width items start stop = some middle) :
    ∃ before after, items = before ++ middle ++ after ∧ total width before = start ∧
      total width before + total width middle = stop := by
  rw [slice] at found
  split at found
  · next le =>
    obtain ⟨rest, dropped, taken⟩ := Option.bind_eq_some_iff.mp found
    obtain ⟨before, rfl, same⟩ := eq_of_dropTo dropped
    obtain ⟨⟨after, rfl⟩, same'⟩ := eq_of_takeTo taken
    refine ⟨before, after, (List.append_assoc _ _ _).symm, same, ?_⟩
    omega
  · cases found

end Found

end Measured
