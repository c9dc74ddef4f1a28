import Mathlib.Data.List.Basic
import Mathlib.Data.List.Induction
import Mathlib.Data.List.Infix

/-!
# Trees and the places in them

A place is the way to a subtree from the root, its last step first, so that the place above
it is the rest of the list.
-/

universe u

inductive PlacedTree (Label : Type u) where
  | node (label : Label) (children : List (PlacedTree Label))

namespace PlacedTree

variable {Label : Type u}

/-- The index among its siblings, then that of the parent, and so on to the root. -/
abbrev Place := List Nat

def label : PlacedTree Label → Label
  | node label _ => label

def children : PlacedTree Label → List (PlacedTree Label)
  | node _ children => children

def subtree? (tree : PlacedTree Label) : Place → Option (PlacedTree Label)
  | [] => some tree
  | index :: above => (tree.subtree? above).bind (·.children[index]?)

@[simp] theorem subtree?_nil (tree : PlacedTree Label) : tree.subtree? [] = some tree := rfl

theorem subtree?_cons (tree : PlacedTree Label) (index : Nat) (above : Place) :
    tree.subtree? (index :: above) = (tree.subtree? above).bind (·.children[index]?) := rfl

theorem subtree?_append (tree : PlacedTree Label) (inner outer : Place) :
    tree.subtree? (inner ++ outer) = (tree.subtree? outer).bind (·.subtree? inner) := by
  induction inner with
  | nil => simp
  | cons index inner ih => rw [List.cons_append, subtree?_cons, ih, Option.bind_assoc]; rfl

section Any

variable (wanted : Label → Bool)

mutual

def any : PlacedTree Label → Bool
  | node label children => wanted label || anyOf children

def anyOf : List (PlacedTree Label) → Bool
  | [] => false
  | tree :: trees => any tree || anyOf trees

end

variable {wanted}

theorem anyOf_iff {trees : List (PlacedTree Label)} :
    anyOf wanted trees = true ↔ ∃ tree ∈ trees, any wanted tree = true := by
  induction trees with
  | nil => simp [anyOf]
  | cons tree trees ih => rw [anyOf, Bool.or_eq_true, ih, List.exists_mem_cons_iff]

theorem any_of_subtree? {tree found : PlacedTree Label} {place : Place}
    (stands : tree.subtree? place = some found) (has : any wanted found = true) :
    any wanted tree = true := by
  induction place generalizing found with
  | nil =>
    cases stands
    exact has
  | cons index above ih =>
    obtain ⟨parent, stands, child⟩ := Option.bind_eq_some_iff.mp stands
    refine ih stands ?_
    cases parent with
    | node label children =>
      rw [any, Bool.or_eq_true, anyOf_iff]
      exact .inr ⟨found, List.mem_of_getElem? child, has⟩

theorem any_of_label {tree : PlacedTree Label} (own : wanted tree.label = true) :
    any wanted tree = true := by
  cases tree with
  | node label children => rw [any, Bool.or_eq_true]; exact .inl own

end Any

section Every

variable (holds : Label → List (PlacedTree Label) → Bool)

mutual

def every : PlacedTree Label → Bool
  | node label children => holds label children && everyOf children

def everyOf : List (PlacedTree Label) → Bool
  | [] => true
  | tree :: trees => every tree && everyOf trees

end

variable {holds}

theorem everyOf_iff {trees : List (PlacedTree Label)} :
    everyOf holds trees = true ↔ ∀ tree ∈ trees, every holds tree = true := by
  induction trees with
  | nil => simp [everyOf]
  | cons tree trees ih => rw [everyOf, Bool.and_eq_true, ih, List.forall_mem_cons]

theorem every_of_subtree? {tree found : PlacedTree Label} {place : Place}
    (everywhere : every holds tree = true) (stands : tree.subtree? place = some found) :
    every holds found = true := by
  induction place generalizing found with
  | nil =>
    cases stands
    exact everywhere
  | cons index above ih =>
    obtain ⟨⟨label, children⟩, stands, child⟩ := Option.bind_eq_some_iff.mp stands
    have below := ih stands
    rw [every, Bool.and_eq_true, everyOf_iff] at below
    exact below.2 found (List.mem_of_getElem? child)

theorem holds_of_every {tree : PlacedTree Label} (everywhere : every holds tree = true) :
    holds tree.label tree.children = true := by
  cases tree with
  | node label children =>
    rw [every, Bool.and_eq_true] at everywhere
    exact everywhere.1

end Every

theorem subtree?_snoc (tree : PlacedTree Label) (inner : Place) (index : Nat) :
    tree.subtree? (inner ++ [index]) = (tree.children[index]?).bind (·.subtree? inner) := by
  rw [subtree?_append, subtree?_cons]
  rfl

section Places

mutual

def placesOf (place : Place) : PlacedTree Label → List (Place × PlacedTree Label)
  | .node label children => (place, .node label children) :: placesAmong place 0 children

def placesAmong (above : Place) (index : Nat) :
    List (PlacedTree Label) → List (Place × PlacedTree Label)
  | [] => []
  | child :: children => placesOf (index :: above) child ++ placesAmong above (index + 1) children

end

theorem mem_placesAmong {above : Place} {index after : Nat} {children : List (PlacedTree Label)}
    {child : PlacedTree Label} (stands : children[after]? = some child)
    {entry : Place × PlacedTree Label} (among : entry ∈ placesOf ((index + after) :: above) child) :
    entry ∈ placesAmong above index children := by
  induction children generalizing index after with
  | nil => cases stands
  | cons head children ih =>
    rw [placesAmong, List.mem_append]
    cases after with
    | zero =>
      cases stands
      exact .inl among
    | succ after =>
      rw [Nat.add_succ, ← Nat.succ_add] at among
      exact .inr (ih stands among)

theorem mem_placesOf {tree found : PlacedTree Label} {inner : Place}
    (stands : tree.subtree? inner = some found) (place : Place) :
    (inner ++ place, found) ∈ placesOf place tree := by
  induction inner using List.reverseRecOn generalizing tree place with
  | nil =>
    cases stands
    cases found
    exact List.mem_cons_self
  | append_singleton inner index ih =>
    rw [subtree?_snoc] at stands
    obtain ⟨child, at', below⟩ := Option.bind_eq_some_iff.mp stands
    have among := ih below (index :: place)
    cases tree with
    | node label children =>
      rw [placesOf, List.mem_cons]
      refine .inr (mem_placesAmong at' ?_)
      rwa [Nat.zero_add, List.append_assoc]

end Places

section Nearest

variable (wanted : Label → Bool) (tree : PlacedTree Label)

def isAt (place : Place) : Bool := (tree.subtree? place).any fun found => wanted found.label

def nearest : Place → Option Place
  | [] => if tree.isAt wanted [] then some [] else none
  | index :: above => if tree.isAt wanted (index :: above) then some (index :: above) else nearest above

variable {wanted tree}

theorem nearest_of_isAt {place : Place} (here : tree.isAt wanted place = true) :
    tree.nearest wanted place = some place := by
  cases place <;> rw [nearest, if_pos here]

theorem nearest_above {index : Nat} {above : Place}
    (other : tree.isAt wanted (index :: above) = false) :
    tree.nearest wanted (index :: above) = tree.nearest wanted above := by
  rw [nearest, if_neg (by rw [other]; exact Bool.false_ne_true)]

theorem nearest_suffix {place found : Place} (nearest : tree.nearest wanted place = some found) :
    found <:+ place := by
  induction place with
  | nil =>
    rw [PlacedTree.nearest] at nearest
    split at nearest
    · cases nearest
      exact List.suffix_refl []
    · cases nearest
  | cons index above ih =>
    cases here : tree.isAt wanted (index :: above) with
    | true =>
      cases (nearest_of_isAt here).symm.trans nearest
      exact List.suffix_refl _
    | false => exact (ih ((nearest_above here).symm.trans nearest)).trans (List.suffix_cons index above)

end Nearest

end PlacedTree
