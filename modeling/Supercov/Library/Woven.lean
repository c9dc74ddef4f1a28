import Mathlib.Data.List.Sort

/-!
# Insertions into a text

Each insertion has the offset it is put at and a rank among those of one offset.  Made from the
right to the left no insertion moves the place of a later one; read from the left to the right
the result is the text with the insertions woven in.
-/

universe u v

open scoped List

namespace Woven

variable {Edit : Type u} {Letter : Type v}

section Order

variable (offset : Edit → Nat) (rank : Edit → Int)

/-- Whether an insertion is made before another: it stands further right, or at the same offset
and its rank is no lower. -/
def ComesFirst (first second : Edit) : Prop :=
  offset second < offset first ∨ offset second = offset first ∧ rank second ≤ rank first

instance : DecidableRel (ComesFirst offset rank) := fun _ _ => inferInstanceAs (Decidable (_ ∨ _))

instance : Std.Total (ComesFirst offset rank) where
  total first second := by unfold ComesFirst; omega

instance : IsTrans Edit (ComesFirst offset rank) where
  trans first second third := by unfold ComesFirst; omega

def ordered (edits : List Edit) : List Edit := edits.insertionSort (ComesFirst offset rank)

/-- What is inserted last stands leftmost. -/
def leftToRight (edits : List Edit) : List Edit := (ordered offset rank edits).reverse

variable {offset rank}

@[simp] theorem mem_leftToRight {edit : Edit} {edits : List Edit} :
    edit ∈ leftToRight offset rank edits ↔ edit ∈ edits := by
  rw [leftToRight, List.mem_reverse, ordered, List.mem_insertionSort]

theorem pairwise_leftToRight (edits : List Edit) :
    (leftToRight offset rank edits).Pairwise fun left right => offset left ≤ offset right := by
  rw [leftToRight, List.pairwise_reverse]
  exact (List.pairwise_insertionSort (ComesFirst offset rank) edits).imp fun first => by
    unfold ComesFirst at first
    omega

theorem orderedInsert_first {edit : Edit} {edits : List Edit}
    (first : ∀ other ∈ edits, ComesFirst offset rank edit other) :
    edits.orderedInsert (ComesFirst offset rank) edit = edit :: edits := by
  cases edits with
  | nil => rfl
  | cons head edits => exact List.orderedInsert_cons_of_le _ edits (first head List.mem_cons_self)

theorem filter_orderedInsert (wanted : Edit → Bool) (edit : Edit) {edits : List Edit}
    (sorted : edits.Pairwise (ComesFirst offset rank)) :
    (edits.orderedInsert (ComesFirst offset rank) edit).filter wanted =
      if wanted edit then (edits.filter wanted).orderedInsert (ComesFirst offset rank) edit
      else edits.filter wanted := by
  induction edits with
  | nil => cases has : wanted edit <;> simp [has]
  | cons head edits ih =>
    have ⟨first, sorted⟩ := List.pairwise_cons.mp sorted
    rw [List.orderedInsert_cons]
    split
    · rename_i before
      rw [orderedInsert_first, List.filter_cons]
      intro other member
      rcases List.mem_cons.mp (List.mem_filter.mp member).1 with rfl | member
      · exact before
      · exact IsTrans.trans _ _ _ before (first other member)
    · rename_i after
      rw [List.filter_cons, ih sorted, List.filter_cons]
      cases wanted edit <;> cases wanted head <;> simp [after]

theorem filter_leftToRight (wanted : Edit → Bool) (edits : List Edit) :
    (leftToRight offset rank edits).filter wanted =
      leftToRight offset rank (edits.filter wanted) := by
  rw [leftToRight, leftToRight, List.filter_reverse]
  congr 1
  induction edits with
  | nil => rfl
  | cons edit edits ih =>
    rw [ordered, List.insertionSort_cons, filter_orderedInsert wanted edit
      (List.pairwise_insertionSort _ edits)]
    change (if _ then List.orderedInsert _ edit ((ordered offset rank edits).filter wanted)
      else (ordered offset rank edits).filter wanted) = _
    rw [ih, List.filter_cons]
    split <;> rfl

theorem sublist_leftToRight {left right : Edit} {edits : List Edit}
    (made : [right, left] <+ edits) (first : ComesFirst offset rank right left) :
    [left, right] <+ leftToRight offset rank edits :=
  (List.pair_sublist_insertionSort first made).reverse

theorem sublist_leftToRight_of_not {left right : Edit} {edits : List Edit} (before : left ∈ edits)
    (after : right ∈ edits) (last : ¬ ComesFirst offset rank left right) :
    [left, right] <+ leftToRight offset rank edits := by
  have sorted := List.pairwise_insertionSort (ComesFirst offset rank) edits
  have other : left ∈ edits.insertionSort (ComesFirst offset rank) :=
    (List.mem_insertionSort _).mpr before
  obtain ⟨first, rest, parted⟩ := List.append_of_mem
    ((List.mem_insertionSort (ComesFirst offset rank)).mpr after)
  suffices held : [right, left] <+ ordered offset rank edits from held.reverse
  rw [ordered, parted]
  rw [parted] at sorted other
  refine ((List.singleton_sublist.mpr ?_).cons_cons right).trans (List.sublist_append_right first _)
  rcases List.mem_append.mp other with early | late
  · exact absurd ((List.pairwise_append.mp sorted).2.2 left early right List.mem_cons_self) last
  · refine (List.mem_cons.mp late).resolve_left fun same => last ?_
    exact .inr ⟨by rw [same], by rw [same]⟩

theorem leftToRight_pair {first second : Edit} (offsets : offset first = offset second)
    (ranks : rank first = rank second) :
    leftToRight offset rank [first, second] = [second, first] := by
  have before : ComesFirst offset rank first second := .inr ⟨offsets.symm, ranks.symm.le⟩
  rw [leftToRight, ordered, List.insertionSort_cons, List.insertionSort_cons,
    List.insertionSort_nil, List.orderedInsert_nil, List.orderedInsert_cons_of_le _ _ before]
  rfl

end Order

section Text

variable (offset : Edit → Nat) (text : Edit → List Letter) (mark : Nat → List Letter)

def insertAt (inserted : List Letter) (place : Nat) (out : List Letter) : List Letter :=
  out.take place ++ inserted ++ out.drop place

/-- One insertion into what those before it left, with a mark of the place that it is the first
at. -/
def insert (state : List Letter × Option Nat) (edit : Edit) : List Letter × Option Nat :=
  let out := if state.2 = some (offset edit) then state.1
    else insertAt (mark (offset edit)) (offset edit) state.1
  (insertAt (text edit) (offset edit) out, some (offset edit))

/-- What follows an insertion: its place is marked once, right of all that is inserted there. -/
def marked (edit : Edit) (edits : List Edit) : List Letter :=
  if (edits.head?.map offset) = some (offset edit) then [] else mark (offset edit)

/-- The text from a place on, with the insertions of a list from the left to the right. -/
def woven (source : List Letter) : Nat → List Edit → List Letter
  | start, [] => source.drop start
  | start, edit :: edits =>
    (source.drop start).take (offset edit - start) ++ text edit ++ marked offset mark edit edits ++
      woven source (offset edit) edits

variable {offset text mark}

theorem woven_split {source : List Letter} {start place : Nat} {edits : List Edit}
    (after : start ≤ place) (first : ∀ edit ∈ edits, place ≤ offset edit) :
    woven offset text mark source start edits =
      (source.drop start).take (place - start) ++ woven offset text mark source place edits := by
  have drop : source.drop place = (source.drop start).drop (place - start) := by
    rw [List.drop_drop, Nat.add_sub_cancel' after]
  cases edits with
  | nil => rw [woven, woven, drop, List.take_append_drop]
  | cons edit edits =>
    have later := first edit List.mem_cons_self
    have split : offset edit - start = (place - start) + (offset edit - place) := by omega
    simp only [woven, ← List.append_assoc]
    rw [split, List.take_add, drop]

/-- Made from the right to the left the insertions leave the woven text. -/
theorem foldl_insert {source : List Letter} {edits : List Edit}
    (sorted : edits.Pairwise fun left right => offset left ≤ offset right)
    (within : ∀ edit ∈ edits, offset edit ≤ source.length) :
    edits.reverse.foldl (insert offset text mark) (source, none) =
      (woven offset text mark source 0 edits, edits.head?.map offset) := by
  induction edits with
  | nil => rfl
  | cons edit edits ih =>
    have ⟨first, sorted⟩ := List.pairwise_cons.mp sorted
    have ⟨inside, within⟩ := List.forall_mem_cons.mp within
    rw [List.reverse_cons, List.foldl_append, ih sorted within, woven_split (Nat.zero_le _) first]
    have length : (source.take (offset edit)).length = offset edit := by
      rw [List.length_take, Nat.min_eq_left inside]
    have inserted (put rest : List Letter) :
        insertAt put (offset edit) (source.take (offset edit) ++ rest) =
          source.take (offset edit) ++ (put ++ rest) := by
      rw [insertAt, List.take_left' length, List.drop_left' length, List.append_assoc]
    simp only [List.foldl_cons, List.foldl_nil, insert, Nat.sub_zero, List.drop_zero, woven, marked,
      List.head?_cons, Option.map_some]
    split
    · rw [inserted, List.append_nil, List.append_assoc]
    · rw [inserted, inserted, List.append_assoc, List.append_assoc]

/-- An insertion parts the text where it is put, with what else is inserted on either side. -/
theorem woven_append {source : List Letter} {start : Nat} {before after : List Edit} {edit : Edit}
    (sorted : (before ++ edit :: after).Pairwise fun left right => offset left ≤ offset right)
    (later : ∀ other ∈ before ++ [edit], start ≤ offset other) :
    ∃ left, woven offset text mark source start (before ++ edit :: after) =
        left ++ text edit ++ (marked offset mark edit after ++
          woven offset text mark source (offset edit) after) ∧
      (source.drop start).take (offset edit - start) <+ left := by
  induction before generalizing start with
  | nil =>
    refine ⟨_, ?_, List.Sublist.refl _⟩
    rw [List.nil_append, woven, List.append_assoc]
  | cons head before ih =>
    have ⟨first, sorted⟩ := List.pairwise_cons.mp sorted
    have beyond := later head List.mem_cons_self
    have next : offset head ≤ offset edit :=
      first edit (List.mem_append_right before List.mem_cons_self)
    obtain ⟨left, same, kept⟩ := ih sorted fun other member =>
      first other ((List.append_sublist_append_left before).mpr
        (List.singleton_sublist.mpr List.mem_cons_self) |>.subset member)
    refine ⟨(source.drop start).take (offset head - start) ++ text head ++
      marked offset mark head (before ++ edit :: after) ++ left, ?_, ?_⟩
    · rw [List.cons_append, woven, same]
      simp only [List.append_assoc]
    · have split : offset edit - start = (offset head - start) + (offset edit - offset head) := by
        omega
      rw [split, List.take_add, List.drop_drop, Nat.add_sub_cancel' beyond, List.append_assoc,
        List.append_assoc]
      exact (List.Sublist.refl _).append ((kept.trans (List.sublist_append_right _ _)).trans
        (List.sublist_append_right _ _))

/-- The text itself is never touched. -/
theorem drop_sublist_woven {source : List Letter} {start : Nat} {edits : List Edit}
    (sorted : edits.Pairwise fun left right => offset left ≤ offset right)
    (later : ∀ edit ∈ edits, start ≤ offset edit) :
    source.drop start <+ woven offset text mark source start edits := by
  induction edits generalizing start with
  | nil => exact List.Sublist.refl _
  | cons edit edits ih =>
    have ⟨first, sorted⟩ := List.pairwise_cons.mp sorted
    have beyond := later edit List.mem_cons_self
    have split : source.drop start =
        (source.drop start).take (offset edit - start) ++ source.drop (offset edit) := by
      rw [← Nat.add_sub_cancel' beyond, ← List.drop_drop, Nat.add_sub_cancel_left,
        List.take_append_drop]
    rw [split, woven, List.append_assoc, List.append_assoc]
    exact (List.Sublist.refl _).append (((ih sorted first).trans (List.sublist_append_right _ _)).trans
      (List.sublist_append_right _ _))

end Text

end Woven
