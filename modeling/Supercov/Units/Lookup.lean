import Mathlib.Data.Prod.Lex
import Supercov.Library.SpanTree
import Supercov.Units.Changes

/-!
# The unit at a position

The units of a file are a tree of nested spans in source order.  The last unit that starts at
or before a position, or else the innermost of those it is within that goes on so far, is the
innermost unit that holds the position.
-/

namespace Supercov.Units

namespace CodeUnit

variable {Digest : Type} (unit : CodeUnit Digest)

def first : Nat ×ₗ Nat :=
  toLex (unit.line, unit.column)

def last : Nat ×ₗ Nat :=
  toLex (unit.endLine, unit.endColumn)

def span : Held (Nat ×ₗ Nat) where
  start := unit.first
  stop := unit.last
  parent := unit.parent

def contains (line column : Nat) : Bool :=
  unit.first ≤ toLex (line, column) ∧ toLex (line, column) < unit.last

end CodeUnit

section UnitAt

variable {Digest : Type} (code : Code Digest) (line column : Nat)

/-- From a unit to the first that holds the position, itself or one it is within. -/
def Code.climb : Nat → Nat → Option Nat
  | 0, _ => none
  | fuel + 1, index => do
    let unit ← code.units[index]?
    if unit.contains line column then return index
    else
      match unit.parent with
      | some parent => Code.climb fuel parent
      | none => return 0

/-- The innermost unit holding a position; the file unit when nothing narrower does. -/
def Code.unitAt : Option Nat :=
  code.climb line column code.units.length
    (partitionPoint (fun unit => unit.first ≤ toLex (line, column)) code.units - 1)

end UnitAt

/-! ### The declarations of a file are a tree -/

def Built.span (unit : Built) : Held Nat where
  start := unit.start
  stop := unit.stop
  parent := unit.parent

structure Opened (built : List Built) (stack : List (Nat × Built)) (reached : Nat) : Prop where
  tree : SpanTree (built.map Built.span)
  given : ∀ unit ∈ stack, built[unit.1]? = some unit.2
  descending : stack.Pairwise fun first second => second.1 < first.1
  started : ∀ unit ∈ built, unit.start ≤ reached
  ended : ∀ index unit, built[index]? = some unit → (index, unit) ∈ stack ∨ unit.stop ≤ reached

section Tree

variable {built : List Built}

theorem span_of_built {index : Nat} {unit : Built} (found : built[index]? = some unit) :
    (built.map Built.span)[index]? = some unit.span := by
  rw [List.getElem?_map, found]
  rfl

theorem Opened.push {closed outer : List (Nat × Built)} {holder : Nat × Built} {reached : Nat}
    {unit : Built} (opened : Opened built (closed ++ holder :: outer) reached)
    (before : ∀ ended ∈ closed, ended.2.stop ≤ unit.start) (behind : reached ≤ unit.start)
    (parent : unit.parent = some holder.1) (nonempty : unit.start < unit.stop)
    (ends : unit.stop ≤ holder.2.stop) :
    Opened (built ++ [unit]) ((built.length, unit) :: holder :: outer) unit.start where
  tree := by
    have given := opened.given holder (by simp)
    have member : holder.2 ∈ built := List.mem_of_getElem? given
    rw [List.map_append, List.map_singleton]
    refine opened.tree.snoc nonempty parent (span_of_built given) ?_ ends ?_ ?_
    · exact (opened.started holder.2 member).trans behind
    · exact List.forall_mem_map.mpr fun other member => (opened.started other member).trans behind
    · refine List.forall_mem_map.mpr fun other member parent' => ?_
      obtain ⟨index, found⟩ := List.getElem?_of_mem member
      rcases opened.ended index other found with open' | ended
      · rcases List.mem_append.mp open' with closed' | open'
        · exact before _ closed'
        · have lt := opened.tree.parent_lt (span_of_built found) parent'
          have descending := (List.pairwise_append.mp opened.descending).2.1
          rcases List.mem_cons.mp open' with same | open'
          · exact absurd lt (by simp [← same])
          · exact absurd ((List.pairwise_cons.mp descending).1 _ open') (Nat.lt_asymm lt)
      · exact ended.trans behind
  given := by
    refine List.forall_mem_cons.mpr ⟨by simp, fun open' member => ?_⟩
    have given := opened.given open' (List.mem_append_right _ member)
    rw [List.getElem?_append_left (List.getElem?_eq_some_iff.mp given).1, given]
  descending := by
    refine List.pairwise_cons.mpr ⟨fun open' member => ?_, (List.pairwise_append.mp opened.descending).2.1⟩
    exact (List.getElem?_eq_some_iff.mp
      (opened.given open' (List.mem_append_right _ member))).1
  started := by
    refine List.forall_mem_append.mpr ⟨fun other member => ?_, by simp⟩
    exact (opened.started other member).trans behind
  ended := by
    intro index other found
    rcases Nat.lt_or_ge index built.length with lt | ge
    · rw [List.getElem?_append_left lt] at found
      rcases opened.ended index other found with open' | ended
      · rcases List.mem_append.mp open' with closed' | open'
        · exact .inr (before _ closed')
        · exact .inl (List.mem_cons_of_mem _ open')
      · exact .inr (ended.trans behind)
    · rw [List.getElem?_append_right ge, List.getElem?_singleton] at found
      split at found
      · next last =>
        cases found
        exact .inl (List.mem_cons.mpr (.inl (by rw [show index = built.length by omega])))
      · cases found

theorem Opened.tree_append {rest : List Built} {top : Nat × Built} {below : List (Nat × Built)}
    (opened : Opened built (top :: below) top.2.start)
    (nested : Nested top below built.length rest) : SpanTree ((built ++ rest).map Built.span) := by
  induction rest generalizing built top below with
  | nil => simpa using opened.tree
  | cons unit rest ih =>
    obtain ⟨closed, whole, before, -⟩ := popped_spec unit.start top below
    obtain ⟨parent, -, behind, -, nonempty, ends, nested⟩ := nested
    rw [whole] at opened
    have opened := opened.push before behind parent nonempty ends
    rw [List.append_cons]
    exact ih opened (by simpa using nested)

theorem tree_builtOf (source : Text) (outline : Outline) :
    SpanTree ((builtOf source outline).map Built.span) := by
  have opened : Opened [fileUnit source] [(0, fileUnit source)] (fileUnit source).start := by
    refine ⟨⟨⟨_, rfl, rfl⟩, ?_, List.pairwise_singleton _ _, List.pairwise_singleton _ _⟩, by simp,
      List.pairwise_singleton _ _, by simp, ?_⟩
    · intro index span positive found
      exact absurd (List.getElem?_eq_some_iff.mp found).1 (Nat.not_lt.mpr positive)
    · intro index unit found
      have lt : index < 1 := (List.getElem?_eq_some_iff.mp found).1
      obtain rfl : index = 0 := by omega
      cases found
      exact .inl (List.mem_singleton_self _)
  exact opened.tree_append (nested_builtOf source outline)

end Tree

/-! ### The search by halving -/

section Partition

variable {Item : Type} {before : Item → Bool} {items : List Item} {point : Nat}

theorem halve_eq (isBefore : Nat → Bool) (isBefore_iff : ∀ index, isBefore index = true ↔ index < point)
    {fuel base size : Nat} (some : 0 < size) (enough : size ≤ fuel + 1) (above : base ≤ point)
    (below : point ≤ base + size) :
    let found := partitionPoint.halve isBefore fuel base size
    (if isBefore found then found + 1 else found) = point := by
  induction fuel generalizing base size with
  | zero =>
    obtain rfl : size = 1 := by omega
    simp only [partitionPoint.halve, isBefore_iff]
    split <;> omega
  | succ fuel ih =>
    unfold partitionPoint.halve
    split
    · simp only [isBefore_iff]
      split <;> omega
    · refine ih (by omega) (by omega) ?_ ?_ <;> simp only [isBefore_iff] <;> split <;> omega

theorem partitionPoint_eq (within : point ≤ items.length)
    (sorted : ∀ index item, items[index]? = some item → (before item = true ↔ index < point)) :
    partitionPoint before items = point := by
  have isBefore_iff (index : Nat) : (items[index]?.any before) = true ↔ index < point := by
    cases found : items[index]? with
    | none =>
      have := List.getElem?_eq_none_iff.mp found
      simp only [Option.any_none, Bool.false_eq_true, false_iff]
      omega
    | some item => simpa using sorted index item found
  unfold partitionPoint
  rcases Nat.eq_zero_or_pos items.length with none | some
  · obtain rfl : point = 0 := by omega
    simp only [none, partitionPoint.halve, isBefore_iff]
    rfl
  · exact halve_eq _ isBefore_iff some (by omega) (Nat.zero_le _) (by omega)

theorem before_iff_lt_countP (ordered : items.Pairwise fun first second =>
      before second = true → before first = true) {index : Nat} {item : Item}
    (found : items[index]? = some item) : before item = true ↔ index < items.countP before := by
  induction items generalizing index with
  | nil => cases found
  | cons first items ih =>
    obtain ⟨ahead, ordered⟩ := List.pairwise_cons.mp ordered
    have none (start : before first = false) : items.countP before = 0 :=
      List.countP_eq_zero.mpr fun later member holds => by simp [ahead later member holds] at start
    cases index with
    | zero =>
      obtain rfl := Option.some.inj found
      cases start : before first with
      | true => simp [start]
      | false => simp [start, none start]
    | succ index =>
      rw [List.getElem?_cons_succ] at found
      rw [ih ordered found]
      cases start : before first with
      | true => simp [start]
      | false => simp [start, none start]

theorem before_iff_lt_partitionPoint (ordered : items.Pairwise fun first second =>
      before second = true → before first = true) {index : Nat} {item : Item}
    (found : items[index]? = some item) :
    before item = true ↔ index < partitionPoint before items := by
  have point := partitionPoint_eq List.countP_le_length
    fun index item found => before_iff_lt_countP ordered found
  rw [point]
  exact before_iff_lt_countP ordered found

theorem partitionPoint_le (ordered : items.Pairwise fun first second =>
      before second = true → before first = true) :
    partitionPoint before items ≤ items.length := by
  rw [partitionPoint_eq List.countP_le_length fun index item found => before_iff_lt_countP ordered found]
  exact List.countP_le_length

end Partition

/-! ### Lines and columns are in the order of what they are of -/

theorem pairwise_lineStarts (source : Text) : (lineStarts source).Pairwise (· < ·) := by
  have ordered : (source.zipIdx.map Prod.snd).Pairwise (· < ·) := by
    rw [List.zipIdx_map_snd]
    exact List.pairwise_lt_range'
  refine List.pairwise_cons.mpr ⟨fun start member => ?_, ?_⟩
  · obtain ⟨byte, -, rfl⟩ := List.mem_map.mp member
    exact Nat.succ_pos _
  · refine List.pairwise_map.mpr (((List.pairwise_map.mp ordered).filter _).imp ?_)
    exact fun lt => Nat.succ_lt_succ lt

theorem line_spec {lines : List Nat} (ordered : lines.Pairwise (· < ·))
    (first : lines.head? = some 0) (offset : Nat) :
    ∃ index, (position lines offset).1 = index + 1 ∧ ∃ start, lines[index]? = some start ∧
      start ≤ offset ∧ (position lines offset).2 = offset - start + 1 ∧
      ∀ later start, lines[later]? = some start → start ≤ offset → later ≤ index := by
  have ordered' : lines.Pairwise fun first second =>
      decide (second ≤ offset) = true → decide (first ≤ offset) = true :=
    ordered.imp fun lt le => by
      simp only [decide_eq_true_eq] at le ⊢
      omega
  have isBefore {index start : Nat} (found : lines[index]? = some start) :
      start ≤ offset ↔ index < partitionPoint (· ≤ offset) lines := by
    simpa using before_iff_lt_partitionPoint ordered' found
  have le : partitionPoint (· ≤ offset) lines ≤ lines.length := partitionPoint_le ordered'
  have positive : 0 < partitionPoint (· ≤ offset) lines :=
    (isBefore (by rwa [← List.head?_eq_getElem?])).mp (Nat.zero_le _)
  obtain ⟨index, same⟩ := Nat.exists_eq_add_of_le' positive
  have found := List.getElem?_eq_getElem (l := lines) (show index < lines.length by omega)
  refine ⟨index, same, _, found, (isBefore found).mpr (by omega), ?_, ?_⟩
  · simp [position, same, List.getD_eq_getElem?_getD, found]
  · intro later start found' le
    have := (isBefore found').mp le
    omega

theorem position_strictMono {lines : List Nat} (ordered : lines.Pairwise (· < ·))
    (first : lines.head? = some 0) : StrictMono fun offset => toLex (position lines offset) := by
  intro offset later lt
  obtain ⟨index, line, start, found, le, column, -⟩ := line_spec ordered first offset
  obtain ⟨index', line', start', found', -, column', last⟩ := line_spec ordered first later
  rw [Prod.Lex.toLex_lt_toLex]
  rcases Nat.eq_or_lt_of_le (last index start found (le.trans lt.le)) with rfl | before
  · cases found.symm.trans found'
    omega
  · omega

/-! ### The lookup -/

section Made

variable {Digest : Type} {digest : Text → Digest} {source : Text} {outline : Outline}
  {code : Code Digest}

theorem spans_build (made : build digest source outline = some code) :
    code.units.map CodeUnit.span =
      ((builtOf source outline).map Built.span).map
        (Held.map fun offset => toLex (position (lineStarts source) offset)) := by
  unfold build at made
  obtain ⟨kept, -, made⟩ := Option.bind_eq_some_iff.mp made
  obtain ⟨texts, listed, made⟩ := Option.bind_eq_some_iff.mp made
  obtain ⟨semantic, -, made⟩ := Option.bind_eq_some_iff.mp made
  obtain rfl := Option.some.inj made
  have length : (builtOf source outline).length ≤ texts.length := by
    rw [length_of_mapM listed, List.length_zipIdx]
  dsimp only
  conv_rhs => rw [← List.map_fst_zip length]
  simp only [List.map_map]
  rfl

theorem tree_units (made : build digest source outline = some code) :
    SpanTree (code.units.map CodeUnit.span) := by
  rw [spans_build made]
  exact (tree_builtOf source outline).map (position_strictMono (pairwise_lineStarts source) rfl)

/-- The index is that of the innermost unit that holds a position, or the file's where none
does. -/
def Code.Innermost (code : Code Digest) (line column index : Nat) : Prop :=
  (∃ unit, code.units[index]? = some unit ∧ unit.contains line column ∧
    ∀ other unit', code.units[other]? = some unit' → unit'.contains line column →
      Within (code.units.map CodeUnit.span) index other) ∨
  index = 0 ∧ ∀ unit ∈ code.units, ¬ unit.contains line column

theorem contains_iff (unit : CodeUnit Digest) (line column : Nat) :
    unit.contains line column ↔ unit.span.Holds (toLex (line, column)) := by
  simp [CodeUnit.contains, CodeUnit.span, Held.Holds]

theorem span_of_unit {index : Nat} {unit : CodeUnit Digest} (found : code.units[index]? = some unit) :
    (code.units.map CodeUnit.span)[index]? = some unit.span := by
  rw [List.getElem?_map, found]
  rfl

theorem climb_innermost (tree : SpanTree (code.units.map CodeUnit.span)) {line column fuel index : Nat}
    (enough : index < fuel) (within : index < code.units.length)
    (around : ∀ other unit, code.units[other]? = some unit → unit.contains line column →
      Within (code.units.map CodeUnit.span) index other) :
    ∃ found, code.climb line column fuel index = some found ∧ code.Innermost line column found := by
  induction fuel generalizing index with
  | zero => exact absurd enough (Nat.not_lt_zero _)
  | succ fuel ih =>
    have found := List.getElem?_eq_getElem within
    generalize code.units[index] = unit at found
    unfold Code.climb
    rw [found]
    simp only [Option.bind_eq_bind, Option.bind_some]
    split
    · next holds => exact ⟨index, rfl, .inl ⟨unit, found, holds, around⟩⟩
    · next misses =>
      -- What is around a unit that does not hold the position is around its holder.
      have outside : ∀ other unit', code.units[other]? = some unit' → unit'.contains line column →
          ∃ outer, unit.parent = some outer ∧ Within (code.units.map CodeUnit.span) outer other := by
        intro other unit' found' holds
        rcases Relation.ReflTransGen.cases_head (around other unit' found' holds) with
          rfl | ⟨outer, ⟨span, same, parent⟩, rest⟩
        · cases found.symm.trans found'
          exact absurd holds misses
        · cases same.symm.trans (span_of_unit found)
          exact ⟨outer, parent, rest⟩
      cases parent : unit.parent with
      | none =>
        refine ⟨0, rfl, .inr ⟨rfl, fun unit' member holds => ?_⟩⟩
        obtain ⟨other, found'⟩ := List.getElem?_of_mem member
        obtain ⟨outer, parent', -⟩ := outside other unit' found' holds
        cases parent.symm.trans parent'
      | some outer =>
        have lt := tree.parent_lt (span_of_unit found) parent
        refine ih (by omega) (lt.trans within) fun other unit' found' holds => ?_
        obtain ⟨outer', parent', rest⟩ := outside other unit' found' holds
        cases parent.symm.trans parent'
        exact rest

/-- The units that are built of any declarations are a tree of nested spans in source order,
and the unit found at any position is the innermost that holds it. -/
theorem unitAt_innermost (made : build digest source outline = some code) :
    SpanTree (code.units.map CodeUnit.span) ∧ ∀ line column, ∃ index,
      code.unitAt line column = some index ∧ code.Innermost line column index := by
  have tree := tree_units made
  refine ⟨tree, fun line column => ?_⟩
  have ordered : code.units.Pairwise fun first second =>
      decide (second.first ≤ toLex (line, column)) = true →
        decide (first.first ≤ toLex (line, column)) = true :=
    (List.pairwise_map.mp tree.ordered).imp fun le starts => by
      simp only [decide_eq_true_eq] at starts ⊢
      exact le.trans starts
  have starts {index : Nat} {unit : CodeUnit Digest} (found : code.units[index]? = some unit) :
      unit.first ≤ toLex (line, column) ↔
        index < partitionPoint (fun unit => unit.first ≤ toLex (line, column)) code.units := by
    simpa using before_iff_lt_partitionPoint ordered found
  have le := partitionPoint_le ordered
  unfold Code.unitAt
  generalize partitionPoint _ code.units = point at starts le ⊢
  have nonempty : 0 < code.units.length := by
    obtain ⟨root, found, -⟩ := tree.root
    simpa using (List.getElem?_eq_some_iff.mp found).1
  refine climb_innermost tree (by omega) (by omega) fun other unit found holds => ?_
  have holds := (contains_iff unit line column).mp holds
  have lt := (starts found).mp holds.1
  have last := List.getElem?_eq_getElem (show point - 1 < code.units.length by omega)
  refine tree.within_of_holds (span_of_unit last) ((starts last).mpr (by omega)) ?_
    (span_of_unit found) holds
  intro later span found' before
  rw [List.getElem?_map] at found'
  obtain ⟨unit', found'', rfl⟩ := Option.map_eq_some_iff.mp found'
  have := (starts found'').mp before
  omega

end Made

/-- Two declarations that overlap, one of them again, and one behind them. -/
def overlappingOutline : Outline where
  comments := []
  strings := []
  declarations :=
    [{ name := utf8 "c", kind := .function, start := 7, stop := 9, inert := false },
      { name := utf8 "b", kind := .method, start := 2, stop := 6, inert := false },
      { name := utf8 "a", kind := .function, start := 0, stop := 4, inert := false },
      { name := utf8 "a", kind := .function, start := 0, stop := 4, inert := false }]
  separator := utf8 "."

theorem overlapping_built : (build id (utf8 "ab\ncd ef gh") overlappingOutline).isSome := by
  decide +kernel

theorem unitAt_innermost_overlapping :
    SpanTree ((Option.get _ overlapping_built).units.map CodeUnit.span) ∧ ∀ line column, ∃ index,
      (Option.get _ overlapping_built).unitAt line column = some index ∧
        (Option.get _ overlapping_built).Innermost line column index :=
  unitAt_innermost (Option.some_get overlapping_built).symm

end Supercov.Units
