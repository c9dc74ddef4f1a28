import Supercov.Library.Template
import Supercov.Units.Placed

/-!
# What units make a file

Each unit's text has a placeholder for each declaration right within it.  Declarations
follow each other in source order, each right after what it is within, so that the texts of
all units that are not inert, in that order, fill each other's placeholders to what a
program can observe of the whole file.
-/

namespace Supercov.Units

/-- Each of the units is within the innermost one open where it starts. -/
def Nested (top : Nat × Built) (below : List (Nat × Built)) (index : Nat) : List Built → Prop
  | [] => True
  | unit :: rest =>
    let (holder, outer) := popped unit.start top below
    unit.parent = some holder.1 ∧ (holder.2.inert → unit.inert) ∧
      top.2.start ≤ unit.start ∧ unit.start < holder.2.stop ∧
      unit.start < unit.stop ∧ unit.stop ≤ holder.2.stop ∧
      Nested (index, unit) (holder :: outer) (index + 1) rest

structure Stacked (size : Nat) (stack : List (Nat × Built)) (index : Nat) : Prop where
  descending : stack.Pairwise fun first second => second.1 < first.1
  given : ∀ unit ∈ stack, unit.1 < index
  inert : stack.Pairwise fun first second => second.2.inert → first.2.inert
  within : ∀ unit ∈ stack, unit.2.stop ≤ size
  whole : ∃ unit ∈ stack, unit.2.inert = false ∧ unit.2.stop = size

theorem popped_spec (position : Nat) (top : Nat × Built) (below : List (Nat × Built)) :
    ∃ closed, top :: below = closed ++ (popped position top below).1 :: (popped position top below).2 ∧
      (∀ unit ∈ closed, unit.2.stop ≤ position) ∧
      ((popped position top below).2 = [] ∨ position < (popped position top below).1.2.stop) := by
  induction below generalizing top with
  | nil => exact ⟨[], rfl, by simp, .inl rfl⟩
  | cons next below ih =>
    unfold popped
    split
    · next ends =>
      obtain ⟨closed, whole, before, last⟩ := ih next
      exact ⟨top :: closed, by rw [whole, List.cons_append],
        List.forall_mem_cons.mpr ⟨ends, before⟩, last⟩
    · next ends => exact ⟨[], rfl, by simp, .inr (Nat.lt_of_not_le ends)⟩

theorem Nested.ascending {top : Nat × Built} {below : List (Nat × Built)} {index : Nat}
    {rest : List Built} (nested : Nested top below index rest) :
    ∀ unit ∈ rest, top.2.start ≤ unit.start := by
  induction rest generalizing top below index with
  | nil => simp
  | cons unit rest ih =>
    obtain ⟨-, -, le, -, -, -, nested⟩ := nested
    exact List.forall_mem_cons.mpr ⟨le, fun later member => le.trans (ih nested later member)⟩

theorem Nested.within {size : Nat} {top : Nat × Built} {below : List (Nat × Built)} {index : Nat}
    {rest : List Built} (nested : Nested top below index rest)
    (fits : ∀ unit ∈ top :: below, unit.2.stop ≤ size) :
    ∀ unit ∈ rest, unit.start < unit.stop ∧ unit.stop ≤ size := by
  induction rest generalizing top below index with
  | nil => simp
  | cons unit rest ih =>
    obtain ⟨closed, whole, -, -⟩ := popped_spec unit.start top below
    obtain ⟨-, -, -, -, some, le, nested⟩ := nested
    have inside : ∀ holder ∈ (popped unit.start top below).1 :: (popped unit.start top below).2,
        holder.2.stop ≤ size :=
      fun holder member => fits holder (whole ▸ List.mem_append_right closed member)
    have fitsUnit := le.trans (inside _ (List.mem_cons_self ..))
    exact List.forall_mem_cons.mpr
      ⟨⟨some, fitsUnit⟩, ih nested (List.forall_mem_cons.mpr ⟨fitsUnit, inside⟩)⟩

theorem Nested.parent {top : Nat × Built} {below : List (Nat × Built)} {index : Nat}
    {rest : List Built} (nested : Nested top below index rest) :
    ∀ unit ∈ rest, ∃ holder, unit.parent = some holder ∧
      (holder ∈ (top :: below).map Prod.fst ∨ index ≤ holder) := by
  induction rest generalizing top below index with
  | nil => simp
  | cons unit rest ih =>
    obtain ⟨closed, whole, -, -⟩ := popped_spec unit.start top below
    obtain ⟨parent, -, -, -, -, -, nested⟩ := nested
    refine List.forall_mem_cons.mpr ⟨⟨_, parent, .inl ?_⟩, fun later member => ?_⟩
    · rw [whole]
      simp
    · obtain ⟨holder, parent, among⟩ := ih nested later member
      refine ⟨holder, parent, ?_⟩
      rw [whole]
      simp only [List.map_cons, List.map_append, List.mem_append, List.mem_cons] at among ⊢
      rcases among with (rfl | among) | after
      · exact .inr le_rfl
      · exact .inl (.inr among)
      · exact .inr (by omega)

theorem Stacked.push {size : Nat} {closed outer : List (Nat × Built)} {holder : Nat × Built}
    {index : Nat} {unit : Built} (stacked : Stacked size (closed ++ holder :: outer) index)
    (before : ∀ ended ∈ closed, ended.2.stop ≤ unit.start) (starts : unit.start < holder.2.stop)
    (inert : holder.2.inert → unit.inert) (within : unit.stop ≤ holder.2.stop) :
    Stacked size ((index, unit) :: holder :: outer) (index + 1) where
  descending := by
    refine List.pairwise_cons.mpr ⟨fun below member => ?_, ?_⟩
    · exact stacked.given below (List.mem_append_right _ member)
    · exact (List.pairwise_append.mp stacked.descending).2.1
  given := by
    refine List.forall_mem_cons.mpr ⟨Nat.lt_succ_self _, fun below member => ?_⟩
    exact (stacked.given below (List.mem_append_right _ member)).trans (Nat.lt_succ_self _)
  inert := by
    have inner := (List.pairwise_append.mp stacked.inert).2.1
    refine List.pairwise_cons.mpr ⟨fun below member inertBelow => ?_, inner⟩
    rcases List.mem_cons.mp member with rfl | member
    · exact inert inertBelow
    · exact inert ((List.pairwise_cons.mp inner).1 below member inertBelow)
  within := by
    have outside := fun below member => stacked.within below (List.mem_append_right closed member)
    exact List.forall_mem_cons.mpr
      ⟨within.trans (outside holder (List.mem_cons_self ..)), outside⟩
  whole := by
    obtain ⟨file, member, live, all⟩ := stacked.whole
    refine ⟨file, List.mem_cons_of_mem _ ?_, live, all⟩
    rcases List.mem_append.mp member with ended | member
    · have := before file ended
      have := stacked.within holder (by simp)
      omega
    · exact member

section Fill

variable (kept : Kept)

/-- What is to come of the open units' texts: of the innermost from the cursor on, of each
other one from the end of the one open within it. -/
def remainders (rest : List Built) : Nat → List (Nat × Built) → Option (List Text)
  | _, [] => some []
  | cursor, (index, unit) :: below => do
    let text ← ownText kept (kept.place unit.stop) cursor (childrenOf index rest)
    let texts ← remainders rest (kept.place unit.stop) below
    return text :: texts

/-- The texts of the units that are not inert. -/
def liveTexts : Nat → List Built → Option (List Text)
  | _, [] => some []
  | index, unit :: rest => do
    let texts ← liveTexts (index + 1) rest
    if unit.inert then
      return texts
    else
      let text ← ownText kept (kept.place unit.stop) (kept.place unit.start) (childrenOf index rest)
      return text :: texts

/-- No unit starts in the blank that an inert one's line ends with. -/
def Apart (units : List Built) : Prop :=
  units.Pairwise fun first second => first.inert → first.stop ≤ second.start →
    lineEndAfter kept.text (kept.place first.stop) ≤ kept.place second.start

instance (units : List Built) : Decidable (Apart kept units) :=
  inferInstanceAs (Decidable (List.Pairwise _ _))

def live (stack : List (Nat × Built)) : List (Nat × Built) :=
  stack.filter fun unit => !unit.2.inert

/-- A cursor past a position, and past the end of its line. -/
def Past (cursor position : Nat) : Prop :=
  position < cursor ∨ position = cursor ∧ lineEndAfter kept.text cursor = cursor

end Fill

theorem le_lineEndAfter (text : Text) (position : Nat) : position ≤ lineEndAfter text position := by
  unfold lineEndAfter
  dsimp only
  split <;> omega

theorem past_lineEndAfter (kept : Kept) (position : Nat) :
    Past kept (lineEndAfter kept.text position) position := by
  rcases Nat.eq_or_lt_of_le (le_lineEndAfter kept.text position) with same | lt
  · exact .inr ⟨same, by rw [← same, ← same]⟩
  · exact .inl lt

theorem Past.mono {kept : Kept} {cursor position earlier : Nat} (past : Past kept cursor position)
    (le : earlier ≤ position) : Past kept cursor earlier := by
  rcases past with lt | ⟨rfl, same⟩
  · exact .inl (by omega)
  · rcases Nat.eq_or_lt_of_le le with rfl | lt
    · exact .inr ⟨rfl, same⟩
    · exact .inl lt

theorem slice_split {text part before : Text} {start middle stop : Nat}
    (made : slice text start stop = some part) (made' : slice text start middle = some before)
    (le : middle ≤ stop) : ∃ after, slice text middle stop = some after ∧ part = before ++ after := by
  obtain ⟨first, -, rfl⟩ := slice_eq_some made'
  obtain ⟨-, -, rfl⟩ := slice_eq_some made
  unfold slice at made made' ⊢
  split at made
  · next fits =>
    split at made'
    · next fits' =>
      refine ⟨_, if_pos ⟨le, fits'.2.2, fits.2.2⟩, ?_⟩
      have taken : text.take middle = (text.take stop).take middle := by
        rw [List.take_take, min_eq_left le]
      have rejoined : ((text.take stop).drop start).take (middle - start) ++
          ((text.take stop).drop start).drop (middle - start) = (text.take stop).drop start :=
        List.take_append_drop ..
      rw [List.drop_drop, Nat.add_sub_cancel' first, ← List.drop_take, ← taken] at rejoined
      exact rejoined.symm
    · cases made'
  · cases made

section Semantic

variable {kept : Kept} {inert : List Built} {cursor stop : Nat} {result : Text}

theorem ownText_cons {child : Built} {children : List Built} {text : Text}
    (le : cursor ≤ kept.place child.start)
    (own : ownText kept stop cursor (child :: children) = some text) :
    ∃ before after, slice kept.text cursor (kept.place child.start) = some before ∧
      ownText kept stop
        (if child.inert then lineEndAfter kept.text (kept.place child.stop)
          else kept.place child.stop) children = some after ∧
      text = before ++ if child.inert then after else 0 :: after := by
  unfold ownText at own
  dsimp only at own
  rw [if_neg (by omega)] at own
  obtain ⟨before, sliced, own⟩ := Option.bind_eq_some_iff.mp own
  cases inertChild : child.inert <;>
    simp only [inertChild, Bool.false_eq_true, if_true, if_false] at own ⊢ <;>
    obtain ⟨after, own, same⟩ := Option.bind_eq_some_iff.mp own <;>
    exact ⟨before, after, sliced, own, (Option.some.inj same).symm⟩

theorem semanticText_cons {unit : Built} (le : cursor ≤ kept.place unit.start)
    (observed : semanticText kept cursor (unit :: inert) = some result) :
    ∃ before after, slice kept.text cursor (kept.place unit.start) = some before ∧
      semanticText kept (lineEndAfter kept.text (kept.place unit.stop)) inert = some after ∧
      result = before ++ after := by
  unfold semanticText at observed
  dsimp only at observed
  rw [if_neg (by omega)] at observed
  obtain ⟨before, sliced, observed⟩ := Option.bind_eq_some_iff.mp observed
  obtain ⟨after, observed, same⟩ := Option.bind_eq_some_iff.mp observed
  exact ⟨before, after, sliced, observed, (Option.some.inj same).symm⟩

theorem semanticText_advance {before : Text}
    (observed : semanticText kept cursor inert = some result)
    (made : slice kept.text cursor stop = some before)
    (ahead : ∀ unit ∈ inert, stop ≤ kept.place unit.start) :
    ∃ after, semanticText kept stop inert = some after ∧ result = before ++ after := by
  cases inert with
  | nil =>
    obtain ⟨after, sliced, rfl⟩ := slice_split observed made (slice_eq_some made).2.1
    exact ⟨after, sliced, rfl⟩
  | cons unit inert =>
    have le := ahead unit (List.mem_cons_self ..)
    obtain ⟨first, rest, sliced, later, rfl⟩ :=
      semanticText_cons ((slice_eq_some made).1.trans le) observed
    obtain ⟨second, sliced', rfl⟩ := slice_split sliced made le
    refine ⟨second ++ rest, ?_, List.append_assoc ..⟩
    unfold semanticText
    dsimp only
    rw [if_neg (by omega), sliced', Option.bind_eq_bind, Option.bind_some, later]
    rfl

theorem semanticText_past {unit : Built} (placed : kept.place unit.start ≤ kept.place unit.stop)
    (past : Past kept cursor (kept.place unit.stop))
    (observed : semanticText kept cursor (unit :: inert) = some result) :
    semanticText kept cursor inert = some result := by
  by_cases skipped : kept.place unit.start < cursor
  · unfold semanticText at observed
    exact (if_pos skipped).symm.trans observed
  · rcases past with lt | ⟨same, line⟩
    · omega
    · obtain ⟨before, after, sliced, later, rfl⟩ :=
        semanticText_cons (Nat.le_of_not_lt skipped) observed
      have none : before = [] := List.eq_nil_of_length_eq_zero (by
        rw [length_of_slice sliced]
        omega)
      rwa [same, line, ← List.nil_append after, ← none] at later

end Semantic

section Run

variable {kept : Kept} {size : Nat} {rest : List Built}

theorem close {closed stack : List (Nat × Built)} {inert : List Built} {cursor : Nat}
    {pending : List Text} {result : Text} (clear : 0 ∉ kept.text)
    (made : remainders kept rest cursor (live (closed ++ stack)) = some pending)
    (observed : semanticText kept cursor inert = some result)
    (childless : ∀ unit ∈ closed, childrenOf unit.1 rest = [])
    (ahead : ∀ unit ∈ closed, ∀ later ∈ inert, kept.place unit.2.stop ≤ kept.place later.start) :
    ∃ cursor' pending' result',
      remainders kept rest cursor' (live stack) = some pending' ∧
      semanticText kept cursor' inert = some result' ∧
      (∀ texts, Fills 0 pending' texts result' → Fills 0 pending texts result) ∧
      (cursor' = cursor ∨ ∃ unit ∈ closed, unit.2.inert = false ∧ cursor' = kept.place unit.2.stop) ∧
      cursor ≤ cursor' ∧
      ∀ unit ∈ closed, unit.2.inert = false → kept.place unit.2.stop ≤ cursor' := by
  induction closed generalizing cursor pending result with
  | nil => exact ⟨cursor, pending, result, made, observed, fun _ => id, .inl rfl, le_rfl, by simp⟩
  | cons unit closed ih =>
    rw [List.forall_mem_cons] at childless ahead
    cases inertUnit : unit.2.inert with
    | true =>
      rw [List.cons_append, live, List.filter_cons_of_neg (by simp [inertUnit]), ← live] at made
      obtain ⟨cursor', pending', result', made', observed', fills, reached, le, passed⟩ :=
        ih made observed childless.2 ahead.2
      refine ⟨cursor', pending', result', made', observed', fills, ?_, le, ?_⟩
      · exact reached.imp_right fun ⟨last, member, place⟩ =>
          ⟨last, List.mem_cons_of_mem _ member, place⟩
      · exact List.forall_mem_cons.mpr ⟨fun live => absurd inertUnit (by simp [live]), passed⟩
    | false =>
      rw [List.cons_append, live, List.filter_cons_of_pos (by simp [inertUnit]), ← live] at made
      obtain ⟨text, own, made⟩ := Option.bind_eq_some_iff.mp made
      obtain ⟨others, inner, same⟩ := Option.bind_eq_some_iff.mp made
      cases same
      rw [childless.1] at own
      obtain ⟨after, later, rfl⟩ := semanticText_advance observed own ahead.1
      obtain ⟨cursor', pending', result', made', observed', fills, reached, le, passed⟩ :=
        ih inner later childless.2 ahead.2
      refine ⟨cursor', pending', result', made', observed', ?_, .inr ?_,
        (slice_eq_some own).1.trans le, List.forall_mem_cons.mpr ⟨fun _ => le, passed⟩⟩
      · exact fun texts filled =>
          .closed (fun found => clear (subset_of_slice own found)) (fills texts filled)
      · rcases reached with rfl | ⟨last, member, place⟩
        · exact ⟨unit, List.mem_cons_self .., inertUnit, rfl⟩
        · exact ⟨last, List.mem_cons_of_mem _ member, place⟩

theorem childrenOf_cons {index : Nat} {unit : Built} :
    childrenOf index (unit :: rest) =
      if unit.parent = some index then unit :: childrenOf index rest else childrenOf index rest := by
  unfold childrenOf
  rw [List.filter_cons]
  simp

theorem remainders_cons_of_ne {unit : Built} {cursor : Nat} {stack : List (Nat × Built)}
    (other : ∀ open' ∈ stack, unit.parent ≠ some open'.1) :
    remainders kept (unit :: rest) cursor stack = remainders kept rest cursor stack := by
  induction stack generalizing cursor with
  | nil => rfl
  | cons first stack ih =>
    rw [List.forall_mem_cons] at other
    unfold remainders
    rw [childrenOf_cons, if_neg other.1, ih other.2]

/-- The texts to come, with the open units' texts and what can be observed from here. -/
structure Filling (kept : Kept) (rest : List Built) (index : Nat) (stack : List (Nat × Built))
    (cursor : Nat) (pending texts : List Text) (result : Text) : Prop where
  made : remainders kept rest cursor (live stack) = some pending
  listed : liveTexts kept index rest = some texts
  observed : semanticText kept cursor (rest.filter (·.inert)) = some result

/-- Where the cursor is: past the inert units that are open, and not past what is to come
after them. -/
structure Between (kept : Kept) (rest : List Built) (stack : List (Nat × Built)) (cursor : Nat) :
    Prop where
  past : ∀ unit ∈ stack, unit.2.inert → Past kept cursor (kept.place unit.2.stop)
  ahead : ∀ later ∈ rest, (∀ unit ∈ stack, unit.2.inert → unit.2.stop ≤ later.start) →
    cursor ≤ kept.place later.start

section Step

variable {holder : Nat × Built} {outer : List (Nat × Built)} {index cursor : Nat} {unit : Built}
  {pending texts : List Text} {result : Text}

theorem Filling.inside (filling : Filling kept (unit :: rest) index (holder :: outer) cursor pending
      texts result)
    (parents : ∀ other ∈ outer, other.1 ≠ holder.1) (parent : unit.parent = some holder.1)
    (inertHolder : holder.2.inert = true) (inertUnit : unit.inert = true)
    (placed : kept.place unit.start ≤ kept.place unit.stop)
    (past : Past kept cursor (kept.place unit.stop)) :
    Filling kept rest (index + 1) ((index, unit) :: holder :: outer) cursor pending texts result where
  made := by
    have made := filling.made
    have others : ∀ open' ∈ live (holder :: outer), unit.parent ≠ some open'.1 := by
      rw [live, List.filter_cons_of_neg (by simp [inertHolder])]
      intro open' member
      rw [parent]
      exact fun same => parents open' (List.mem_filter.mp member).1 (Option.some.inj same).symm
    rw [remainders_cons_of_ne others] at made
    rwa [live, List.filter_cons_of_neg (by simp [inertUnit]), ← live]
  listed := by
    obtain ⟨texts', listed, same⟩ := Option.bind_eq_some_iff.mp filling.listed
    rw [if_pos inertUnit] at same
    exact listed.trans same
  observed := by
    have observed := filling.observed
    rw [List.filter_cons_of_pos inertUnit] at observed
    exact semanticText_past placed past observed

theorem Filling.innermost (filling : Filling kept (unit :: rest) index (holder :: outer) cursor
      pending texts result)
    (parents : ∀ other ∈ outer, other.1 ≠ holder.1) (parent : unit.parent = some holder.1)
    (liveHolder : holder.2.inert = false) :
    ∃ text others,
      ownText kept (kept.place holder.2.stop) cursor (unit :: childrenOf holder.1 rest) = some text ∧
      remainders kept rest (kept.place holder.2.stop) (live outer) = some others ∧
      pending = text :: others := by
  have made := filling.made
  rw [live, List.filter_cons_of_pos (by simp [liveHolder]), ← live] at made
  obtain ⟨text, own, made⟩ := Option.bind_eq_some_iff.mp made
  obtain ⟨others, inner, same⟩ := Option.bind_eq_some_iff.mp made
  rw [childrenOf_cons, if_pos parent] at own
  refine ⟨text, others, own, ?_, (Option.some.inj same).symm⟩
  rwa [remainders_cons_of_ne] at inner
  intro open' member
  rw [parent]
  exact fun same => parents open' (List.mem_filter.mp member).1 (Option.some.inj same).symm

theorem Filling.erased (filling : Filling kept (unit :: rest) index (holder :: outer) cursor pending
      texts result)
    (clear : 0 ∉ kept.text) (parents : ∀ other ∈ outer, other.1 ≠ holder.1)
    (parent : unit.parent = some holder.1) (liveHolder : holder.2.inert = false)
    (inertUnit : unit.inert = true) (le : cursor ≤ kept.place unit.start) :
    ∃ pending' result',
      Filling kept rest (index + 1) ((index, unit) :: holder :: outer)
        (lineEndAfter kept.text (kept.place unit.stop)) pending' texts result' ∧
      (Fills 0 pending' texts result' → Fills 0 pending texts result) := by
  obtain ⟨text, others, own, inner, rfl⟩ := filling.innermost parents parent liveHolder
  have observed := filling.observed
  rw [List.filter_cons_of_pos inertUnit] at observed
  obtain ⟨before, after, sliced, ownAfter, rfl⟩ := ownText_cons le own
  obtain ⟨before', after', sliced', later, rfl⟩ := semanticText_cons le observed
  cases sliced.symm.trans sliced'
  rw [if_pos inertUnit] at ownAfter
  rw [if_pos inertUnit]
  refine ⟨after :: others, after', ⟨?_, ?_, later⟩, ?_⟩
  · rw [live, List.filter_cons_of_neg (by simp [inertUnit]),
      List.filter_cons_of_pos (by simp [liveHolder]), ← live]
    simp only [remainders, ownAfter, inner, Option.bind_eq_bind, Option.bind_some, Option.pure_def]
  · obtain ⟨texts', listed, same⟩ := Option.bind_eq_some_iff.mp filling.listed
    rw [if_pos inertUnit] at same
    exact listed.trans same
  · exact Fills.prepend fun found => clear (subset_of_slice sliced found)

theorem Filling.opened (filling : Filling kept (unit :: rest) index (holder :: outer) cursor pending
      texts result)
    (clear : 0 ∉ kept.text) (parents : ∀ other ∈ outer, other.1 ≠ holder.1)
    (parent : unit.parent = some holder.1) (liveHolder : holder.2.inert = false)
    (liveUnit : unit.inert = false) (le : cursor ≤ kept.place unit.start)
    (ahead : ∀ later ∈ rest, kept.place unit.start ≤ kept.place later.start) :
    ∃ pending' texts' result',
      Filling kept rest (index + 1) ((index, unit) :: holder :: outer) (kept.place unit.start)
        pending' texts' result' ∧
      (Fills 0 pending' texts' result' → Fills 0 pending texts result) := by
  obtain ⟨text, others, own, inner, rfl⟩ := filling.innermost parents parent liveHolder
  have observed := filling.observed
  rw [List.filter_cons_of_neg (by simp [liveUnit])] at observed
  obtain ⟨before, after, sliced, ownAfter, rfl⟩ := ownText_cons le own
  obtain ⟨result', later, rfl⟩ := semanticText_advance observed sliced
    fun later member => ahead later (List.mem_filter.mp member).1
  obtain ⟨texts', listed, same⟩ := Option.bind_eq_some_iff.mp filling.listed
  simp only [liveUnit, Bool.false_eq_true, if_false] at ownAfter same ⊢
  obtain ⟨inside, ownUnit, same⟩ := Option.bind_eq_some_iff.mp same
  cases same
  refine ⟨inside :: after :: others, texts', result', ⟨?_, listed, later⟩, ?_⟩
  · rw [live, List.filter_cons_of_pos (by simp [liveUnit]),
      List.filter_cons_of_pos (by simp [liveHolder]), ← live]
    simp only [remainders, ownUnit, ownAfter, inner, Option.bind_eq_bind, Option.bind_some,
      Option.pure_def]
  · exact Fills.filled fun found => clear (subset_of_slice sliced found)

end Step

theorem Filling.fills (placed : kept.Placed size) {top : Nat × Built} {below : List (Nat × Built)}
    {index cursor : Nat} {pending texts : List Text} {result : Text}
    (nested : Nested top below index rest) (stacked : Stacked size (top :: below) index)
    (apart : Apart kept rest) (between : Between kept rest (top :: below) cursor)
    (filling : Filling kept rest index (top :: below) cursor pending texts result) :
    Fills 0 pending texts result := by
  induction rest generalizing top below index cursor pending texts result with
  | nil =>
    have made := filling.made
    cases filling.listed
    rw [← List.append_nil (top :: below)] at made
    obtain ⟨cursor', pending', result', made', observed', fills, -, -, passed⟩ :=
      close placed.clear made filling.observed (fun _ _ => rfl) (by simp)
    obtain ⟨file, member, isLive, all⟩ := stacked.whole
    have ended := passed file member isLive
    rw [all, placed.last] at ended
    have none : result' = [] := List.eq_nil_of_length_eq_zero (by
      rw [length_of_slice observed']
      omega)
    cases made'
    exact fills [] (none ▸ .done)
  | cons unit rest ih =>
    obtain ⟨closed, whole, before, -⟩ := popped_spec unit.start top below
    have fits := nested.within stacked.within
    obtain ⟨parent, inherits, -, startsIn, -, within, nested⟩ := nested
    have parents := nested.parent
    have starts := nested.ascending
    generalize (popped unit.start top below).1 = holder at *
    generalize (popped unit.start top below).2 = outer at *
    rw [whole] at stacked between filling
    have later {position : Nat} (le : position ≤ unit.start) :
        ∀ unit' ∈ unit :: rest, kept.place position ≤ kept.place unit'.start := by
      intro unit' member
      have fits := fits unit' member
      rcases List.mem_cons.mp member with rfl | member
      · exact placed.mono le (by omega)
      · exact placed.mono (le.trans (starts unit' member)) (by omega)
    have childless : ∀ ended ∈ closed, childrenOf ended.1 (unit :: rest) = [] := by
      intro ended member
      have above := (List.pairwise_append.mp stacked.descending).2.2 ended member
      have given := stacked.given ended (List.mem_append_left _ member)
      refine List.filter_eq_nil_iff.mpr fun child member' own => ?_
      have own : child.parent = some ended.1 := by simpa using own
      rcases List.mem_cons.mp member' with rfl | member'
      · have same := Option.some.inj (parent.symm.trans own)
        exact absurd (above holder (List.mem_cons_self ..)) (by omega)
      · obtain ⟨_, parent', among⟩ := parents child member'
        cases parent'.symm.trans own
        rcases among with among | after
        · rcases List.mem_cons.mp among with same | among
          · exact absurd given (by simp [same])
          · obtain ⟨open', member, same⟩ := List.mem_map.mp among
            exact absurd (above open' member) (by omega)
        · omega
    have endsBefore : ∀ ended ∈ closed, ∀ unit' ∈ unit :: rest,
        kept.place ended.2.stop ≤ kept.place unit'.start :=
      fun ended member => later (before ended member)
    obtain ⟨cursor', pending', result', made', observed', fills, reached, -, -⟩ :=
      close placed.clear filling.made filling.observed childless
        fun ended member unit' among => endsBefore ended member unit' (List.mem_filter.mp among).1
    refine fills texts ?_
    have filling' : Filling kept (unit :: rest) index (holder :: outer) cursor' pending' texts
      result' := ⟨made', filling.listed, observed'⟩
    have descending := (List.pairwise_append.mp stacked.descending).2.1
    have others : ∀ other ∈ outer, other.1 ≠ holder.1 := fun other member =>
      ne_of_lt ((List.pairwise_cons.mp descending).1 other member)
    have stacked' := stacked.push before startsIn inherits within
    have ends : unit.start ≤ unit.stop := (fits unit (List.mem_cons_self ..)).1.le
    have apart' := List.pairwise_cons.mp apart
    cases inertHolder : holder.2.inert with
    | true =>
      -- All that was closed is within an inert unit: the cursor has not moved.
      have same : cursor' = cursor := by
        rcases reached with same | ⟨ended, member, live, -⟩
        · exact same
        · have inert := (List.pairwise_append.mp stacked.inert).2.2 ended member holder
            (List.mem_cons_self ..) inertHolder
          exact absurd inert (by simp [live])
      subst same
      have past := between.past holder (by simp) inertHolder
      have past' : Past kept cursor' (kept.place unit.stop) :=
        past.mono (placed.mono within (stacked.within holder (by simp)))
      refine ih nested stacked' apart'.2 ⟨?_, ?_⟩ (filling'.inside others parent inertHolder
        (inherits inertHolder) (placed.mono ends (fits unit (List.mem_cons_self ..)).2) past')
      · exact List.forall_mem_cons.mpr ⟨fun _ => past', fun open' member =>
          between.past open' (List.mem_append_right _ member)⟩
      · intro unit' member clear
        refine between.ahead unit' (List.mem_cons_of_mem _ member) fun open' among inert => ?_
        rcases List.mem_append.mp among with ended | among
        · exact (before open' ended).trans (starts unit' member)
        · exact clear open' (List.mem_cons_of_mem _ among) inert
    | false =>
      have lives : ∀ open' ∈ holder :: outer, open'.2.inert = false := by
        refine List.forall_mem_cons.mpr ⟨inertHolder, fun open' member => ?_⟩
        have inert := (List.pairwise_append.mp stacked.inert).2.1
        by_contra isInert
        have := (List.pairwise_cons.mp inert).1 open' member (by simpa using isInert)
        simp [inertHolder] at this
      have le : cursor' ≤ kept.place unit.start := by
        rcases reached with rfl | ⟨ended, member, -, rfl⟩
        · refine between.ahead unit (List.mem_cons_self ..) fun open' among inert => ?_
          rcases List.mem_append.mp among with ended | among
          · exact before open' ended
          · exact absurd inert (by simp [lives open' among])
        · exact endsBefore ended member unit (List.mem_cons_self ..)
      cases inertUnit : unit.inert with
      | true =>
        obtain ⟨pending'', result'', filling'', fills'⟩ :=
          filling'.erased placed.clear others parent inertHolder inertUnit le
        refine fills' (ih nested stacked' apart'.2 ⟨?_, ?_⟩ filling'')
        · refine List.forall_mem_cons.mpr ⟨fun _ => past_lineEndAfter kept _, ?_⟩
          exact fun open' among inert => absurd inert (by simp [lives open' among])
        · intro unit' member clear
          exact apart'.1 unit' member inertUnit (clear (index, unit) (List.mem_cons_self ..) inertUnit)
      | false =>
        have ahead : ∀ unit' ∈ rest, kept.place unit.start ≤ kept.place unit'.start :=
          fun unit' member => later le_rfl unit' (List.mem_cons_of_mem _ member)
        obtain ⟨pending'', texts', result'', filling'', fills'⟩ :=
          filling'.opened placed.clear others parent inertHolder inertUnit le ahead
        refine fills' (ih nested stacked' apart'.2 ⟨?_, ?_⟩ filling'')
        · refine List.forall_mem_cons.mpr ⟨fun inert => absurd inert (by simp [inertUnit]), ?_⟩
          exact fun open' among inert => absurd inert (by simp [lives open' among])
        · exact fun unit' member _ => ahead unit' member

end Run

end Supercov.Units
