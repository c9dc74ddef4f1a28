import Supercov.Library.Ordered
import Mathlib.Data.Finset.Insert
import Mathlib.Data.List.TakeWhile
import Mathlib.Data.Prod.Lex

/-!
# The attempt that was running

A process writes its records in order, so the attempt whose phase began last before a request is
the one running when it came, where the process ran its attempts one after another.  Attempts that
interleave are found in one pass over the starts.
-/

namespace Supercov.Owned

/-- Worker, test and retry. -/
abbrev Attempt := String ×ₗ String ×ₗ Nat

/-- Where a phase began in the records of its process, and whose. -/
abbrev Start := Nat ×ₗ Attempt

namespace Start

def position (start : Start) : Nat := (ofLex start).1

def attempt (start : Start) : Attempt := (ofLex start).2

end Start

structure PhaseStart where
  transport : String
  position : Nat
  attempt : Attempt

def PhaseStart.start (phase : PhaseStart) : Start := toLex (phase.position, phase.attempt)

/-- The attempts that were left, and whether one of them began a phase again. -/
structure Leaving where
  left : Finset Attempt
  interleaved : Bool

def Leaving.window (leaving : Leaving) (pair : Start × Start) : Leaving :=
  if pair.1.attempt ≠ pair.2.attempt then
    let left := insert pair.1.attempt leaving.left
    { left, interleaved := leaving.interleaved || pair.2.attempt ∈ left }
  else leaving

/-- The pass over the pairs of neighbours. -/
def leaving (starts : List Start) : Leaving :=
  (starts.zip starts.tail).foldl Leaving.window ⟨∅, false⟩

/-- By transport: where each phase began and whose, and whether attempts interleaved. -/
structure InProcess where
  byTransport : List (String × (List Start × Bool))

namespace InProcess

def noted (phases : List PhaseStart) : List Start × Bool :=
  let starts := (phases.map PhaseStart.start).insertionSort (· ≤ ·)
  (starts, (leaving starts).interleaved)

def new (phases : List PhaseStart) : InProcess where
  byTransport := (Ordered.group PhaseStart.transport phases).map fun group => (group.1, noted group.2)

def owner (order : InProcess) (transport : String) (seq : Nat) : Option Attempt := do
  let (starts, interleaved) ← Ordered.find transport order.byTransport
  if interleaved then none
  else
    match (starts.takeWhile fun start => start.position < seq).length with
    | 0 => none
    | index + 1 => starts[index]?.map Start.attempt

end InProcess

def startsOf (phases : List PhaseStart) (transport : String) : List Start :=
  ((phases.filter (·.transport = transport)).map PhaseStart.start).insertionSort (· ≤ ·)

section Contiguous

variable {Item : Type}

/-- None comes again after another came. -/
def Contiguous (items : List Item) : Prop :=
  ∀ before item between after, items = before ++ item :: (between ++ item :: after) →
    ∀ other ∈ between, other = item

variable {first second : Item} {items : List Item}

theorem contiguous_single : Contiguous [first] := by
  intro before item between after split
  have lengths := congrArg List.length split
  simp at lengths
  omega

theorem contiguous_cons : Contiguous (first :: items) ↔
    Contiguous items ∧
      ∀ between after, items = between ++ first :: after → ∀ other ∈ between, other = first := by
  constructor
  · intro contiguous
    constructor
    · intro before item between after split
      exact contiguous (first :: before) item between after (congrArg (first :: ·) split)
    · intro between after split
      exact contiguous [] first between after (congrArg (first :: ·) split)
  · rintro ⟨rest, again⟩ before item between after split
    cases before with
    | nil =>
      obtain ⟨rfl, further⟩ := List.cons.inj split
      exact again between after further
    | cons head before =>
      exact rest before item between after (List.cons.inj split).2

theorem contiguous_cons_same : Contiguous (first :: first :: items) ↔ Contiguous (first :: items) := by
  rw [contiguous_cons]
  refine and_iff_left_of_imp fun contiguous between after split other member => ?_
  cases between with
  | nil => cases member
  | cons head between =>
    obtain ⟨rfl, further⟩ := List.cons.inj split
    cases member with
    | head => rfl
    | tail _ member =>
      exact (contiguous_cons.mp contiguous).2 between after further other member

theorem contiguous_cons_other (apart : first ≠ second) :
    Contiguous (first :: second :: items) ↔ Contiguous (second :: items) ∧ first ∉ items := by
  rw [contiguous_cons]
  refine and_congr_right fun _ => ⟨fun again member => ?_, fun absent between after split => ?_⟩
  · obtain ⟨between, after, split⟩ := List.append_of_mem member
    exact apart (again (second :: between) after (congrArg (second :: ·) split) second
      List.mem_cons_self).symm
  · exfalso
    cases between with
    | nil => exact apart (List.cons.inj split).1.symm
    | cons head between =>
      apply absent
      rw [(List.cons.inj split).2]
      exact List.mem_append_right _ List.mem_cons_self

end Contiguous

section Pass

variable {first second : Start} {starts : List Start} {seen : Leaving}

theorem interleaved_foldl (pairs : List (Start × Start)) (already : seen.interleaved = true) :
    (pairs.foldl Leaving.window seen).interleaved = true := by
  induction pairs generalizing seen with
  | nil => exact already
  | cons pair pairs ih =>
    apply ih
    unfold Leaving.window
    split
    · simp [already]
    · exact already

theorem interleaved_iff (fresh : first.attempt ∉ seen.left) (quiet : seen.interleaved = false) :
    (((first :: starts).zip starts).foldl Leaving.window seen).interleaved = false ↔
      Contiguous ((first :: starts).map Start.attempt) ∧
        ∀ start ∈ starts, start.attempt ∉ seen.left := by
  induction starts generalizing first seen with
  | nil => exact iff_of_true quiet ⟨contiguous_single, nofun⟩
  | cons second starts ih =>
    rw [List.zip_cons_cons, List.foldl_cons, List.map_cons, List.map_cons, List.forall_mem_cons]
    by_cases same : first.attempt = second.attempt
    · have kept : seen.window (first, second) = seen := if_neg (not_not.mpr same)
      rw [kept, ih (same ▸ fresh) quiet, same, contiguous_cons_same, List.map_cons]
      exact and_congr_right fun _ => (and_iff_right (same ▸ fresh)).symm
    · have noted : seen.window (first, second) =
          ⟨insert first.attempt seen.left,
            seen.interleaved || decide (second.attempt ∈ insert first.attempt seen.left)⟩ :=
        if_pos same
      rw [noted, contiguous_cons_other same]
      by_cases again : second.attempt ∈ seen.left
      · have flagged : (seen.interleaved ||
            decide (second.attempt ∈ insert first.attempt seen.left)) = true := by
          simp [again]
        rw [interleaved_foldl _ flagged]
        simp [again]
      · have unseen : second.attempt ∉ insert first.attempt seen.left := by
          simp [again, Ne.symm same]
        rw [ih unseen (by simp [quiet, again, Ne.symm same]), List.map_cons]
        simp only [Finset.mem_insert, not_or, List.mem_map]
        grind

theorem interleaved_leaving_iff :
    (leaving starts).interleaved = false ↔ Contiguous (starts.map Start.attempt) := by
  cases starts with
  | nil => exact iff_of_true rfl fun before item between after split => by simp at split
  | cons first starts =>
    rw [leaving, List.tail_cons, interleaved_iff (Finset.notMem_empty _) rfl]
    exact and_iff_left fun _ _ => Finset.notMem_empty _

end Pass

section Owner

variable {phases : List PhaseStart} {transport : String} {seq : Nat} {starts : List Start}

def IsLastBefore (starts : List Start) (seq : Nat) (attempt : Attempt) : Prop :=
  ∃ before start after, starts = before ++ start :: after ∧ start.attempt = attempt ∧
    start.position < seq ∧ ∀ later ∈ after, seq ≤ later.position

def LeftBefore (starts : List Start) (seq : Nat) (attempt : Attempt) : Prop :=
  ∃ before start after, starts = before ++ start :: after ∧ start.attempt = attempt ∧
    ∃ later ∈ after, later.attempt ≠ attempt ∧ later.position < seq

theorem sorted_startsOf :
    (startsOf phases transport).Pairwise fun one other => one.position ≤ other.position :=
  (List.pairwise_insertionSort (· ≤ ·) _).imp fun le => (Prod.Lex.le_iff.mp le).elim
    Nat.le_of_lt fun same => Nat.le_of_eq same.1

theorem lookup_map {Value Other : Type} (image : Value → Other) (map : List (String × Value)) :
    (map.map fun entry => (entry.1, image entry.2)).lookup transport =
      (map.lookup transport).map image := by
  induction map with
  | nil => rfl
  | cons entry map ih =>
    rw [List.map_cons, Ordered.lookup_cons_ite, Ordered.lookup_cons_ite, ih]
    split <;> rfl

theorem lookup_new : Ordered.find transport (InProcess.new phases).byTransport =
    if ∃ phase ∈ phases, phase.transport = transport then
      some (startsOf phases transport, (leaving (startsOf phases transport)).interleaved)
    else none := by
  rw [Ordered.find, InProcess.new, lookup_map, Ordered.lookup_group]
  split <;> rfl

theorem le_of_mem_dropWhile
    (sorted : starts.Pairwise fun one other => one.position ≤ other.position) :
    ∀ start ∈ starts.dropWhile fun start => start.position < seq, seq ≤ start.position := by
  induction starts with
  | nil => exact nofun
  | cons first starts ih =>
    obtain ⟨below, sorted⟩ := List.pairwise_cons.mp sorted
    by_cases early : first.position < seq
    · rw [List.dropWhile_cons_of_pos (by simpa using early)]
      exact ih sorted
    · rw [List.dropWhile_cons_of_neg (by simpa using early), List.forall_mem_cons]
      have late : seq ≤ first.position := Nat.le_of_not_lt early
      exact ⟨late, fun start member => late.trans (below start member)⟩

theorem takeWhile_of_split {before after : List Start} {start : Start}
    (sorted : (before ++ start :: after).Pairwise fun one other => one.position ≤ other.position)
    (early : start.position < seq) (late : ∀ later ∈ after, seq ≤ later.position) :
    (before ++ start :: after).takeWhile (fun start => start.position < seq) = before ++ [start] := by
  have earlier : ∀ other ∈ before, decide (other.position < seq) = true := fun other member =>
    decide_eq_true ((List.pairwise_append.mp sorted).2.2 other member start List.mem_cons_self
      |>.trans_lt early)
  rw [List.takeWhile_append_of_pos earlier, List.takeWhile_cons, if_pos (decide_eq_true early)]
  cases after with
  | nil => rfl
  | cons head after =>
    have stops : ¬ head.position < seq := Nat.not_lt.mpr (late head List.mem_cons_self)
    rw [List.takeWhile_cons, if_neg (by simpa using stops)]

theorem last_takeWhile_iff (sorted : starts.Pairwise fun one other => one.position ≤ other.position)
    (attempt : Attempt) :
    (match (starts.takeWhile fun start => start.position < seq).length with
      | 0 => none
      | index + 1 => starts[index]?.map Start.attempt) = some attempt ↔
      IsLastBefore starts seq attempt := by
  have whole := List.takeWhile_append_dropWhile (p := fun start : Start => start.position < seq)
    (l := starts)
  constructor
  · intro found
    cases (starts.takeWhile fun start => start.position < seq).eq_nil_or_concat with
    | inl none_ =>
      rw [none_] at found
      cases found
    | inr split =>
      obtain ⟨before, start, split⟩ := split
      have taken : start ∈ starts.takeWhile fun start => start.position < seq := by
        rw [split, List.concat_eq_append]
        exact List.mem_concat_self
      have early : decide (start.position < seq) = true :=
        @List.mem_takeWhile_imp _ (fun start : Start => decide (start.position < seq)) _ _ taken
      rw [split] at whole found
      rw [← whole] at found
      simp at found
      refine ⟨before, start, _, by simpa using whole.symm, found, of_decide_eq_true early,
        le_of_mem_dropWhile sorted⟩
  · rintro ⟨before, start, after, rfl, same, early, late⟩
    rw [takeWhile_of_split sorted early late]
    simp [same]

theorem not_leftBefore_of_contiguous {attempt : Attempt}
    (contiguous : Contiguous (starts.map Start.attempt))
    (last : IsLastBefore starts seq attempt) : ¬ LeftBefore starts seq attempt := by
  rintro ⟨before, start, after, rfl, same, other, member, apart, early⟩
  obtain ⟨earlier, final, later, split, own, -, late⟩ := last
  have behind : other ∉ later := fun found => Nat.not_lt.mpr (late other found) early
  cases List.append_eq_append_iff.mp split with
  | inl longer =>
    obtain ⟨between, rfl, tail⟩ := longer
    cases between with
    | nil =>
      obtain ⟨-, rfl⟩ := List.cons.inj tail
      exact behind member
    | cons head between =>
      have further : after = between ++ final :: later := (List.cons.inj tail).2
      subst further
      -- the other attempt's start stands between two of this attempt's
      have inside : other ∈ between := by
        cases List.mem_append.mp member with
        | inl inside => exact inside
        | inr behind_ =>
          cases behind_ with
          | head => exact absurd own apart
          | tail _ found => exact absurd found behind
      refine apart (contiguous (before.map Start.attempt) attempt (between.map Start.attempt)
        (later.map Start.attempt) ?_ other.attempt (List.mem_map_of_mem inside))
      rw [List.map_append, List.map_cons, List.map_append, List.map_cons, same, own]
  | inr shorter =>
    obtain ⟨between, rfl, tail⟩ := shorter
    cases between with
    | nil =>
      obtain ⟨-, rfl⟩ := List.cons.inj tail
      exact behind member
    | cons head between =>
      obtain ⟨-, rfl⟩ := List.cons.inj tail
      exact behind (List.mem_append_right _ (List.mem_cons_of_mem _ member))

end Owner

/-- A request is given to the attempt of the last start before it where no attempt of the process
interleaved with another, and so never to one that was left for another. -/
theorem owner_eq_some_iff (phases : List PhaseStart) (transport : String) (seq : Nat)
    (attempt : Attempt) :
    ((InProcess.new phases).owner transport seq = some attempt ↔
      Contiguous ((startsOf phases transport).map Start.attempt) ∧
        IsLastBefore (startsOf phases transport) seq attempt) ∧
    ((InProcess.new phases).owner transport seq = some attempt →
      ¬ LeftBefore (startsOf phases transport) seq attempt) := by
  have answers : (InProcess.new phases).owner transport seq = some attempt ↔
      Contiguous ((startsOf phases transport).map Start.attempt) ∧
        IsLastBefore (startsOf phases transport) seq attempt := by
    rw [← interleaved_leaving_iff, ← last_takeWhile_iff sorted_startsOf, InProcess.owner, lookup_new]
    by_cases ran : ∃ phase ∈ phases, phase.transport = transport
    · rw [if_pos ran]
      cases interleaved : (leaving (startsOf phases transport)).interleaved with
      | true => simp
      | false => simp
    · have idle : startsOf phases transport = [] := by
        rw [startsOf, List.filter_eq_nil_iff.mpr fun phase member => by
          simpa using fun same => ran ⟨phase, member, same⟩]
        rfl
      rw [if_neg ran, idle]
      simp
  refine ⟨answers, fun owned => ?_⟩
  obtain ⟨contiguous, last⟩ := answers.mp owned
  exact not_leftBefore_of_contiguous contiguous last

end Supercov.Owned
