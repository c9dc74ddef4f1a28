import Supercov.Lifecycle.Storage
import Mathlib.Data.List.Find
import Mathlib.Data.List.Nodup

/-!
# What cleaning keeps

A run that has not ended is left as it is, of the others the newest are kept with their evidence,
and all the rest goes.  A second cleaning finds nothing more.
-/

namespace Supercov.Lifecycle

section Removal

variable {Contents : Type}

@[simp]
theorem Folder.without_nil (folder : Folder Contents) : folder.without [] = folder := by
  ext1
  · rfl
  · simp [Folder.without]

theorem Folder.without_without (folder : Folder Contents) (names others : List String) :
    (folder.without names).without others = folder.without (names ++ others) := by
  ext1
  · rfl
  · simp only [Folder.without, List.filter_filter]
    apply List.filter_congr
    intro entry _
    simp [List.mem_append, not_or, Bool.and_comm]

theorem removeWhere_eq_ok {condition : Bool} {remove : Storage → Storage}
    {tell : CleanupResult → CleanupResult} {dryRun : Bool} {cleaning cleaned : Cleaning}
    (ends : removeWhere condition remove tell dryRun cleaning = .ok cleaned) :
    cleaned = if condition then
      (tell cleaning.1, if dryRun then cleaning.2 else remove cleaning.2) else cleaning := by
  unfold removeWhere Storage.removeStoredTree at ends
  split_ifs at ends ⊢ <;> first | exact (Outcome.ok.inj ends).symm | cases ends

namespace Standing

variable (standing : Standing)

def runsOf (ids : List String) : List String :=
  ids.filter fun id => id ∉ standing.active ∧ standing.removesHistory id

def workOf (ids : List String) : List String :=
  ids.filter fun id => id ∉ standing.active ∧ id ∈ standing.work

def evidenceOf (ids : List String) : List String :=
  ids.filter fun id => id ∉ standing.active ∧ standing.removesEvidence id

def told (ids : List String) (result : CleanupResult) : CleanupResult :=
  { result with
    removedRuns := result.removedRuns ++ standing.runsOf ids
    removedWorkspaces := result.removedWorkspaces ++ standing.workOf ids
    removedEvidence := result.removedEvidence ++ standing.evidenceOf ids }

def left (ids : List String) (storage : Storage) : Storage :=
  { storage with
    runs := storage.runs.without (standing.runsOf ids)
    work := storage.work.without (standing.workOf ids)
    evidence := storage.evidence.without (standing.evidenceOf ids) }

theorem told_nil (result : CleanupResult) : standing.told [] result = result := by
  simp [told, runsOf, workOf, evidenceOf]

theorem left_nil (storage : Storage) : standing.left [] storage = storage := by
  simp [left, runsOf, workOf, evidenceOf]

theorem told_cons (id : String) (ids : List String) (result : CleanupResult) :
    standing.told ids (standing.told [id] result) = standing.told (id :: ids) result := by
  have split {p : String → Bool} : (id :: ids).filter p = [id].filter p ++ ids.filter p :=
    List.filter_append [id] ids
  simp only [told, runsOf, workOf, evidenceOf, split, List.append_assoc]

theorem left_cons (id : String) (ids : List String) (storage : Storage) :
    standing.left ids (standing.left [id] storage) = standing.left (id :: ids) storage := by
  have split {p : String → Bool} : (id :: ids).filter p = [id].filter p ++ ids.filter p :=
    List.filter_append [id] ids
  simp only [left, Folder.without_without, runsOf, workOf, evidenceOf, split]

end Standing

theorem cleanId_eq_ok {standing : Standing} {dryRun : Bool} {cleaning cleaned : Cleaning}
    {id : String} (ends : cleanId standing dryRun cleaning id = .ok cleaned) :
    cleaned = (standing.told [id] cleaning.1,
      if dryRun then cleaning.2 else standing.left [id] cleaning.2) := by
  unfold cleanId at ends
  by_cases active : id ∈ standing.active
  · rw [if_pos active] at ends
    cases ends
    simp [Standing.told, Standing.left, Standing.runsOf, Standing.workOf, Standing.evidenceOf,
      active]
  · rw [if_neg active] at ends
    obtain ⟨first, work, ends⟩ := Outcome.bind_eq_ok.mp ends
    obtain ⟨second, evidence, run⟩ := Outcome.bind_eq_ok.mp ends
    rw [removeWhere_eq_ok run, removeWhere_eq_ok evidence, removeWhere_eq_ok work]
    simp only [Standing.told, Standing.left, Standing.runsOf, Standing.workOf, Standing.evidenceOf,
      List.filter_cons, List.filter_nil, active, not_false_eq_true, true_and]
    cases dryRun <;> by_cases inWork : id ∈ standing.work <;>
      cases standing.removesEvidence id <;> cases standing.removesHistory id <;>
      simp [inWork, CleanupResult.tellRun, CleanupResult.tellWork, CleanupResult.tellEvidence,
        Storage.removeRun, Storage.removeWork, Storage.removeEvidence]

theorem cleanAll_eq_ok {standing : Standing} {dryRun : Bool} {cleaning cleaned : Cleaning}
    {ids : List String} (ends : ids.foldlM (cleanId standing dryRun) cleaning = .ok cleaned) :
    cleaned = (standing.told ids cleaning.1,
      if dryRun then cleaning.2 else standing.left ids cleaning.2) := by
  induction ids generalizing cleaning with
  | nil =>
    cases ends
    rw [Standing.told_nil, Standing.left_nil, ite_self]
  | cons id ids inductionHypothesis =>
    rw [List.foldlM_cons] at ends
    obtain ⟨between, first, rest⟩ := Outcome.bind_eq_ok.mp ends
    rw [inductionHypothesis rest, cleanId_eq_ok first]
    rw [Standing.told_cons]
    cases dryRun
    · rw [if_neg Bool.false_ne_true, if_neg Bool.false_ne_true, if_neg Bool.false_ne_true,
        Standing.left_cons]
    · rfl

end Removal

section Listing

variable {Contents : Type}

namespace Folder

variable (folder : Folder Contents)

def Holds (id : String) : Prop := ∃ contents, (id, .directory contents) ∈ folder.entries

/-- Nothing in it is refused. -/
structure Orderly : Prop where
  unlinked : folder.linked = false
  noLink : ∀ name, (name, .link) ∉ folder.entries
  valid : ∀ name, folder.Holds name → validRunId name = true

variable {folder}

theorem mem_without {names : List String} {entry : String × Entry Contents} :
    entry ∈ (folder.without names).entries ↔ entry ∈ folder.entries ∧ entry.1 ∉ names := by
  simp [without]

theorem holds_without {names : List String} {id : String} :
    (folder.without names).Holds id ↔ folder.Holds id ∧ id ∉ names := by
  simp only [Holds, mem_without, exists_and_right]

theorem Orderly.without (orderly : folder.Orderly) (names : List String) :
    (folder.without names).Orderly where
  unlinked := orderly.unlinked
  noLink := fun name member => orderly.noLink name (mem_without.mp member).1
  valid := fun name holds => orderly.valid name (holds_without.mp holds).1

theorem lookup_iff {id : String} {entry : Entry Contents} :
    folder.entries.lookup id = some entry ↔ (id, entry) ∈ folder.entries := by
  have distinct := folder.distinct
  generalize folder.entries = entries at distinct
  induction entries with
  | nil => simp
  | cons first rest inductionHypothesis =>
    obtain ⟨name, held⟩ := first
    obtain ⟨fresh, distinct⟩ := List.nodup_cons.mp distinct
    by_cases same : id = name
    · subst same
      rw [List.lookup_cons_self, Option.some.injEq, List.mem_cons, Prod.mk.injEq]
      constructor
      · exact fun same => Or.inl ⟨rfl, same.symm⟩
      · rintro (⟨-, same⟩ | member)
        · exact same.symm
        · exact absurd (List.mem_map_of_mem (f := Prod.fst) member) fresh
    · rw [List.lookup_cons, beq_eq_false_iff_ne.mpr same]
      simp only [List.mem_cons, Prod.mk.injEq, same, false_and, false_or]
      exact inductionHypothesis distinct

end Folder

theorem directories_ok {entries : List (String × Entry Contents)} {names : List String}
    (listed : directories entries = .ok names) :
    (∀ id, id ∈ names ↔ ∃ contents, (id, .directory contents) ∈ entries) ∧
      (∀ name, (name, .link) ∉ entries) ∧ (∀ id ∈ names, validRunId id = true) ∧
      ((entries.map Prod.fst).Nodup → names.Nodup) := by
  induction entries generalizing names with
  | nil =>
    cases listed
    simp
  | cons first rest inductionHypothesis =>
    obtain ⟨name, entry⟩ := first
    cases entry with
    | link => cases listed
    | file =>
      obtain ⟨mem, noLink, valid, nodup⟩ := inductionHypothesis listed
      refine ⟨?_, ?_, valid, fun distinct => nodup (List.nodup_cons.mp distinct).2⟩
      · intro id
        simp [mem]
      · intro id
        simp [noLink]
    | directory contents =>
      rw [directories] at listed
      split_ifs at listed with good
      obtain ⟨others, rest, same⟩ := Outcome.bind_eq_ok.mp listed
      cases same
      obtain ⟨mem, noLink, valid, nodup⟩ := inductionHypothesis rest
      refine ⟨?_, ?_, List.forall_mem_cons.mpr ⟨good, valid⟩, fun distinct => ?_⟩
      · intro id
        simp only [List.mem_cons, mem, Prod.mk.injEq, Entry.directory.injEq]
        constructor
        · rintro (rfl | ⟨held, member⟩)
          · exact ⟨contents, Or.inl ⟨rfl, rfl⟩⟩
          · exact ⟨held, Or.inr member⟩
        · rintro ⟨held, ⟨same, -⟩ | member⟩
          · exact Or.inl same
          · exact Or.inr ⟨held, member⟩
      · intro id
        simp [noLink]
      · obtain ⟨fresh, distinct⟩ := List.nodup_cons.mp distinct
        refine List.nodup_cons.mpr ⟨fun member => fresh ?_, nodup distinct⟩
        obtain ⟨held, member⟩ := (mem name).mp member
        exact List.mem_map.mpr ⟨_, member, rfl⟩

theorem directories_isOk {entries : List (String × Entry Contents)}
    (noLink : ∀ name, (name, .link) ∉ entries)
    (valid : ∀ name contents, (name, .directory contents) ∈ entries → validRunId name = true) :
    ∃ names, directories entries = .ok names := by
  induction entries with
  | nil => exact ⟨[], rfl⟩
  | cons first rest inductionHypothesis =>
    obtain ⟨names, listed⟩ := inductionHypothesis
      (fun name member => noLink name (List.mem_cons_of_mem _ member))
      (fun name contents member => valid name contents (List.mem_cons_of_mem _ member))
    obtain ⟨name, entry⟩ := first
    cases entry with
    | link => exact absurd List.mem_cons_self (noLink name)
    | file => exact ⟨names, listed⟩
    | directory contents =>
      refine ⟨name :: names, ?_⟩
      rw [directories, if_pos (valid name contents List.mem_cons_self), listed]
      rfl

structure Lists (folder : Folder Contents) (names : List String) : Prop where
  mem : ∀ id, id ∈ names ↔ folder.Holds id
  nodup : names.Nodup

theorem childDirectories_ok {folder : Folder Contents} {names : List String}
    (listed : childDirectories folder = .ok names) : folder.Orderly ∧ Lists folder names := by
  unfold childDirectories at listed
  split_ifs at listed with linked
  obtain ⟨found, directories, same⟩ := Outcome.bind_eq_ok.mp listed
  cases same
  obtain ⟨mem, noLink, valid, nodup⟩ := directories_ok directories
  refine ⟨⟨Bool.eq_false_iff.mpr linked, noLink, fun name holds => ?_⟩, ⟨fun id => ?_, ?_⟩⟩
  · exact valid name ((mem name).mpr holds)
  · rw [List.mem_insertionSort]
    exact mem id
  · exact (List.perm_insertionSort _ found).nodup_iff.mpr (nodup folder.distinct)

theorem Folder.Orderly.isOk {folder : Folder Contents} (orderly : folder.Orderly) :
    ∃ names, childDirectories folder = .ok names := by
  obtain ⟨names, listed⟩ := directories_isOk orderly.noLink
    fun name contents member => orderly.valid name ⟨contents, member⟩
  refine ⟨names.insertionSort (· ≤ ·), ?_⟩
  unfold childDirectories
  rw [if_neg (by rw [orderly.unlinked]; exact Bool.false_ne_true), listed]
  rfl

end Listing

section Standing

variable {storage : Storage}

namespace Storage

variable (storage)

def Active (id : String) : Prop :=
  ∃ state, (id, .directory (.holds state)) ∈ storage.work.entries ∧ state.status.terminal = false

def Ended (id : String) : Prop := storage.runs.Holds id ∧ ¬storage.Active id

def retentionKey (id : String) : String ×ₗ String := toLex (storage.publishedStartedAt id, id)

structure Newest (keep : Nat) (kept : List String) : Prop where
  ended : ∀ id ∈ kept, storage.Ended id
  nodup : kept.Nodup
  atMost : kept.length ≤ keep
  full : kept.length < keep → ∀ id, storage.Ended id → id ∈ kept
  newest : ∀ id ∈ kept, ∀ other, storage.Ended other → other ∉ kept →
    storage.retentionKey other < storage.retentionKey id

variable {storage}

theorem retentionKey_injective {id other : String}
    (same : storage.retentionKey id = storage.retentionKey other) : id = other :=
  (Prod.mk.inj (toLex_inj.mp same)).2

theorem not_active_of_lookup {id : String}
    (other : ∀ held, storage.work.entries.lookup id ≠ some (.directory (.holds held))) :
    ¬storage.Active id := by
  rintro ⟨held, member, -⟩
  exact other held (Folder.lookup_iff.mpr member)

theorem readState_eq_ok {id : String} {state : Option RunState}
    (read : storage.readState id = .ok state) :
    storage.Active id ↔ ∃ held, state = some held ∧ held.status.terminal = false := by
  unfold readState at read
  split at read
  · next found =>
    cases read
    exact iff_of_false (not_active_of_lookup fun held => by rw [found]; nofun) nofun
  · next found =>
    cases read
    exact iff_of_false (not_active_of_lookup fun held => by rw [found]; nofun) nofun
  · cases read
  · next held found =>
    cases read
    constructor
    · rintro ⟨other, member, live⟩
      have same := found.symm.trans (Folder.lookup_iff.mpr member)
      cases same
      exact ⟨_, rfl, live⟩
    · rintro ⟨other, same, live⟩
      cases same
      exact ⟨_, Folder.lookup_iff.mp found, live⟩
  · cases read
  · cases read

end Storage

theorem mem_activeIds {ids active : List String} (read : activeIds storage ids = .ok active)
    (id : String) : id ∈ active ↔ id ∈ ids ∧ storage.Active id := by
  induction ids generalizing active with
  | nil =>
    cases read
    simp
  | cons first rest inductionHypothesis =>
    obtain ⟨state, here, read⟩ := Outcome.bind_eq_ok.mp read
    obtain ⟨others, rest, same⟩ := Outcome.bind_eq_ok.mp read
    cases same
    have live := Storage.readState_eq_ok here
    have others := inductionHypothesis rest
    have any : (state.any fun state => !state.status.terminal) = true ↔ storage.Active first := by
      rw [live]
      cases state <;> simp
    by_cases going : storage.Active first
    · rw [if_pos (any.mpr going), List.mem_cons, List.mem_cons, others]
      constructor
      · rintro (rfl | ⟨member, going⟩)
        · exact ⟨Or.inl rfl, going⟩
        · exact ⟨Or.inr member, going⟩
      · rintro ⟨rfl | member, going⟩
        · exact Or.inl rfl
        · exact Or.inr ⟨member, going⟩
    · rw [if_neg (mt any.mp going), others, List.mem_cons]
      constructor
      · exact fun ⟨member, other⟩ => ⟨Or.inr member, other⟩
      · rintro ⟨rfl | member, other⟩
        · exact absurd other going
        · exact ⟨member, other⟩

theorem retainedIds_newest {published active : List String} (keep : Nat)
    (lists : Lists storage.runs published)
    (live : ∀ id ∈ published, id ∈ active ↔ storage.Active id) :
    storage.Newest keep (retainedIds storage published active keep) := by
  have ended (id : String) :
      (id ∈ published.filter fun id => id ∉ active) ↔ storage.Ended id := by
    rw [List.mem_filter, decide_eq_true_iff]
    unfold Storage.Ended
    rw [← lists.mem]
    apply and_congr_right
    intro member
    rw [live id member]
  unfold retainedIds
  dsimp only
  have nodup := lists.nodup.filter fun id => decide (id ∉ active)
  generalize published.filter (fun id => decide (id ∉ active)) = runs at ended nodup
  have keyed : (runs.map storage.retentionKey).Nodup :=
    nodup.map_on fun _ _ _ _ same => Storage.retentionKey_injective same
  have order : ∃ sorted : List String, sorted.Perm runs ∧
      (runs.map storage.retentionKey).insertionSort (· ≥ ·) = sorted.map storage.retentionKey := by
    have perm := List.perm_insertionSort (· ≥ ·) (runs.map storage.retentionKey)
    refine ⟨((runs.map storage.retentionKey).insertionSort (· ≥ ·)).map fun key => (ofLex key).2,
      ?_, ?_⟩
    · have mapped := perm.map fun key => (ofLex key).2
      rw [List.map_map] at mapped
      exact mapped.trans (List.Perm.of_eq (List.map_id' runs))
    · rw [List.map_map]
      symm
      refine (List.map_congr_left fun key member => ?_).trans (List.map_id _)
      obtain ⟨id, -, rfl⟩ := List.mem_map.mp (perm.mem_iff.mp member)
      rfl
  obtain ⟨sorted, perm, same⟩ := order
  have descends : (sorted.map storage.retentionKey).Pairwise (· ≥ ·) :=
    same ▸ List.pairwise_insertionSort (· ≥ ·) _
  have taken : (((runs.map storage.retentionKey).insertionSort (· ≥ ·)).take keep).map
      (fun key => (ofLex key).2) = sorted.take keep := by
    rw [same, ← List.map_take, List.map_map]
    exact List.map_id' _
  change storage.Newest keep ((((runs.map storage.retentionKey).insertionSort (· ≥ ·)).take keep).map
    fun key => (ofLex key).2)
  rw [taken]
  have sortedNodup := perm.nodup_iff.mpr nodup
  refine ⟨fun id member => ?_, sortedNodup.sublist (List.take_sublist keep sorted), ?_, ?_, ?_⟩
  · exact (ended id).mp (perm.mem_iff.mp (List.mem_of_mem_take member))
  · exact List.length_take_le keep sorted
  · intro short id here
    have all : sorted.take keep = sorted := by
      apply List.take_of_length_le
      rw [List.length_take] at short
      omega
    rw [all]
    exact perm.mem_iff.mpr ((ended id).mpr here)
  · intro id member other here outside
    have both : other ∈ sorted.drop keep := by
      have among := perm.mem_iff.mpr ((ended other).mpr here)
      rw [← List.take_append_drop keep sorted] at among
      exact (List.mem_append.mp among).resolve_left outside
    rw [← List.take_append_drop keep sorted, List.map_append] at descends
    have below := (List.pairwise_append.mp descends).2.2 _ (List.mem_map_of_mem member) _
      (List.mem_map_of_mem both)
    refine lt_of_le_of_ne below fun same => ?_
    have same := Storage.retentionKey_injective same
    exact outside (same ▸ member)

end Standing

section Plan

variable {storage : Storage} {keep : Nat} {standing : Standing}

/-- What the listings say, and which runs have not ended and which are the newest. -/
structure Stands (storage : Storage) (keep : Nat) (standing : Standing) : Prop where
  runsOrderly : storage.runs.Orderly
  workOrderly : storage.work.Orderly
  evidenceOrderly : storage.evidence.Orderly
  published : Lists storage.runs standing.published
  work : Lists storage.work standing.work
  evidence : Lists storage.evidence standing.evidence
  read : ∀ id ∈ standing.ids, ∃ state, storage.readState id = .ok state
  active : ∀ id, id ∈ standing.active ↔ storage.Active id
  retained : storage.Newest keep standing.retained

theorem Standing.mem_ids {id : String} : id ∈ standing.ids ↔
    id ∈ standing.published ∨ id ∈ standing.work ∨ id ∈ standing.evidence := by
  simp [Standing.ids]

theorem exists_activeIds {ids : List String} :
    (∃ active, activeIds storage ids = .ok active) ↔
      ∀ id ∈ ids, ∃ state, storage.readState id = .ok state := by
  induction ids with
  | nil => exact iff_of_true ⟨[], rfl⟩ fun _ member => absurd member List.not_mem_nil
  | cons id ids inductionHypothesis =>
    rw [List.forall_mem_cons, ← inductionHypothesis]
    constructor
    · rintro ⟨active, read⟩
      obtain ⟨state, here, read⟩ := Outcome.bind_eq_ok.mp read
      obtain ⟨others, rest, -⟩ := Outcome.bind_eq_ok.mp read
      exact ⟨⟨state, here⟩, ⟨others, rest⟩⟩
    · rintro ⟨⟨state, here⟩, ⟨others, rest⟩⟩
      exact ⟨_, Outcome.bind_of_eq_ok here (Outcome.bind_of_eq_ok rest rfl)⟩

theorem standingOf_ok (stands : standingOf storage keep = .ok standing) :
    Stands storage keep standing := by
  obtain ⟨published, listedRuns, stands⟩ := Outcome.bind_eq_ok.mp stands
  obtain ⟨work, listedWork, stands⟩ := Outcome.bind_eq_ok.mp stands
  obtain ⟨evidence, listedEvidence, stands⟩ := Outcome.bind_eq_ok.mp stands
  obtain ⟨active, read, same⟩ := Outcome.bind_eq_ok.mp stands
  cases same
  obtain ⟨runsOrderly, runs⟩ := childDirectories_ok listedRuns
  obtain ⟨workOrderly, works⟩ := childDirectories_ok listedWork
  obtain ⟨evidenceOrderly, evidences⟩ := childDirectories_ok listedEvidence
  have live (id : String) : id ∈ active ↔ storage.Active id := by
    rw [mem_activeIds read id]
    refine and_iff_right_of_imp fun ⟨state, member, _⟩ => ?_
    exact Standing.mem_ids.mpr (Or.inr (Or.inl ((works.mem id).mpr ⟨_, member⟩)))
  exact ⟨runsOrderly, workOrderly, evidenceOrderly, runs, works, evidences,
    exists_activeIds.mp ⟨active, read⟩, live,
    retainedIds_newest keep runs fun id _ => live id⟩

theorem exists_standingOf (storage : Storage) (runs : storage.runs.Orderly) (work : storage.work.Orderly)
    (evidence : storage.evidence.Orderly)
    (read : ∀ id, storage.runs.Holds id ∨ storage.work.Holds id ∨ storage.evidence.Holds id →
      ∃ state, storage.readState id = .ok state) (keep : Nat) :
    ∃ standing, standingOf storage keep = .ok standing := by
  obtain ⟨published, listedRuns⟩ := runs.isOk
  obtain ⟨works, listedWork⟩ := work.isOk
  obtain ⟨evidences, listedEvidence⟩ := evidence.isOk
  have readable : ∀ id ∈ Standing.ids ⟨published, works, evidences, [], []⟩,
      ∃ state, storage.readState id = .ok state := by
    intro id member
    apply read id
    rw [← (childDirectories_ok listedRuns).2.mem, ← (childDirectories_ok listedWork).2.mem,
      ← (childDirectories_ok listedEvidence).2.mem]
    exact Standing.mem_ids.mp member
  obtain ⟨active, read⟩ := exists_activeIds.mpr readable
  exact ⟨_, Outcome.bind_of_eq_ok listedRuns (Outcome.bind_of_eq_ok listedWork
    (Outcome.bind_of_eq_ok listedEvidence (Outcome.bind_of_eq_ok read rfl)))⟩

namespace Stands

variable (stands : Stands storage keep standing)

include stands

theorem mem_runsOf (id : String) :
    id ∈ standing.runsOf standing.ids ↔ storage.Ended id ∧ id ∉ standing.retained := by
  simp only [Standing.runsOf, List.mem_filter, Standing.mem_ids, Standing.removesHistory,
    Storage.Ended, ← stands.published.mem, ← stands.active, decide_eq_true_iff, Bool.and_eq_true]
  tauto

theorem mem_workOf (id : String) :
    id ∈ standing.workOf standing.ids ↔ storage.work.Holds id ∧ ¬storage.Active id := by
  simp only [Standing.workOf, List.mem_filter, Standing.mem_ids, ← stands.work.mem,
    ← stands.active, decide_eq_true_iff]
  tauto

theorem mem_evidenceOf (id : String) :
    id ∈ standing.evidenceOf standing.ids ↔
      storage.evidence.Holds id ∧ ¬storage.Active id ∧ id ∉ standing.retained := by
  have published : id ∈ standing.retained → id ∈ standing.published := fun member =>
    (stands.published.mem id).mpr (stands.retained.ended id member).1
  simp only [Standing.evidenceOf, List.mem_filter, Standing.mem_ids, Standing.removesEvidence,
    Standing.removesHistory, ← stands.evidence.mem, ← stands.active, decide_eq_true_iff,
    Bool.and_eq_true, Bool.or_eq_true]
  tauto

end Stands

end Plan

section Kept

variable {dryRun : Bool} {cleaning cleaned : Cleaning}

/-- What the build keeps, and what runs keep between them, is gone. -/
def Storage.withoutCaches (storage : Storage) : Storage :=
  { storage with
    containers := fun place =>
      if storage.containers storage.workspaceContainer = .owned ∧ place = storage.workspaceContainer
      then .absent else storage.containers place
    cache := false }

def Storage.hasCaches (storage : Storage) : Bool :=
  storage.containers storage.workspaceContainer = .owned || storage.cache

theorem removeWhere_isOk {condition : Bool} (remove : Storage → Storage)
    (tell : CleanupResult → CleanupResult)
    (free : condition = true → dryRun = true ∨ cleaning.2.trashLinked = false) :
    ∃ cleaned, removeWhere condition remove tell dryRun cleaning = .ok cleaned := by
  unfold removeWhere Storage.removeStoredTree
  cases condition with
  | false => exact ⟨_, rfl⟩
  | true =>
    rcases free rfl with dry | unlinked
    · exact ⟨_, by rw [dry]; rfl⟩
    · cases dryRun
      · exact ⟨_, by rw [unlinked]; rfl⟩
      · exact ⟨_, rfl⟩

theorem cleanFailedAll_ok {failed : List String}
    (ends : failed.foldlM (fun cleaning id => removeWhere true (·.removeFailedEvidence id)
      (·.tellFailedEvidence id) dryRun cleaning) cleaning = .ok cleaned) :
    cleaned = ({ cleaning.1 with
        removedFailedEvidence := cleaning.1.removedFailedEvidence ++ failed },
      if dryRun then cleaning.2
      else { cleaning.2 with failedEvidence := cleaning.2.failedEvidence.without failed }) := by
  induction failed generalizing cleaning with
  | nil =>
    cases ends
    simp
  | cons id ids inductionHypothesis =>
    rw [List.foldlM_cons] at ends
    obtain ⟨between, first, rest⟩ := Outcome.bind_eq_ok.mp ends
    rw [inductionHypothesis rest, removeWhere_eq_ok first]
    cases dryRun <;>
      simp [CleanupResult.tellFailedEvidence, Storage.removeFailedEvidence, Folder.without_without]

theorem cleanFailed_ok (ends : cleanFailed dryRun cleaning = .ok cleaned) :
    ∃ failed, childDirectories cleaning.2.failedEvidence = .ok failed ∧
      cleaned = ({ cleaning.1 with
          removedFailedEvidence := cleaning.1.removedFailedEvidence ++ failed },
        if dryRun then cleaning.2
        else { cleaning.2 with failedEvidence := cleaning.2.failedEvidence.without failed }) := by
  obtain ⟨failed, listed, ends⟩ := Outcome.bind_eq_ok.mp ends
  exact ⟨failed, listed, cleanFailedAll_ok ends⟩

theorem cleanCaches_ok (ends : cleanCaches dryRun cleaning = .ok cleaned) :
    cleaned = ({ cleaning.1 with removedBuildCache := cleaning.2.hasCaches },
      if dryRun then cleaning.2 else cleaning.2.withoutCaches) := by
  obtain ⟨between, first, rest⟩ := Outcome.bind_eq_ok.mp ends
  rw [removeWhere_eq_ok rest, removeWhere_eq_ok first]
  obtain ⟨result, storage⟩ := cleaning
  unfold Storage.hasCaches Storage.withoutCaches Storage.removeContainer
  cases dryRun
  · by_cases owned : storage.containers storage.workspaceContainer = .owned <;>
      cases shared : storage.cache <;> simp [owned]
    exact Storage.ext rfl rfl rfl rfl rfl shared rfl
  · by_cases owned : storage.containers storage.workspaceContainer = .owned <;>
      cases shared : storage.cache <;> simp [owned]

theorem Storage.workspaceContainer_withoutCaches (storage : Storage) :
    storage.withoutCaches.workspaceContainer = storage.workspaceContainer := by
  have same : (List.range 1025).find? (fun place => storage.withoutCaches.containers place ≠ .foreign) =
      (List.range 1025).find? fun place => storage.containers place ≠ .foreign := by
    apply List.find?_congr
    intro place _
    unfold withoutCaches
    dsimp only
    split_ifs with freed
    · obtain ⟨owned, same⟩ := freed
      rw [← same] at owned
      rw [owned]
      rfl
    · rfl
  unfold workspaceContainer
  rw [same]

theorem Storage.hasCaches_withoutCaches (storage : Storage) :
    storage.withoutCaches.hasCaches = false := by
  unfold hasCaches
  rw [workspaceContainer_withoutCaches]
  unfold withoutCaches
  dsimp only
  rw [Bool.or_false, decide_eq_false_iff_not]
  split_ifs with freed
  · nofun
  · exact fun owned => freed ⟨owned, rfl⟩

theorem Storage.withoutCaches_of_none {storage : Storage} (none : storage.hasCaches = false) :
    storage.withoutCaches = storage := by
  obtain ⟨unowned, unshared⟩ := Bool.or_eq_false_iff.mp none
  refine Storage.ext rfl rfl rfl rfl (funext fun place => ?_) unshared.symm rfl
  exact if_neg fun freed => of_decide_eq_false unowned freed.1

end Kept

section Free

variable {dryRun : Bool} {standing : Standing}

def Free (dryRun : Bool) (storage : Storage) : Prop := dryRun = true ∨ storage.trashLinked = false

theorem removeWhere_of_free (condition : Bool) (remove : Storage → Storage)
    (tell : CleanupResult → CleanupResult) (cleaning : Cleaning)
    (same : ∀ storage, (remove storage).trashLinked = storage.trashLinked)
    (free : condition = true → Free dryRun cleaning.2) :
    ∃ cleaned, removeWhere condition remove tell dryRun cleaning = .ok cleaned ∧
      cleaned.2.trashLinked = cleaning.2.trashLinked := by
  obtain ⟨cleaned, ends⟩ := removeWhere_isOk remove tell free
  refine ⟨cleaned, ends, ?_⟩
  rw [removeWhere_eq_ok ends]
  split_ifs
  · rfl
  · exact same _
  · rfl

theorem cleanId_of_free (standing : Standing) {cleaning : Cleaning} (free : Free dryRun cleaning.2) (id : String) :
    ∃ cleaned, cleanId standing dryRun cleaning id = .ok cleaned ∧
      cleaned.2.trashLinked = cleaning.2.trashLinked := by
  unfold cleanId
  split_ifs
  · exact ⟨cleaning, rfl, rfl⟩
  · obtain ⟨first, work, same⟩ := removeWhere_of_free (id ∈ standing.work)
      (·.removeWork id) (·.tellWork id) cleaning (fun _ => rfl) fun _ => free
    obtain ⟨second, evidence, same'⟩ := removeWhere_of_free
      (standing.removesEvidence id) (·.removeEvidence id) (·.tellEvidence id) first (fun _ => rfl)
      fun _ => free.imp_right same.trans
    obtain ⟨third, run, same''⟩ := removeWhere_of_free
      (standing.removesHistory id) (·.removeRun id) (·.tellRun id) second (fun _ => rfl)
      fun _ => free.imp_right (same'.trans same).trans
    exact ⟨third, Outcome.bind_of_eq_ok work (Outcome.bind_of_eq_ok evidence run),
      same''.trans (same'.trans same)⟩

theorem cleanAll_of_free (standing : Standing) (cleaning : Cleaning) (free : Free dryRun cleaning.2)
    (ids : List String) :
    ∃ cleaned, ids.foldlM (cleanId standing dryRun) cleaning = .ok cleaned := by
  induction ids generalizing cleaning with
  | nil => exact ⟨cleaning, rfl⟩
  | cons id ids inductionHypothesis =>
    obtain ⟨between, first, same⟩ := cleanId_of_free standing free id
    obtain ⟨cleaned, rest⟩ := inductionHypothesis between (free.imp_right same.trans)
    exact ⟨cleaned, by rw [List.foldlM_cons, first]; exact rest⟩

theorem cleanAll_of_none {cleaning : Cleaning} {ids : List String}
    (none : ∀ id ∈ ids, id ∈ standing.active ∨
      id ∉ standing.work ∧ standing.removesEvidence id = false ∧ standing.removesHistory id = false) :
    ids.foldlM (cleanId standing dryRun) cleaning = .ok cleaning := by
  induction ids with
  | nil => rfl
  | cons id ids inductionHypothesis =>
    obtain ⟨here, rest⟩ := List.forall_mem_cons.mp none
    have step : cleanId standing dryRun cleaning id = .ok cleaning := by
      unfold cleanId
      rcases here with active | ⟨work, evidence, run⟩
      · rw [if_pos active]
      · by_cases active : id ∈ standing.active
        · rw [if_pos active]
        · rw [if_neg active, evidence, run, decide_eq_false work]
          rfl
    rw [List.foldlM_cons, step]
    exact inductionHypothesis rest

theorem cleanFailedAll_of_free (cleaning : Cleaning) (free : Free dryRun cleaning.2)
    (failed : List String) :
    ∃ cleaned, failed.foldlM (fun cleaning id => removeWhere true (·.removeFailedEvidence id)
      (·.tellFailedEvidence id) dryRun cleaning) cleaning = .ok cleaned := by
  induction failed generalizing cleaning with
  | nil => exact ⟨cleaning, rfl⟩
  | cons id ids inductionHypothesis =>
    obtain ⟨between, first, same⟩ := removeWhere_of_free true
      (·.removeFailedEvidence id) (·.tellFailedEvidence id) cleaning (fun _ => rfl) fun _ => free
    obtain ⟨cleaned, rest⟩ := inductionHypothesis between (free.imp_right same.trans)
    exact ⟨cleaned, by rw [List.foldlM_cons, first]; exact rest⟩

theorem cleanCaches_of_free {cleaning : Cleaning}
    (free : cleaning.2.hasCaches = true → Free dryRun cleaning.2) :
    ∃ cleaned, cleanCaches dryRun cleaning = .ok cleaned := by
  obtain ⟨first, container, same⟩ := removeWhere_of_free
    (decide (cleaning.2.containers cleaning.2.workspaceContainer = .owned))
    (·.removeContainer cleaning.2.workspaceContainer) id
    ({ cleaning.1 with removedBuildCache := cleaning.2.hasCaches }, cleaning.2) (fun _ => rfl)
    fun owned => free (Bool.or_eq_true_iff.mpr (Or.inl owned))
  obtain ⟨second, shared, -⟩ := removeWhere_of_free cleaning.2.cache
    (fun storage => { storage with cache := false }) id first (fun _ => rfl)
    fun shared => (free (Bool.or_eq_true_iff.mpr (Or.inr shared))).imp_right same.trans
  exact ⟨second, Outcome.bind_of_eq_ok container shared⟩

end Free

section Promise

variable {storage after : Storage} {options : CleanupOptions} {removeBuildCache : Bool}
  {result : CleanupResult}

/-- The caches go where they are asked for and no run is active. -/
def Storage.Reclaims (storage : Storage) (removeBuildCache : Bool) : Prop :=
  removeBuildCache = true ∧ ∀ id, ¬storage.Active id

def Storage.without (storage : Storage) (result : CleanupResult) : Storage :=
  let rest : Storage :=
    { storage with
      runs := storage.runs.without result.removedRuns
      work := storage.work.without result.removedWorkspaces
      evidence := storage.evidence.without result.removedEvidence
      failedEvidence := storage.failedEvidence.without result.removedFailedEvidence }
  if result.removedBuildCache then rest.withoutCaches else rest

/-- What is told of, and that all else is left. -/
structure Promised (storage : Storage) (options : CleanupOptions) (removeBuildCache : Bool)
    (kept : List String) (result : CleanupResult) (after : Storage) : Prop where
  newest : storage.Newest options.keep kept
  runs : ∀ id, id ∈ result.removedRuns ↔ storage.Ended id ∧ id ∉ kept
  work : ∀ id, id ∈ result.removedWorkspaces ↔ storage.work.Holds id ∧ ¬storage.Active id
  evidence : ∀ id, id ∈ result.removedEvidence ↔
    storage.evidence.Holds id ∧ ¬storage.Active id ∧ id ∉ kept
  failed : ∀ id, id ∈ result.removedFailedEvidence ↔
    storage.failedEvidence.Holds id ∧ storage.Reclaims removeBuildCache ∧ options.keep = 0
  caches : result.removedBuildCache = true ↔
    storage.hasCaches = true ∧ storage.Reclaims removeBuildCache
  rest : after = if options.dryRun then storage else storage.without result

theorem cleanupStorageLocked_eq_ok :
    cleanupStorageLocked storage options removeBuildCache = (.ok result, after) ↔
      ∃ standing cleaning, standingOf storage options.keep = .ok standing ∧
        standing.ids.foldlM (cleanId standing options.dryRun) (noneRemoved, storage) =
          .ok cleaning ∧
        cleanKept options removeBuildCache standing.active cleaning = .ok (result, after) := by
  unfold cleanupStorageLocked cleanRuns
  cases standingOf storage options.keep with
  | refused error => simp
  | crashed => simp
  | ok standing =>
    simp only [Outcome.ok_bind, Outcome.ok.injEq, exists_and_left, exists_eq_left']
    cases standing.ids.foldlM (cleanId standing options.dryRun) (noneRemoved, storage) with
    | refused error => simp
    | crashed => simp
    | ok cleaning =>
      simp only [Outcome.ok_bind, Outcome.pure_eq, Outcome.ok.injEq, exists_eq_left']
      cases cleanKept options removeBuildCache standing.active cleaning with
      | refused error => simp
      | crashed => simp
      | ok cleaned => simp [Prod.ext_iff]

theorem cleanKept_ok {active : List String} {cleaning cleaned : Cleaning}
    (fresh : cleaning.1.removedFailedEvidence = [] ∧ cleaning.1.removedBuildCache = false)
    (ends : cleanKept options removeBuildCache active cleaning = .ok cleaned) :
    ∃ failed, (removeBuildCache ∧ options.keep = 0 ∧ active = [] →
        childDirectories cleaning.2.failedEvidence = .ok failed) ∧
      (¬(removeBuildCache ∧ options.keep = 0 ∧ active = []) → failed = []) ∧
      cleaned.1 = { cleaning.1 with
        removedFailedEvidence := failed
        removedBuildCache := removeBuildCache && active = [] && cleaning.2.hasCaches } ∧
      cleaned.2 = if options.dryRun then cleaning.2 else
        let rest := { cleaning.2 with failedEvidence := cleaning.2.failedEvidence.without failed }
        if cleaned.1.removedBuildCache then rest.withoutCaches else rest := by
  obtain ⟨between, first, last⟩ := Outcome.bind_eq_ok.mp ends
  obtain ⟨result, storage⟩ := cleaning
  obtain ⟨none, unclear⟩ := fresh
  dsimp only at none unclear first ⊢
  have failedPart : ∃ failed, (removeBuildCache ∧ options.keep = 0 ∧ active = [] →
        childDirectories storage.failedEvidence = .ok failed) ∧
      (¬(removeBuildCache ∧ options.keep = 0 ∧ active = []) → failed = []) ∧
      between = ({ result with removedFailedEvidence := failed }, if options.dryRun then storage
        else { storage with failedEvidence := storage.failedEvidence.without failed }) := by
    by_cases asked : removeBuildCache ∧ options.keep = 0 ∧ active = []
    · rw [if_pos asked] at first
      obtain ⟨failed, listed, same⟩ := cleanFailed_ok first
      rw [none] at same
      exact ⟨failed, fun _ => listed, fun other => absurd asked other, same⟩
    · rw [if_neg asked] at first
      refine ⟨[], fun yes => absurd yes asked, fun _ => rfl, ?_⟩
      rw [← Outcome.ok.inj first, Folder.without_nil, ite_self, ← none]
  obtain ⟨failed, asked, unasked, rfl⟩ := failedPart
  refine ⟨failed, asked, unasked, ?_⟩
  have caches : (if options.dryRun then storage
      else { storage with failedEvidence := storage.failedEvidence.without failed }).hasCaches =
        storage.hasCaches := by
    split_ifs <;> rfl
  by_cases reclaims : removeBuildCache ∧ active = []
  · rw [if_pos reclaims] at last
    have ended := cleanCaches_ok last
    dsimp only at ended
    rw [caches] at ended
    rw [ended, reclaims.1, decide_eq_true reclaims.2]
    refine ⟨rfl, ?_⟩
    cases options.dryRun
    · cases held : storage.hasCaches
      · exact Storage.withoutCaches_of_none held
      · rfl
    · rfl
  · rw [if_neg reclaims] at last
    have off : (removeBuildCache && decide (active = [])) = false := by
      rw [Bool.and_eq_false_iff]
      rcases not_and_or.mp reclaims with unasked | going
      · exact Or.inl (Bool.eq_false_iff.mpr unasked)
      · exact Or.inr (decide_eq_false going)
    rw [← Outcome.ok.inj last, off, Bool.false_and]
    refine ⟨by rw [← unclear], ?_⟩
    dsimp only
    rw [unclear]
    rfl

theorem cleanup_parts (ends : cleanupStorageLocked storage options removeBuildCache =
    (.ok result, after)) :
    ∃ standing failed, standingOf storage options.keep = .ok standing ∧
      (removeBuildCache ∧ options.keep = 0 ∧ standing.active = [] →
        childDirectories storage.failedEvidence = .ok failed) ∧
      (¬(removeBuildCache ∧ options.keep = 0 ∧ standing.active = []) → failed = []) ∧
      result = ⟨standing.runsOf standing.ids, standing.workOf standing.ids,
        standing.evidenceOf standing.ids, failed,
        removeBuildCache && standing.active = [] && storage.hasCaches⟩ ∧
      after = if options.dryRun then storage else storage.without result := by
  obtain ⟨standing, cleaning, stood, all, last⟩ := cleanupStorageLocked_eq_ok.mp ends
  have cleaned := cleanAll_eq_ok all
  obtain ⟨failed, asked, unasked, told, left⟩ :=
    cleanKept_ok (by rw [cleaned]; exact ⟨rfl, rfl⟩) last
  have same : cleaning.2.failedEvidence = storage.failedEvidence := by
    rw [cleaned]
    dsimp only
    split_ifs <;> rfl
  have caches : cleaning.2.hasCaches = storage.hasCaches := by
    rw [cleaned]
    dsimp only
    split_ifs <;> rfl
  rw [same] at asked
  rw [caches] at told
  dsimp only at told left
  refine ⟨standing, failed, stood, asked, unasked, ?_, ?_⟩
  · rw [told, cleaned]
    rfl
  · rw [left, cleaned]
    unfold Storage.without
    rw [told, cleaned]
    cases options.dryRun <;> rfl

theorem Stands.active_eq_nil {keep : Nat} {standing : Standing}
    (stands : Stands storage keep standing) :
    standing.active = [] ↔ ∀ id, ¬storage.Active id := by
  rw [List.eq_nil_iff_forall_not_mem]
  exact forall_congr' fun id => not_congr (stands.active id)

theorem promised_of_ok (ends : cleanupStorageLocked storage options removeBuildCache =
    (.ok result, after)) :
    ∃ kept, Promised storage options removeBuildCache kept result after := by
  obtain ⟨standing, failed, stood, asked, unasked, rfl, left⟩ := cleanup_parts ends
  have stands := standingOf_ok stood
  refine ⟨standing.retained, stands.retained, stands.mem_runsOf, stands.mem_workOf,
    stands.mem_evidenceOf, ?_, ?_, left⟩
  · intro id
    unfold Storage.Reclaims
    rw [← stands.active_eq_nil]
    by_cases all : removeBuildCache ∧ options.keep = 0 ∧ standing.active = []
    · rw [(childDirectories_ok (asked all)).2.mem]
      tauto
    · rw [unasked all]
      refine iff_of_false List.not_mem_nil fun ⟨_, ⟨flag, idle⟩, zero⟩ => all ⟨flag, zero, idle⟩
  · unfold Storage.Reclaims
    rw [← stands.active_eq_nil]
    simp only [Bool.and_eq_true, decide_eq_true_iff]
    tauto

theorem exists_cleanKept (options : CleanupOptions) (removeBuildCache : Bool)
    (active : List String) (cleaning : Cleaning)
    (orderly : removeBuildCache ∧ options.keep = 0 ∧ active = [] →
      cleaning.2.failedEvidence.Orderly)
    (failedFree : ∀ id, cleaning.2.failedEvidence.Holds id → removeBuildCache ∧ options.keep = 0 ∧
      active = [] → Free options.dryRun cleaning.2)
    (cachesFree : removeBuildCache ∧ active = [] → cleaning.2.hasCaches = true →
      Free options.dryRun cleaning.2) :
    ∃ cleaned, cleanKept options removeBuildCache active cleaning = .ok cleaned := by
  have failedPart : ∃ between, (if removeBuildCache ∧ options.keep = 0 ∧ active = [] then
      cleanFailed options.dryRun cleaning else .ok cleaning) = .ok between ∧
      between.2.trashLinked = cleaning.2.trashLinked ∧
      between.2.hasCaches = cleaning.2.hasCaches := by
    split_ifs with asked
    · obtain ⟨failed, listed⟩ := (orderly asked).isOk
      have found : ∃ between, cleanFailed options.dryRun cleaning = .ok between := by
        cases failed with
        | nil => exact ⟨cleaning, Outcome.bind_of_eq_ok listed rfl⟩
        | cons id others =>
          have here := ((childDirectories_ok listed).2.mem id).mp List.mem_cons_self
          obtain ⟨between, all⟩ := cleanFailedAll_of_free cleaning (failedFree id here asked) (id :: others)
          exact ⟨between, Outcome.bind_of_eq_ok listed all⟩
      obtain ⟨between, ends⟩ := found
      obtain ⟨_, _, same⟩ := cleanFailed_ok ends
      refine ⟨between, ends, ?_⟩
      rw [same]
      dsimp only
      split_ifs <;> exact ⟨rfl, rfl⟩
    · exact ⟨cleaning, rfl, rfl, rfl⟩
  obtain ⟨between, first, same, caches⟩ := failedPart
  unfold cleanKept
  rw [first, Outcome.ok_bind]
  split_ifs with reclaims
  · apply cleanCaches_of_free
    intro held
    exact (cachesFree reclaims (caches ▸ held)).imp_right same.trans
  · exact ⟨between, rfl⟩

theorem cleanup_dryRun (ends : cleanupStorageLocked storage options removeBuildCache =
    (.ok result, after)) :
    cleanupStorageLocked storage { options with dryRun := true } removeBuildCache =
      (.ok result, storage) := by
  obtain ⟨standing, failed, stood, asked, unasked, rfl, -⟩ := cleanup_parts ends
  obtain ⟨cleaning, all⟩ := cleanAll_of_free standing (noneRemoved, storage)
    (Or.inl (rfl : true = true)) standing.ids
  have left : cleaning.2 = storage := by
    rw [cleanAll_eq_ok all]
    rfl
  have possible : ∃ cleaned, cleanKept { options with dryRun := true } removeBuildCache
      standing.active cleaning = .ok cleaned := by
    apply exists_cleanKept
    · rw [left]
      exact fun asking => (childDirectories_ok (asked asking)).1
    · exact fun _ _ _ => Or.inl rfl
    · exact fun _ _ => Or.inl rfl
  obtain ⟨⟨result', after'⟩, last⟩ := possible
  have dry : cleanupStorageLocked storage { options with dryRun := true } removeBuildCache =
      (.ok result', after') :=
    cleanupStorageLocked_eq_ok.mpr ⟨standing, cleaning, stood, all, last⟩
  obtain ⟨standing', failed', stood', asked', unasked', rfl, rfl⟩ := cleanup_parts dry
  cases stood.symm.trans stood'
  have same : failed' = failed := by
    by_cases asking : removeBuildCache ∧ options.keep = 0 ∧ standing.active = []
    · exact Outcome.ok.inj ((asked' asking).symm.trans (asked asking))
    · rw [unasked asking, unasked' asking]
  rw [dry, same]

end Promise

section Again

variable {storage : Storage} {options : CleanupOptions} {removeBuildCache : Bool}
  {kept : List String} {result : CleanupResult} {after : Storage}

theorem Storage.without_folders (storage : Storage) (result : CleanupResult) :
    (storage.without result).runs = storage.runs.without result.removedRuns ∧
      (storage.without result).work = storage.work.without result.removedWorkspaces ∧
      (storage.without result).evidence = storage.evidence.without result.removedEvidence ∧
      (storage.without result).failedEvidence =
        storage.failedEvidence.without result.removedFailedEvidence := by
  unfold without
  dsimp only
  split_ifs <;> exact ⟨rfl, rfl, rfl, rfl⟩

theorem Promised.active_iff (promised : Promised storage options removeBuildCache kept result after)
    (id : String) : (storage.without result).Active id ↔ storage.Active id := by
  unfold Storage.Active
  rw [(storage.without_folders result).2.1]
  constructor
  · rintro ⟨state, member, live⟩
    exact ⟨state, (Folder.mem_without.mp member).1, live⟩
  · rintro ⟨state, member, live⟩
    refine ⟨state, Folder.mem_without.mpr ⟨member, fun removed => ?_⟩, live⟩
    exact ((promised.work id).mp removed).2 ⟨state, member, live⟩

theorem Storage.readState_without {id : String} (read : ∃ state, storage.readState id = .ok state) :
    ∃ state, (storage.without result).readState id = .ok state := by
  unfold Storage.readState at read ⊢
  rw [(storage.without_folders result).2.1]
  cases found : (storage.work.without result.removedWorkspaces).entries.lookup id with
  | none => exact ⟨none, rfl⟩
  | some entry =>
    have there := Folder.lookup_iff.mpr (Folder.mem_without.mp (Folder.lookup_iff.mp found)).1
    rw [there] at read
    exact read

theorem Promised.ended_iff (promised : Promised storage options removeBuildCache kept result after)
    (id : String) : (storage.without result).Ended id ↔ id ∈ kept := by
  unfold Storage.Ended
  rw [promised.active_iff, (storage.without_folders result).1, Folder.holds_without, promised.runs]
  constructor
  · rintro ⟨⟨holds, other⟩, idle⟩
    by_contra outside
    exact other ⟨⟨holds, idle⟩, outside⟩
  · intro member
    obtain ⟨holds, idle⟩ := promised.newest.ended id member
    exact ⟨⟨holds, fun removed => removed.2 member⟩, idle⟩

theorem Promised.all_newest (promised : Promised storage options removeBuildCache kept result after)
    {retained : List String} (newest : (storage.without result).Newest options.keep retained)
    (id : String) (ended : (storage.without result).Ended id) : id ∈ retained := by
  by_contra outside
  have full : options.keep ≤ retained.length := by
    by_contra short
    exact outside (newest.full (Nat.lt_of_not_le short) id ended)
  have within : id :: retained ⊆ kept := by
    intro other member
    rcases List.mem_cons.mp member with rfl | member
    · exact (promised.ended_iff other).mp ended
    · exact (promised.ended_iff other).mp (newest.ended other member)
  have more := (List.nodup_cons.mpr ⟨outside, newest.nodup⟩).length_le_of_subset within
  have atMost := promised.newest.atMost
  rw [List.length_cons] at more
  omega

theorem Promised.hasCaches (promised : Promised storage options removeBuildCache kept result after)
    (reclaims : storage.Reclaims removeBuildCache) :
    (storage.without result).hasCaches = false := by
  unfold Storage.without
  dsimp only
  split_ifs with removed
  · exact Storage.hasCaches_withoutCaches _
  · exact Bool.eq_false_iff.mpr fun held => removed (promised.caches.mpr ⟨held, reclaims⟩)

theorem cleanup_again (changes : options.dryRun = false)
    (ends : cleanupStorageLocked storage options removeBuildCache = (.ok result, after)) :
    cleanupStorageLocked after options removeBuildCache = (.ok noneRemoved, after) := by
  obtain ⟨standing, failed, stood, asked, -, -, -⟩ := cleanup_parts ends
  obtain ⟨kept, promised⟩ := promised_of_ok ends
  have stands := standingOf_ok stood
  obtain ⟨runs, work, evidence, failedEvidence⟩ := storage.without_folders result
  have rest : after = storage.without result := by
    rw [promised.rest, changes]
    rfl
  subst rest
  have held {id : String} (holds : storage.runs.Holds id ∨ storage.work.Holds id ∨
      storage.evidence.Holds id) : id ∈ standing.ids := by
    rw [← stands.published.mem, ← stands.work.mem, ← stands.evidence.mem] at holds
    exact Standing.mem_ids.mpr holds
  obtain ⟨standing', stood'⟩ := exists_standingOf (storage.without result)
    (runs ▸ stands.runsOrderly.without _) (work ▸ stands.workOrderly.without _)
    (evidence ▸ stands.evidenceOrderly.without _) (fun id holds => by
      rw [runs, work, evidence, Folder.holds_without, Folder.holds_without,
        Folder.holds_without] at holds
      exact Storage.readState_without (stands.read id
        (held (holds.imp And.left (Or.imp And.left And.left))))) options.keep
  have stands' := standingOf_ok stood'
  have newest := promised.all_newest stands'.retained
  have idle {id : String} (member : id ∈ standing'.active) : storage.Active id :=
    (promised.active_iff id).mp ((stands'.active id).mp member)
  have all : standing'.ids.foldlM (cleanId standing' options.dryRun)
      (noneRemoved, storage.without result) = .ok (noneRemoved, storage.without result) := by
    apply cleanAll_of_none
    intro id _
    by_cases going : id ∈ standing'.active
    · exact Or.inl going
    have idle : ¬storage.Active id := fun live =>
      going ((stands'.active id).mpr ((promised.active_iff id).mpr live))
    have kept_retained (member : id ∈ kept) :
        id ∈ standing'.published ∧ id ∈ standing'.retained := by
      have ended := (promised.ended_iff id).mpr member
      exact ⟨(stands'.published.mem id).mpr ended.1, newest id ended⟩
    have history : standing'.removesHistory id = false := by
      unfold Standing.removesHistory
      rw [Bool.and_eq_false_iff, decide_eq_false_iff_not, decide_eq_false_iff_not, not_not,
        stands'.published.mem]
      by_contra both
      obtain ⟨published, outside⟩ := not_or.mp both
      refine outside (newest id ⟨not_not.mp published, fun live => ?_⟩)
      exact idle ((promised.active_iff id).mp live)
    refine Or.inr ⟨fun member => ?_, ?_, history⟩
    · have holds := (stands'.work.mem id).mp member
      rw [work, Folder.holds_without, promised.work] at holds
      exact holds.2 ⟨holds.1, idle⟩
    · unfold Standing.removesEvidence
      rw [history, Bool.or_false, Bool.and_eq_false_iff, decide_eq_false_iff_not,
        decide_eq_false_iff_not, not_not, stands'.evidence.mem, evidence, Folder.holds_without,
        promised.evidence]
      by_contra both
      obtain ⟨holds, unpublished⟩ := not_or.mp both
      obtain ⟨holds, other⟩ := not_not.mp holds
      have member : id ∈ kept := by
        by_contra outside
        exact other ⟨holds, idle, outside⟩
      exact unpublished (kept_retained member).1
  have reclaims (asking : removeBuildCache = true ∧ standing'.active = []) :
      storage.Reclaims removeBuildCache :=
    ⟨asking.1, fun id live => stands'.active_eq_nil.mp asking.2 id ((promised.active_iff id).mpr live)⟩
  have possible : ∃ cleaned, cleanKept options removeBuildCache standing'.active
      (noneRemoved, storage.without result) = .ok cleaned := by
    apply exists_cleanKept
    · rintro ⟨flag, zero, empty⟩
      rw [failedEvidence]
      have before := stands.active_eq_nil.mpr (reclaims ⟨flag, empty⟩).2
      exact (childDirectories_ok (asked ⟨flag, zero, before⟩)).1.without _
    · rintro id holds ⟨flag, zero, empty⟩
      rw [failedEvidence, Folder.holds_without, promised.failed] at holds
      exact absurd ⟨holds.1, reclaims ⟨flag, empty⟩, zero⟩ holds.2
    · intro asking held
      exact absurd held (by rw [promised.hasCaches (reclaims asking)]; exact Bool.false_ne_true)
  obtain ⟨⟨result', after'⟩, last⟩ := possible
  obtain ⟨failed', asked', unasked', told, left⟩ := cleanKept_ok ⟨rfl, rfl⟩ last
  have none : failed' = [] := by
    by_cases asking : removeBuildCache ∧ options.keep = 0 ∧ standing'.active = []
    · apply List.eq_nil_iff_forall_not_mem.mpr
      intro id member
      have holds := ((childDirectories_ok (asked' asking)).2.mem id).mp member
      rw [failedEvidence, Folder.holds_without, promised.failed] at holds
      exact holds.2 ⟨holds.1, reclaims ⟨asking.1, asking.2.2⟩, asking.2.1⟩
    · exact unasked' asking
  have uncached : (removeBuildCache && decide (standing'.active = []) &&
      (storage.without result).hasCaches) = false := by
    rw [Bool.and_eq_false_iff]
    by_cases asking : removeBuildCache = true ∧ standing'.active = []
    · exact Or.inr (promised.hasCaches (reclaims asking))
    · refine Or.inl (Bool.eq_false_iff.mpr fun both => asking ?_)
      exact (Bool.and_eq_true_iff.mp both).imp_right of_decide_eq_true
  rw [none, uncached] at told
  dsimp only at told left
  rw [told, none, Folder.without_nil, changes] at left
  rw [cleanupStorageLocked_eq_ok]
  refine ⟨standing', _, stood', all, ?_⟩
  rw [last, told, left]
  rfl

/-- A storage without links, in which every name is one of a run and every state can be read. -/
structure Storage.Orderly (storage : Storage) : Prop where
  runs : storage.runs.Orderly
  work : storage.work.Orderly
  evidence : storage.evidence.Orderly
  failedEvidence : storage.failedEvidence.Orderly
  readable : ∀ id, storage.runs.Holds id ∨ storage.work.Holds id ∨ storage.evidence.Holds id →
    ∃ state, storage.readState id = .ok state
  trash : storage.trashLinked = false

theorem cleanup_orderly (orderly : storage.Orderly) (options : CleanupOptions)
    (removeBuildCache : Bool) :
    ∃ result after, cleanupStorageLocked storage options removeBuildCache = (.ok result, after) := by
  obtain ⟨standing, stood⟩ := exists_standingOf storage orderly.runs orderly.work orderly.evidence
    orderly.readable options.keep
  obtain ⟨cleaning, all⟩ := cleanAll_of_free standing (noneRemoved, storage)
    (show Free options.dryRun storage from Or.inr orderly.trash) standing.ids
  have cleaned := cleanAll_eq_ok all
  have kept : cleaning.2.failedEvidence = storage.failedEvidence ∧
      cleaning.2.trashLinked = false := by
    rw [cleaned, ← orderly.trash]
    dsimp only
    split_ifs <;> exact ⟨rfl, rfl⟩
  obtain ⟨⟨result, after⟩, last⟩ := exists_cleanKept options removeBuildCache
    standing.active cleaning (fun _ => kept.1 ▸ orderly.failedEvidence) (fun _ _ _ => Or.inr kept.2)
    fun _ _ => Or.inr kept.2
  exact ⟨result, after, cleanupStorageLocked_eq_ok.mpr ⟨standing, cleaning, stood, all, last⟩⟩

/-- Cleaning keeps what it promises and a second one removes nothing more. -/
theorem cleanupStorageLocked_keeps (storage : Storage) (options : CleanupOptions)
    (removeBuildCache : Bool) :
    (storage.Orderly → ∃ result after,
      cleanupStorageLocked storage options removeBuildCache = (.ok result, after)) ∧
    ∀ result after, cleanupStorageLocked storage options removeBuildCache = (.ok result, after) →
      (∃ kept, Promised storage options removeBuildCache kept result after) ∧
      cleanupStorageLocked storage { options with dryRun := true } removeBuildCache =
        (.ok result, storage) ∧
      (options.dryRun = false →
        cleanupStorageLocked after options removeBuildCache = (.ok noneRemoved, after)) :=
  ⟨fun orderly => cleanup_orderly orderly options removeBuildCache,
    fun _ _ ends => ⟨promised_of_ok ends, cleanup_dryRun ends, fun changes => cleanup_again changes ends⟩⟩

def cachedStorage : Storage where
  runs := ⟨false, [], List.nodup_nil⟩
  work := ⟨false, [], List.nodup_nil⟩
  evidence := ⟨false, [], List.nodup_nil⟩
  failedEvidence := ⟨false, [], List.nodup_nil⟩
  containers := fun _ => .absent
  cache := true
  trashLinked := false

/-- What runs keep between them goes too, where that is asked for. -/
theorem not_all_else_left :
    (cleanupStorageLocked cachedStorage ⟨1, false⟩ true).2.cache ≠ cachedStorage.cache := by
  decide

end Again

section Twice

variable {storage between after direct : Storage} {options : CleanupOptions}
  {removeBuildCache : Bool} {kept retained others : List String} {result : CleanupResult}
  {keep keep' : Nat}

theorem Storage.Newest.subset (newest : storage.Newest keep kept)
    (newest' : storage.Newest keep others) : kept ⊆ others := by
  intro id member
  by_contra outside
  have ended := newest.ended id member
  have full : keep ≤ others.length :=
    Nat.le_of_not_lt fun short => outside (newest'.full short id ended)
  have apart : ∃ other ∈ others, other ∉ kept := by
    by_contra none
    have all : id :: others ⊆ kept := List.cons_subset.mpr ⟨member, fun other inside =>
      by_contra fun missing => none ⟨other, inside, missing⟩⟩
    have more := (List.nodup_cons.mpr ⟨outside, newest'.nodup⟩).length_le_of_subset all
    have atMost := newest.atMost
    rw [List.length_cons] at more
    omega
  obtain ⟨other, inside, missing⟩ := apart
  exact lt_asymm (newest.newest id member other (newest'.ended other inside) missing)
    (newest'.newest other inside id ended outside)

/-- The newest of those kept are, of all, the newest that both cleanings keep. -/
theorem Promised.newest_again
    (promised : Promised storage options removeBuildCache kept result between)
    (newest : (storage.without result).Newest keep retained) :
    storage.Newest (min options.keep keep) retained := by
  have within : retained ⊆ kept := fun id member =>
    (promised.ended_iff id).mp (newest.ended id member)
  have key (id : String) (member : id ∈ kept) :
      (storage.without result).retentionKey id = storage.retentionKey id := by
    have stays : id ∉ result.removedRuns := fun removed => ((promised.runs id).mp removed).2 member
    have found : (storage.without result).runs.entries.lookup id = storage.runs.entries.lookup id := by
      rw [(storage.without_folders result).1]
      ext entry
      rw [Folder.lookup_iff, Folder.lookup_iff, Folder.mem_without, and_iff_left stays]
    rw [Storage.retentionKey, Storage.retentionKey, Storage.publishedStartedAt, found,
      Storage.publishedStartedAt]
  refine ⟨fun id member => promised.newest.ended id (within member), newest.nodup, ?_, ?_, ?_⟩
  · exact le_min ((newest.nodup.length_le_of_subset within).trans promised.newest.atMost)
      newest.atMost
  · intro short id ended
    have all : kept ⊆ retained := fun other member =>
      newest.full (short.trans_le (min_le_right _ _)) other ((promised.ended_iff other).mpr member)
    have fewer := promised.newest.nodup.length_le_of_subset all
    exact all (promised.newest.full (fewer.trans_lt (short.trans_le (min_le_left _ _))) id ended)
  · intro id member other ended outside
    by_cases among : other ∈ kept
    · have later := newest.newest id member other ((promised.ended_iff other).mpr among) outside
      rwa [key other among, key id (within member)] at later
    · exact promised.newest.newest id (within member) other ended among

theorem Folder.without_congr {Contents : Type} (folder : Folder Contents) {names others : List String}
    (same : ∀ id, id ∈ names ↔ id ∈ others) : folder.without names = folder.without others := by
  simp only [Folder.without, same]

/-- Cleaning twice leaves the runs, work and evidence that one cleaning which keeps the fewer does. -/
theorem cleanups_compose {caches caches' : Bool} {again once : CleanupResult}
    (first : cleanupStorageLocked storage ⟨keep, false⟩ removeBuildCache = (.ok result, between))
    (second : cleanupStorageLocked between ⟨keep', false⟩ caches = (.ok again, after))
    (straight : cleanupStorageLocked storage ⟨min keep keep', false⟩ caches' = (.ok once, direct)) :
    after.runs = direct.runs ∧ after.work = direct.work ∧ after.evidence = direct.evidence := by
  obtain ⟨kept, promised⟩ := promised_of_ok first
  obtain ⟨retained, promised'⟩ := promised_of_ok second
  obtain ⟨fewest, promised''⟩ := promised_of_ok straight
  obtain rfl : between = storage.without result := promised.rest
  obtain rfl : after = (storage.without result).without again := promised'.rest
  obtain rfl : direct = storage.without once := promised''.rest
  have newest := promised.newest_again promised'.newest
  have same (id : String) : id ∈ retained ↔ id ∈ fewest :=
    ⟨(newest.subset promised''.newest ·), (promised''.newest.subset newest ·)⟩
  have within (id : String) : id ∈ retained → id ∈ kept := fun member =>
    (promised.ended_iff id).mp (promised'.newest.ended id member)
  simp only [Storage.without_folders, Folder.without_without]
  refine ⟨Folder.without_congr _ fun id => ?_, Folder.without_congr _ fun id => ?_,
    Folder.without_congr _ fun id => ?_⟩
  · rw [List.mem_append, promised.runs, promised'.runs, promised''.runs, promised.ended_iff, ← same]
    have ended := promised.newest.ended id
    grind
  · rw [List.mem_append, promised.work, promised'.work, promised''.work, promised.active_iff,
      (storage.without_folders result).2.1, Folder.holds_without, promised.work]
    grind
  · rw [List.mem_append, promised.evidence, promised'.evidence, promised''.evidence,
      promised.active_iff, (storage.without_folders result).2.2.1, Folder.holds_without,
      promised.evidence, ← same]
    grind

def endedStorage : Storage :=
  { cachedStorage with
    runs := ⟨false, [("a", .directory ⟨some "1"⟩)], by decide⟩
    evidence := ⟨false, [("a", .directory ())], by decide⟩ }

theorem cleanups_compose_ended :
    (cleanupStorageLocked (cleanupStorageLocked endedStorage ⟨1, false⟩ false).2 ⟨0, false⟩
        false).2.runs = (cleanupStorageLocked endedStorage ⟨min 1 0, false⟩ false).2.runs := by
  have first : cleanupStorageLocked endedStorage ⟨1, false⟩ false = (.ok _, _) := rfl
  have second : cleanupStorageLocked (cleanupStorageLocked endedStorage ⟨1, false⟩ false).2
      ⟨0, false⟩ false = (.ok _, _) := rfl
  have straight : cleanupStorageLocked endedStorage ⟨min 1 0, false⟩ false = (.ok _, _) := rfl
  exact (cleanups_compose first second straight).1

end Twice

end Supercov.Lifecycle
