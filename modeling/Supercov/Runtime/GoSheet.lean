import Supercov.Runtime.GoVectors
import Supercov.Library.Sweep

/-!
# What the Go runtime's arrays and records say

The probes that were stored and the vectors that completed, as facts: those still in
the arrays, those in the run's totals and those in each test's record.  Each call of
the runtime notes facts of the open test, or sweeps them.
-/

namespace Supercov.Runtime.Go

inductive Fact where
  | stored (probe : Nat)
  | completed (decision : Nat) (key : Word)
  deriving DecidableEq, Repr

def storedBy (probe : Nat) (state : State) : List Fact :=
  if probe < state.hits.length then [.stored probe] else []

/-- The vector of an evaluation that ends: that of the words its conditions left, where
one was evaluated and the decision is not too wide for a key. -/
def completedBy (decision : Nat) (value : Bool) (state : State) : List Fact :=
  match state.decisions[decision]? with
  | some held =>
    if maskOf (held.words.key value) = 0 ∨ held.width > packedMaxWidth then []
    else [.completed decision (held.words.key value)]
  | none => []

section Sheet

/-- What the runtime's arrays and records say of each fact. -/
def sheet (state : State) : Sweep Fact where
  pending := {fact | match fact with
    | .stored probe => state.hits[probe]? = some 2
    | .completed decision key => key ∈ (ledger state).pending decision}
  total := {fact | match fact with
    | .stored probe => state.global[probe]? = some 2
    | .completed decision key => key ∈ (ledger state).runWide decision}
  accounts := fun owner => {fact | match fact with
    | .stored probe => (probe, 2) ∈ listAt state.records TestRecord.probes owner
    | .completed decision key => (decision, key) ∈ (ledger state).credited owner}
  owner := state.current

/-- Probes store one value, which the sweeps carry. -/
structure Stores (state : State) : Prop where
  sizes : state.global.length = state.hits.length
  hits : ∀ value ∈ state.hits, value = 0 ∨ value = 2
  global : ∀ value ∈ state.global, value = 0 ∨ value = 2
  records : ∀ record ∈ state.records, ∀ probe ∈ record.probes, probe.2 = 2

theorem Stores.arm (probes : Nat) (conditions : List Nat) : Stores (arm probes conditions) where
  sizes := by simp [Go.arm]
  hits := fun value member => Or.inl (List.eq_of_mem_replicate member)
  global := fun value member => Or.inl (List.eq_of_mem_replicate member)
  records := fun _ member => absurd member List.not_mem_nil

theorem sheet_arm (probes : Nat) (conditions : List Nat) :
    sheet (arm probes conditions) = .start := by
  have zero (probe : Nat) : ¬ (List.replicate probes 0)[probe]? = some 2 := by
    rw [List.getElem?_replicate]
    split <;> simp
  have nothing (owner : Nat) : listAt (arm probes conditions).records TestRecord.probes owner = [] := by
    simp [listAt, arm]
  have empty := ledger_arm probes conditions
  refine Sweep.ext ?_ ?_ ?_ rfl
  · ext fact
    cases fact with
    | stored probe => exact iff_of_false (zero probe) (Set.notMem_empty _)
    | completed decision key =>
      simp only [sheet, empty, Set.mem_ofPred_eq]
      exact Iff.rfl
  · ext fact
    cases fact with
    | stored probe => exact iff_of_false (zero probe) (Set.notMem_empty _)
    | completed decision key =>
      simp only [sheet, empty, Set.mem_ofPred_eq]
      exact Iff.rfl
  · funext owner
    ext fact
    cases fact with
    | stored probe =>
      simp only [sheet, nothing, Set.mem_ofPred_eq, List.not_mem_nil, Sweep.start,
        Set.mem_empty_iff_false]
    | completed decision key =>
      simp only [sheet, empty, Set.mem_ofPred_eq]
      exact Iff.rfl

theorem sheet_congr {state state' : State} (hits : state'.hits = state.hits)
    (global : state'.global = state.global)
    (probes : listAt state'.records TestRecord.probes = listAt state.records TestRecord.probes)
    (kept : ledger state' = ledger state) : sheet state' = sheet state := by
  have current : state'.current = state.current := congrArg Ledger.current kept
  simp only [sheet, hits, global, probes, kept, current]

variable {state : State}

theorem Stores.p (stores : Stores state) (probe : Nat) : Stores (p probe state) where
  sizes := by
    rw [Go.p, List.length_modify]
    exact stores.sizes
  hits := by
    intro value member
    obtain ⟨place, inside, rfl⟩ := List.mem_iff_getElem.mp member
    simp only [Go.p, List.getElem_modify]
    split
    · exact Or.inr rfl
    · exact stores.hits _ (List.getElem_mem _)
  global := stores.global
  records := stores.records

theorem sheet_p (probe : Nat) (state : State) :
    sheet (p probe state) = (storedBy probe state).foldl Sweep.note (sheet state) := by
  have after (other : Nat) : (p probe state).hits[other]? = some 2 ↔
      state.hits[other]? = some 2 ∨ (other = probe ∧ probe < state.hits.length) := by
    simp only [p, List.getElem?_modify]
    by_cases same : probe = other
    · subst same
      by_cases inside : probe < state.hits.length
      · simp [inside]
      · simp [inside]
    · simp [same, Ne.symm same]
  unfold storedBy
  split
  · next inside =>
    refine Sweep.ext ?_ rfl rfl rfl
    ext fact
    cases fact with
    | stored other =>
      simp only [sheet, Set.mem_ofPred_eq, after, inside, and_true, List.foldl_cons, List.foldl_nil,
        Sweep.note, Fact.stored.injEq]
    | completed decision key =>
      simp only [sheet, Set.mem_ofPred_eq, List.foldl_cons, List.foldl_nil, Sweep.note,
        reduceCtorEq, or_false]
      exact Iff.rfl
  · next outside =>
    have kept : (p probe state).hits = state.hits :=
      modify_eq_self fun value known =>
        absurd (List.getElem?_eq_some_iff.mp known).1 outside
    exact sheet_congr kept rfl rfl rfl

theorem getElem?_global (stores : Stores state) (probe : Nat) :
    (harvest state).global[probe]? = some 2 ↔
      state.global[probe]? = some 2 ∨ state.hits[probe]? = some 2 := by
  simp only [harvest, List.getElem?_zipWith]
  have sizes := stores.sizes
  by_cases inside : probe < state.hits.length
  · have inside' : probe < state.global.length := sizes ▸ inside
    have held := stores.global _ (List.getElem_mem inside')
    have hit := stores.hits _ (List.getElem_mem inside)
    rw [List.getElem?_eq_getElem inside, List.getElem?_eq_getElem inside']
    rcases held with held | held <;> rcases hit with hit | hit <;> simp [held, hit]
  · have outside' : ¬ probe < state.global.length := sizes ▸ inside
    simp [inside, outside']

theorem mem_hitProbes (stores : Stores state) (probe : Nat × Nat) :
    probe ∈ hitProbes state.hits ↔ probe.2 = 2 ∧ state.hits[probe.1]? = some 2 := by
  simp only [hitProbes, List.mem_map, List.mem_filter, List.mem_zipIdx_iff_getElem?,
    decide_eq_true_eq]
  constructor
  · rintro ⟨⟨value, place⟩, ⟨held, some_⟩, rfl⟩
    have two : value = 2 :=
      (stores.hits value (List.mem_of_getElem? held)).resolve_left some_
    subst two
    exact ⟨rfl, held⟩
  · rintro ⟨two, held⟩
    refine ⟨(2, probe.1), ⟨held, Nat.succ_ne_zero 1⟩, ?_⟩
    rw [← two]

theorem Stores.harvest (stores : Stores state) : Stores (harvest state) where
  sizes := by
    simp [Go.harvest, stores.sizes]
  hits := by
    intro value member
    obtain ⟨_, _, rfl⟩ := List.mem_map.mp member
    exact Or.inl rfl
  global := by
    intro value member
    obtain ⟨place, inside, rfl⟩ := List.mem_iff_getElem.mp member
    simp only [Go.harvest, List.length_zipWith, lt_min_iff] at inside
    have held := stores.global _ (List.getElem_mem inside.1)
    have hit := stores.hits _ (List.getElem_mem inside.2)
    simp only [Go.harvest, List.getElem_zipWith]
    rcases held with held | held <;> rcases hit with hit | hit <;> simp [held, hit]
  records := by
    intro record member
    unfold Go.harvest at member
    dsimp only at member
    split at member
    · next index _ =>
      split at member
      · exact stores.records record member
      · obtain ⟨place, inside, rfl⟩ := List.mem_iff_getElem.mp member
        rw [List.length_modify] at inside
        have held := stores.records _ (List.getElem_mem inside)
        rw [List.getElem_modify]
        split
        · intro probe among
          rcases List.mem_append.mp among with before | swept
          · exact held probe before
          · exact ((mem_hitProbes stores _).mp swept).1
        · exact held
    · exact stores.records record member

theorem sheet_harvest (attributed : Attributed state) (stores : Stores state) :
    sheet (harvest state) = (sheet state).sweep := by
  have swept := ledger_harvest attributed
  have clear (probe : Nat) : ¬ (harvest state).hits[probe]? = some 2 := by
    simp only [harvest, List.getElem?_map]
    cases state.hits[probe]? <;> simp
  refine Sweep.ext ?_ ?_ ?_ rfl
  · ext fact
    cases fact with
    | stored probe => exact iff_of_false (clear probe) (Set.notMem_empty _)
    | completed decision key =>
      simp only [sheet, swept, Set.mem_ofPred_eq]
      exact Iff.rfl
  · ext fact
    cases fact with
    | stored probe =>
      simp only [sheet, Sweep.sweep, Set.mem_ofPred_eq, getElem?_global stores]
    | completed decision key =>
      simp only [sheet, swept, Set.mem_ofPred_eq]
      exact Iff.rfl
  · funext owner
    ext fact
    cases fact with
    | stored probe =>
      have own := mem_hitProbes stores (probe, 2)
      simp only [true_and] at own
      simp only [sheet, Sweep.sweep, Set.mem_ofPred_eq, ← own]
      cases running : state.current with
      | none => simp [harvest, running]
      | some index =>
        have inside := attributed.valid index running
        simp only [harvest, running, attributed.apart, Bool.false_eq_true, if_false,
          Option.some.injEq]
        by_cases same : index = owner
        · subst same
          have known := List.getElem?_eq_getElem inside
          rw [listAt_modify_eq known, listAt_of_known known]
          simp [TestRecord.credit]
        · rw [listAt_modify_of_ne same]
          simp [same]
    | completed decision key =>
      simp only [sheet, swept, Set.mem_ofPred_eq]
      exact Iff.rfl

theorem sheet_assign {state state' : State} (hits : state'.hits = state.hits)
    (global : state'.global = state.global)
    (probes : listAt state'.records TestRecord.probes = listAt state.records TestRecord.probes)
    (kept : ledger state' = (ledger state).assign state'.current) :
    sheet state' = (sheet state).assign state'.current := by
  simp only [sheet, hits, global, probes, kept]
  rfl

end Sheet

section Sound

/-- The runtime accounts for what happened. -/
structure Sound (log : List (Option Nat × Fact)) (state : State) : Prop where
  attributed : Attributed state
  stores : Stores state
  cached : ∀ decision ∈ state.decisions, Cached decision
  distinct : ∀ decision ∈ state.decisions, decision.runWide.Nodup
  exact_ : Sweep.Exact log (sheet state)

variable {log : List (Option Nat × Fact)} {state : State}

theorem Sound.start (probes : Nat) (conditions : List Nat) : Sound [] (arm probes conditions) where
  attributed := ⟨rfl, fun _ running => nomatch running⟩
  stores := Stores.arm probes conditions
  cached := by
    intro decision member
    obtain ⟨width, -, rfl⟩ := List.mem_map.mp member
    intro key recent nonzero
    simp only [DecisionState.armed, or_self] at recent
    exact absurd recent nonzero
  distinct := by
    intro decision member
    obtain ⟨width, -, rfl⟩ := List.mem_map.mp member
    exact List.nodup_nil
  exact_ := by
    rw [sheet_arm]
    exact Sweep.Exact.start

theorem Sound.p (sound : Sound log state) (probe : Nat) :
    Sound (log ++ (storedBy probe state).map fun fact => (state.current, fact)) (p probe state) where
  attributed := ⟨sound.attributed.apart, sound.attributed.valid⟩
  stores := sound.stores.p probe
  cached := sound.cached
  distinct := sound.distinct
  exact_ := by
    rw [sheet_p]
    exact sound.exact_.notes

theorem Sound.c (sound : Sound log state) (decision index : Nat) (value : Bool) :
    Sound log (c decision index value state) where
  attributed := by
    rw [c_eq]
    exact ⟨sound.attributed.apart, sound.attributed.valid⟩
  stores := by
    rw [c_eq]
    exact ⟨sound.stores.sizes, sound.stores.hits, sound.stores.global, sound.stores.records⟩
  cached := by
    rw [c_eq]
    exact cached_modify sound.cached fun held found =>
      sound.cached held (List.mem_of_getElem? found)
  distinct := by
    rw [c_eq]
    intro held member
    obtain ⟨place, inside, rfl⟩ := List.mem_iff_getElem.mp member
    rw [List.length_modify] at inside
    have own := sound.distinct _ (List.getElem_mem inside)
    rw [List.getElem_modify]
    split <;> exact own
  exact_ := by
    have same : sheet (Go.c decision index value state) = sheet state := by
      have kept := ledger_c decision index value state
      rw [c_eq] at kept ⊢
      exact sheet_congr rfl rfl rfl kept
    rw [same]
    exact sound.exact_

theorem Sound.of_kept (sound : Sound log state) {decision : Nat} {held kept : DecisionState}
    (known : state.decisions[decision]? = some held) (runWide : kept.runWide = held.runWide)
    (cached : Cached kept) (suspended : Suspended) :
    let after := { state with
      suspended := suspended
      decisions := state.decisions.modify decision fun _ => kept }
    (kept.seen = held.seen → Sound log after) ∧
      ∀ key, (∀ other, other ∈ kept.seen ↔ other ∈ held.seen ∨ other = key) →
        Sound (log ++ [(state.current, .completed decision key)]) after := by
  intro after
  have attributed : Attributed after := ⟨sound.attributed.apart, sound.attributed.valid⟩
  have stores : Stores after :=
    ⟨sound.stores.sizes, sound.stores.hits, sound.stores.global, sound.stores.records⟩
  have allCached : ∀ other ∈ after.decisions, Cached other :=
    cached_modify sound.cached fun _ _ => cached
  have distinct : ∀ other ∈ after.decisions, other.runWide.Nodup := by
    intro other member
    obtain ⟨place, inside, rfl⟩ := List.mem_iff_getElem.mp member
    simp only [after, List.length_modify] at inside
    simp only [after, List.getElem_modify]
    split
    · rw [runWide]
      exact sound.distinct held (List.mem_of_getElem? known)
    · exact sound.distinct _ (List.getElem_mem inside)
  obtain ⟨unseen, recorded⟩ := ledger_bd known runWide suspended 0 0 true
  constructor
  · intro same
    have sheets : sheet after = sheet state := sheet_congr rfl rfl rfl (unseen same)
    exact ⟨attributed, stores, allCached, distinct, sheets ▸ sound.exact_⟩
  · intro key seen
    have noted : ledger after = (ledger state).record decision key := recorded key seen
    have sheets : sheet after = (sheet state).note (.completed decision key) := by
      refine Sweep.ext ?_ ?_ ?_ rfl
      · ext fact
        cases fact with
        | stored probe =>
          simp only [sheet, Sweep.note, Set.mem_ofPred_eq, reduceCtorEq, or_false]
          exact Iff.rfl
        | completed other key' =>
          simp only [sheet, noted, Sweep.note, Set.mem_ofPred_eq, Fact.completed.injEq]
          exact Iff.rfl
      · ext fact
        cases fact with
        | stored probe => exact Iff.rfl
        | completed other key' =>
          simp only [sheet, noted, Sweep.note, Set.mem_ofPred_eq]
          exact Iff.rfl
      · funext owner
        ext fact
        cases fact with
        | stored probe => exact Iff.rfl
        | completed other key' =>
          simp only [sheet, noted, Sweep.note, Set.mem_ofPred_eq]
          exact Iff.rfl
    exact ⟨attributed, stores, allCached, distinct, sheets ▸ sound.exact_.note _⟩

theorem Sound.again (sound : Sound log state) {fact : Fact} (pending : fact ∈ (sheet state).pending) :
    Sound (log ++ [(state.current, fact)]) state :=
  ⟨sound.attributed, sound.stores, sound.cached, sound.distinct, sound.exact_.again pending⟩

theorem Sound.bd (sound : Sound log state) (whenTrue whenFalse decision : Nat) (value : Bool) :
    Sound (log ++ (storedBy (if value then whenTrue else whenFalse) state ++
        completedBy decision value state).map fun fact => (state.current, fact))
      (bd whenTrue whenFalse decision value state) := by
  have stored := sound.p (if value then whenTrue else whenFalse)
  rw [List.map_append, ← List.append_assoc]
  cases known : state.decisions[decision]? with
  | none =>
    have same : Go.bd whenTrue whenFalse decision value state =
        Go.p (if value then whenTrue else whenFalse) state := by
      have unknown : (b whenTrue whenFalse value state).decisions[decision]? = none := known
      simp only [Go.bd, unknown]
      rfl
    have none_ : completedBy decision value state = [] := by simp only [completedBy, known]
    rw [same, none_, List.map_nil, List.append_nil]
    exact stored
  | some held =>
    obtain ⟨kept, closes, ended⟩ := bd_eq known whenTrue whenFalse value
    have cachedHeld := sound.cached held (List.mem_of_getElem? known)
    have runWide : kept.runWide = held.runWide := by
      rcases closes with ⟨rfl, -⟩ | rfl
      · rfl
      · exact record_runWide _ _
    rw [ended]
    set key := held.words.key value with keyDef
    -- Whether the vector is one the runtime keeps, and then whether it is pending already.
    by_cases skipped : maskOf key = 0 ∨ held.width > packedMaxWidth
    · have none_ : completedBy decision value state = [] := by
        simp only [completedBy, known, ← keyDef, if_pos skipped]
      have same : kept = held.ended (state.suspended.takeBack decision).1 := by
        rcases closes with ⟨same, -⟩ | same
        · exact same
        · rw [same]
          exact if_pos skipped
      rw [none_, List.map_nil, List.append_nil]
      exact (stored.of_kept known runWide (same ▸ cachedHeld.ended _) _).1 (by rw [same]; rfl)
    · have one : completedBy decision value state = [.completed decision key] := by
        simp only [completedBy, known, ← keyDef, if_neg skipped]
      obtain ⟨some_, narrow⟩ := not_or.mp skipped
      rw [one, List.map_singleton]
      rcases closes with ⟨same, recent⟩ | same
      · have nonzero : key ≠ 0 := by
          intro zero
          rw [zero] at some_
          exact some_ rfl
        have pending : .completed decision key ∈
            (sheet (Go.p (if value then whenTrue else whenFalse) state)).pending := by
          change key ∈ listAt state.decisions DecisionState.seen decision
          rw [listAt_of_known known]
          exact cachedHeld key recent nonzero
        have again := stored.again pending
        exact (again.of_kept known runWide (same ▸ cachedHeld.ended _) _).1 (by rw [same]; rfl)
      · obtain ⟨recentFirst, recentSecond, seen⟩ := record_of_narrow some_
          (show (held.ended (state.suspended.takeBack decision).1).width ≤ packedMaxWidth from
            not_lt.mp narrow)
        rw [← same] at recentFirst recentSecond seen
        have cached : Cached kept := by
          intro other recent nonzero
          rw [recentFirst, recentSecond] at recent
          rw [seen]
          rcases recent with new | old
          · exact Or.inr new
          · exact Or.inl (cachedHeld other (Or.inl old) nonzero)
        exact (stored.of_kept known runWide cached _).2 key seen

theorem Sound.of_swept (sound : Sound log state) {after : State} (attributed : Attributed after)
    (hits : after.hits = (harvest state).hits) (global : after.global = (harvest state).global)
    (decisions : after.decisions = (harvest state).decisions)
    (records : after.records = (harvest state).records ∨
      ∃ record, record.probes = [] ∧ record.vectors = [] ∧
        after.records = (harvest state).records ++ [record]) :
    Sound log after := by
  have swept := sound.stores.harvest
  have probes : listAt after.records TestRecord.probes =
      listAt (harvest state).records TestRecord.probes := by
    rcases records with same | ⟨record, empty, -, same⟩
    · rw [same]
    · rw [same, listAt_append_of_nil empty]
  have vectors : listAt after.records TestRecord.vectors =
      listAt (harvest state).records TestRecord.vectors := by
    rcases records with same | ⟨record, -, empty, same⟩
    · rw [same]
    · rw [same, listAt_append_of_nil empty]
  have kept : ledger after = (ledger (harvest state)).assign after.current := by
    simp only [ledger, decisions, vectors]
    rfl
  refine ⟨attributed, ⟨?_, ?_, ?_, ?_⟩, ?_, ?_, ?_⟩
  · rw [hits, global]
    exact swept.sizes
  · rw [hits]
    exact swept.hits
  · rw [global]
    exact swept.global
  · rcases records with same | ⟨record, empty, -, same⟩
    · rw [same]
      exact swept.records
    · rw [same]
      intro other member
      rcases List.mem_append.mp member with before | new
      · exact swept.records other before
      · rw [List.mem_singleton.mp new, empty]
        exact fun _ inside => absurd inside List.not_mem_nil
  · rw [decisions]
    intro decision member
    obtain ⟨before, _, rfl⟩ := List.mem_map.mp member
    intro key recent nonzero
    simp only [DecisionState.harvest, or_self] at recent
    exact absurd recent nonzero
  · rw [decisions]
    intro decision member
    obtain ⟨before, inside, rfl⟩ := List.mem_map.mp member
    simp only [DecisionState.harvest, sound.attributed.apart, Bool.false_eq_true, if_false]
    exact nodup_foldl_including (nodup_foldl_including (sound.distinct before inside))
  · rw [sheet_assign hits global probes kept, sheet_harvest sound.attributed sound.stores]
    exact sound.exact_.assign after.current

theorem Sound.harvest (sound : Sound log state) : Sound log (harvest state) :=
  sound.of_swept sound.attributed.harvest rfl rfl rfl (Or.inl rfl)

theorem Sound.outcome (sound : Sound log state) (status : String) :
    Sound log (outcome status state) where
  attributed := sound.attributed.outcome status
  stores := by
    unfold Go.outcome
    split
    · refine ⟨sound.stores.sizes, sound.stores.hits, sound.stores.global, ?_⟩
      intro record member
      obtain ⟨place, inside, rfl⟩ := List.mem_iff_getElem.mp member
      rw [List.length_modify] at inside
      have own := sound.stores.records _ (List.getElem_mem inside)
      rw [List.getElem_modify]
      split <;> exact own
    · exact sound.stores
  cached := by
    unfold Go.outcome
    split <;> exact sound.cached
  distinct := by
    unfold Go.outcome
    split <;> exact sound.distinct
  exact_ := by
    have kept := ledger_outcome status state
    have same : sheet (Go.outcome status state) = sheet state := by
      cases running : state.current with
      | none => simp only [Go.outcome, running]
      | some index =>
        have changed : Go.outcome status state = { state with
            records := state.records.modify index fun record => { record with status := status } } := by
          simp only [Go.outcome, running]
        rw [changed] at kept ⊢
        exact sheet_congr rfl rfl (listAt_modify_of_kept (by intro _; rfl) _) kept
    rw [same]
    exact sound.exact_

end Sound

end Supercov.Runtime.Go
