import Supercov.Lifecycle.ProjectLock

/-!
# What the calls of a run come to

A call passes a copy over only while another handle has its lock, and returns with its own.
-/

namespace Supercov.ProjectLock

open Interleaved
open LockTable (Mode Coherent)

/-- The agent's call does what it guarantees, and ends with what `post` says. -/
abbrev Calls (process : Processes) (agent : Nat) {Result : Type} (post : Result → Store → Prop)
    (program : Task Result) (store : Store) : Prop :=
  Meets (Relies process agent) (Guarantees process agent) post program store

structure Bare (process : Processes) (agent : Nat) (store : Store) : Prop where
  sound : Sound process store
  bare : ∀ copy mode, ¬ store.Has agent .hold (.copy copy) mode

structure Trying (process : Processes) (agent : Nat) (mode : Mode) (passed : List Nat)
    (store : Store) : Prop extends Bare process agent store where
  share : store.Has agent .hold .store mode
  passed : ∀ copy ∈ passed, copy ∈ store.met agent

structure Locked (process : Processes) (agent : Nat) (mode : Mode) (copy : Nat) (store : Store) :
    Prop where
  sound : Sound process store
  share : store.Has agent .hold .store mode
  has : store.Has agent .hold (.copy copy) .exclusive
  only : ∀ other mode, other ≠ copy → ¬ store.Has agent .hold (.copy other) mode

/-- A hold, with its owner written beside the copy's lock. -/
structure Holds (process : Processes) (agent : Nat) (mode : Mode) (owner : LockOwner) (copy : Nat)
    (store : Store) : Prop extends Locked process agent mode copy store where
  owner : store.owners copy = some owner

section Stable

variable {process : Processes} {agent : Nat} {mode : Mode} {passed : List Nat} {copy : Nat}
  {owner : LockOwner} {store later : Store}

theorem Bare.after (bare : Bare process agent store) (between : Relies process agent store later) :
    Bare process agent later where
  sound := between.sound
  bare copy mode has := bare.bare copy mode ((between.locks ..).mp has)

theorem Trying.after (trying : Trying process agent mode passed store)
    (between : Relies process agent store later) : Trying process agent mode passed later where
  toBare := trying.toBare.after between
  share := (between.locks ..).mpr trying.share
  passed copy listed := between.met (trying.passed copy listed)

theorem Locked.after (locked : Locked process agent mode copy store)
    (between : Relies process agent store later) : Locked process agent mode copy later where
  sound := between.sound
  share := (between.locks ..).mpr locked.share
  has := (between.locks ..).mpr locked.has
  only other mode apart has := locked.only other mode apart ((between.locks ..).mp has)

theorem Holds.after (holds : Holds process agent mode owner copy store)
    (between : Relies process agent store later) : Holds process agent mode owner copy later where
  toLocked := holds.toLocked.after between
  owner := (between.owners copy holds.has).trans holds.owner

end Stable

namespace Calls

variable {process : Processes} {agent : Nat} {store : Store} {Result Final : Type}

theorem bind {middle : Result → Store → Prop} {post : Final → Store → Prop}
    {program : Task Result} {next : Result → Task Final}
    (calls : Calls process agent middle program store)
    (then_ : ∀ result later, middle result later → Calls process agent post (next result) later) :
    Calls process agent post (program >>= next) store :=
  Meets.bind (Relies process agent) Relies.settled calls then_

theorem change_bind {post : Result → Store → Prop} {next : Task Result} {change : Store → Store}
    (made : ∀ seen, Relies process agent store seen → Guarantees process agent seen (change seen) ∧
      Calls process agent post next (change seen)) :
    Calls process agent post (Interleaved.change change >>= fun _ => next) store :=
  made

theorem takeLock_bind {post : Result → Store → Prop} {next : Bool → Task Result}
    {file : LockFile} {use : Use} {mode : Mode} {alive : Task Bool}
    (taken : ∀ seen later, Relies process agent store seen →
      seen.lock file ⟨agent, use⟩ mode = some later → Guarantees process agent seen later →
      Calls process agent post (next true) later)
    (refused : ∀ seen, Relies process agent store seen →
      seen.lock file ⟨agent, use⟩ mode = none → Calls process agent post (next false) seen) :
    Calls process agent post (takeLock true file ⟨agent, use⟩ mode alive >>= next) store := by
  intro seen between
  cases locked : seen.lock file ⟨agent, use⟩ mode with
  | none =>
    simp only [locked]
    exact ⟨.refl between.sound, refused seen between locked⟩
  | some later =>
    have guarantees := Store.guarantees_lock between.sound locked
    simp only [locked]
    exact ⟨guarantees, taken seen later between locked guarantees⟩

theorem of_leaves {P : Store → Prop} {program : Task Result} (leaves : Leaves id program)
    (sound : ∀ {store}, P store → Sound process store)
    (after : ∀ {store later}, P store → Relies process agent store later → P later)
    (holds : P store) : Calls process agent (fun _ => P) program store := by
  refine leaves.meets after (fun holds same => ?_) holds
  obtain rfl := same
  exact ⟨.refl (sound holds), holds⟩

end Calls

section Looks

variable {Result : Type}

theorem readOwner_leaves (copy : Nat) : Leaves id (readOwner copy) :=
  ⟨fun _ => rfl, fun _ => trivial⟩

theorem processExists_leaves (pid : Nat) : Leaves id (processExists pid) :=
  ⟨fun _ => rfl, fun _ => trivial⟩

theorem liveOwner_leaves (process copy : Nat) : Leaves id (liveOwner process copy) := by
  refine (readOwner_leaves copy).bind fun owner => ?_
  split
  · trivial
  split
  · trivial
  refine (processExists_leaves _).bind fun exists_ => ?_
  split <;> trivial

theorem active_leaves (process : Nat) (copies : List Nat) : Leaves id (active process copies) := by
  induction copies with
  | nil => trivial
  | cons copy copies ih =>
    refine (liveOwner_leaves process copy).bind fun owner => ?_
    split
    · trivial
    · exact ih

theorem holder_leaves (copies : List Nat) : Leaves id (holder copies) := by
  induction copies with
  | nil => trivial
  | cons copy copies ih =>
    refine (readOwner_leaves copy).bind fun owner => ?_
    split
    · exact ih
    refine (processExists_leaves _).bind fun exists_ => ?_
    split
    · trivial
    · exact ih

end Looks

namespace Calls

variable {process : Processes} {agent : Nat} {mode : Mode} {store : Store}

theorem readOwner (copy : Nat) : Calls process agent (fun found later => ∃ seen,
      Relies process agent store seen ∧ seen.owners copy = found ∧ Relies process agent seen later)
    (readOwner copy) store :=
  fun seen between => ⟨.refl between.sound, fun _ after => ⟨seen, between, rfl, after⟩⟩

theorem processExists (pid : Nat) : Calls process agent (fun lives later => ∃ seen,
      Relies process agent store seen ∧ seen.living pid = lives ∧ Relies process agent seen later)
    (processExists pid) store :=
  fun seen between => ⟨.refl between.sound, fun _ after => ⟨seen, between, rfl, after⟩⟩

theorem liveOwner {copy : Nat} (locked : Locked process agent mode copy store) :
    Calls process agent (fun owner later => owner = none ∧ Locked process agent mode copy later)
      (liveOwner (process agent) copy) store := by
  have done {store : Store} (locked : Locked process agent mode copy store) :
      Calls process agent
        (fun (owner : Option LockOwner) later => owner = none ∧ Locked process agent mode copy later)
        (.done none) store :=
    fun later between => ⟨rfl, locked.after between⟩
  refine (readOwner copy).bind fun found now ⟨seen, between, same, after⟩ => ?_
  have here := locked.after between
  have locked := here.after after
  cases found with
  | none => exact done locked
  | some owner =>
    dsimp only
    split
    case isTrue => exact done locked
    case isFalse other =>
      refine (processExists owner.pid).bind fun lives now ⟨seen', between', alive, after'⟩ => ?_
      split
      case isFalse => exact done ((locked.after between').after after')
      case isTrue living =>
        have living := after.living _ (between'.living _ (alive.trans living))
        obtain ⟨holder, mine, has⟩ := here.sound.owned copy owner same living
        have only := (here.sound.coherent (.copy copy)).eq_of_exclusive here.has has
        obtain ⟨rfl, -⟩ := Handle.mk.inj only.1
        exact absurd mine.symm other

theorem isOwned {copy : Nat} (locked : Locked process agent mode copy store) :
    Calls process agent (fun owned later => owned = false ∧ Locked process agent mode copy later)
      (isOwned (process agent) copy) store := by
  refine (liveOwner locked).bind fun owner now ⟨none_, locked⟩ => fun later between => ?_
  rw [none_]
  exact ⟨rfl, locked.after between⟩

theorem writeOwner {copy : Nat} (locked : Locked process agent mode copy store) {owner : LockOwner}
    (own : owner.pid = process agent) :
    Calls process agent (fun _ => Holds process agent mode owner copy) (writeOwner copy owner)
      store := by
  intro first between
  have locked := locked.after between
  have emptied : Guarantees process agent first (first.setOwner copy none) := by
    refine Store.guarantees_setOwner locked.sound locked.has fun _ found => ?_
    contradiction
  refine ⟨emptied, fun second after => ?_⟩
  have locked : Locked process agent mode copy second :=
    Locked.after ⟨emptied.sound, locked.share, locked.has, locked.only⟩ after
  have filled : Guarantees process agent second (second.setOwner copy (some owner)) := by
    refine Store.guarantees_setOwner locked.sound locked.has fun _ same => ?_
    rw [← Option.mem_some.mp same]
    exact own
  refine ⟨filled, fun last final => Holds.after ⟨⟨filled.sound, locked.share, locked.has, locked.only⟩, ?_⟩ final⟩
  exact Store.owners_setOwner ..

/-- What `take` comes to. -/
def Taken (process : Processes) (agent : Nat) (owner : LockOwner) (alone : Bool)
    (result : Except Refusal Nat) (store : Store) : Prop :=
  match result with
  | .ok copy => Holds process agent (storeMode alone) owner copy store
  | .error refusal => Bare process agent store ∧
      (refusal = .lockUnavailable → ∀ copy ∈ copies, copy ∈ store.met agent)

theorem giveUp {owner : LockOwner} {alone : Bool} {passed : List Nat}
    (trying : Trying process agent mode passed store) {refusal : Refusal}
    (all : refusal = .lockUnavailable → ∀ copy ∈ copies, copy ∈ passed) :
    Calls process agent (Taken process agent owner alone) (giveUp agent refusal) store := by
  refine change_bind fun seen between => ?_
  have trying := trying.after between
  have given : Guarantees process agent seen (seen.unlock .store ⟨agent, .hold⟩) :=
    Store.guarantees_unlock trying.sound fun _ _ _ => nofun
  refine ⟨given, fun later after => ⟨Bare.after ⟨given.sound, fun copy mode has => ?_⟩ after, ?_⟩⟩
  · exact trying.bare copy mode (Store.mem_unlock.mp has).1
  · exact fun same copy listed => after.met (trying.passed copy (all same copy listed))

theorem takeCopy {owner : LockOwner} (own : owner.pid = process agent) {alone : Bool}
    {passed rest : List Nat} (all : passed ++ rest = copies)
    (trying : Trying process agent (storeMode alone) passed store) :
    Calls process agent (Taken process agent owner alone) (takeCopy true agent owner rest) store := by
  induction rest generalizing passed store with
  | nil =>
    refine giveUp trying fun _ copy listed => ?_
    rwa [← all, List.append_nil] at listed
  | cons copy rest ih =>
    refine takeLock_bind (fun seen later between locked given => ?_) fun seen between refused => ?_
    · have trying := trying.after between
      have locked : Locked process agent (storeMode alone) copy later := {
        sound := given.sound
        share := (Store.locks_lock locked).mpr (.inr trying.share)
        has := (Store.locks_lock locked).mpr (.inl ⟨rfl, rfl⟩)
        only := fun other mode apart has => by
          obtain ⟨same, -⟩ | has := (Store.locks_lock locked).mp has
          · exact apart (LockFile.copy.inj same)
          · exact trying.bare other mode has }
      rw [own]
      refine (isOwned locked).bind fun owned now ⟨free, locked⟩ => ?_
      rw [free]
      refine (writeOwner locked own).bind fun _ now holds => fun later between => ?_
      exact holds.after between
    · have trying := trying.after between
      have refused : LockTable.lock _ _ _ = none := Option.map_eq_none_iff.mp refused
      obtain ⟨entry, held⟩ := LockTable.ne_nil_of_lock_eq_none refused
      have other : entry.1 ≠ ⟨agent, .hold⟩ := fun same =>
        trying.bare copy entry.2 (show (_, _) ∈ _ from same ▸ held)
      have met := between.noted agent copy entry held other
      have trying : Trying process agent (storeMode alone) (passed ++ [copy]) seen := by
        refine ⟨trying.toBare, trying.share, fun earlier listed => ?_⟩
        obtain listed | same := List.mem_append.mp listed
        · exact trying.passed earlier listed
        · rw [List.mem_singleton.mp same]
          exact met
      exact ih (by simpa using all) trying

theorem refuse {owner : LockOwner} {alone : Bool} (bare : Bare process agent store) :
    Calls process agent (Taken process agent owner alone) (refuse alone) store := by
  unfold ProjectLock.refuse
  split
  · refine (of_leaves (holder_leaves _) Bare.sound Bare.after bare).bind fun found now bare => ?_
    refine fun later between => ⟨bare.after between, fun same => ?_⟩
    cases found <;> contradiction
  · exact fun later between => ⟨bare.after between, nofun⟩

theorem take {owner : LockOwner} (own : owner.pid = process agent) (alone : Bool)
    (bare : Bare process agent store) :
    Calls process agent (Taken process agent owner alone) (take true agent owner alone) store := by
  refine takeLock_bind (fun seen later between locked given => ?_) fun seen between refused => ?_
  · have bare := bare.after between
    have trying : Trying process agent (storeMode alone) [] later := {
      sound := given.sound
      share := (Store.locks_lock locked).mpr (.inl ⟨rfl, rfl⟩)
      bare := fun copy mode has => by
        obtain ⟨same, -⟩ | has := (Store.locks_lock locked).mp has
        · contradiction
        · exact bare.bare copy mode has
      passed := fun _ => nofun }
    cases alone with
    | false => exact takeCopy own (List.nil_append _) trying
    | true =>
      refine (of_leaves (active_leaves ..) (fun trying => trying.sound) Trying.after trying).bind
        fun found now trying => ?_
      cases found with
      | none => exact takeCopy own (List.nil_append _) trying
      | some owner => exact giveUp trying nofun
  · exact refuse (bare.after between)

theorem dropHeld {copy : Nat} (locked : Locked process agent mode copy store)
    (free : store.owners copy = none) :
    Calls process agent (fun _ => Bare process agent) (dropHeld agent copy) store := by
  refine change_bind fun first between => ?_
  have free := (between.owners copy locked.has).trans free
  have locked := locked.after between
  have given : Guarantees process agent first (first.unlock .store ⟨agent, .hold⟩) :=
    Store.guarantees_unlock locked.sound fun _ _ _ => nofun
  refine ⟨given, fun second after => ?_⟩
  have kept {other : Nat} {mode : Mode} :
      (first.unlock .store ⟨agent, .hold⟩).Has agent .hold (.copy other) mode ↔
        first.Has agent .hold (.copy other) mode :=
    Store.mem_unlock.trans (and_iff_left fun ⟨same, _⟩ => nomatch same)
  have free := (after.owners copy (kept.mpr locked.has)).trans free
  have given : Guarantees process agent second (second.unlock (.copy copy) ⟨agent, .hold⟩) := by
    refine Store.guarantees_unlock after.sound fun _ other owner same found => ?_
    obtain rfl := LockFile.copy.inj same
    exact absurd (found.symm.trans free) nofun
  refine ⟨given, fun third final => Bare.after ⟨given.sound, fun other mode has => ?_⟩ final⟩
  obtain ⟨has, apart⟩ := Store.mem_unlock.mp has
  refine locked.only other mode (fun same => apart ⟨congrArg _ same, rfl⟩) ?_
  exact kept.mp ((after.locks ..).mp has)

theorem release {owner : LockOwner} {copy : Nat} (holds : Holds process agent mode owner copy store) :
    Calls process agent (fun _ => Bare process agent) (release agent owner copy) store := by
  refine (readOwner copy).bind fun found now ⟨seen, between, same, after⟩ => ?_
  have here := holds.after between
  rw [← same, here.owner, if_pos rfl]
  have holds := here.after after
  refine change_bind fun later between => ?_
  have locked := (holds.after between).toLocked
  have removed : Guarantees process agent later (later.setOwner copy none) := by
    refine Store.guarantees_setOwner locked.sound locked.has fun _ found => ?_
    contradiction
  refine ⟨removed, dropHeld ⟨removed.sound, locked.share, locked.has, locked.only⟩ ?_⟩
  exact Store.owners_setOwner ..

theorem removeIdleCopies (idle : Nat → Bool) (copies : List Nat) (bare : Bare process agent store) :
    Calls process agent (fun _ => Bare process agent)
      (removeIdleCopies true agent (process agent) idle copies) store := by
  induction copies generalizing store with
  | nil => exact fun later between => bare.after between
  | cons copy copies ih =>
    unfold ProjectLock.removeIdleCopies
    split
    case isFalse => exact ih bare
    refine takeLock_bind (fun seen later between locked given => ?_) fun seen between refused => ?_
    · have bare := bare.after between
      have has : later.Has agent .idle (.copy copy) .exclusive :=
        (Store.locks_lock locked).mpr (.inl ⟨rfl, rfl⟩)
      have bare : Bare process agent later := ⟨given.sound, fun other mode held => by
        obtain ⟨-, same⟩ | held := (Store.locks_lock locked).mp held
        · exact absurd (congrArg (·.1.use) same) nofun
        · exact bare.bare other mode held⟩
      refine change_bind fun now between => ?_
      have bare := bare.after between
      have removed := Store.guarantees_removeCopy bare.sound ((between.locks ..).mpr has)
      refine ⟨removed, change_bind fun now after => ?_⟩
      have bare := Bare.after ⟨removed.sound, bare.bare⟩ after
      have given : Guarantees process agent now (now.unlock (.copy copy) ⟨agent, .idle⟩) :=
        Store.guarantees_unlock bare.sound nofun
      refine ⟨given, ih ⟨given.sound, fun other mode held => ?_⟩⟩
      exact bare.bare other mode (Store.mem_unlock.mp held).1
    · exact ih (bare.after between)

theorem recoverAbandonedRuns (idle : Nat → Bool) (bare : Bare process agent store) :
    Calls process agent (fun _ => Bare process agent)
      (recoverAbandonedRuns true agent (process agent) idle) store := by
  refine takeLock_bind (fun seen later between locked given => ?_) fun seen between refused => ?_
  · have bare := bare.after between
    have bare : Bare process agent later := ⟨given.sound, fun other mode held => by
      obtain ⟨same, -⟩ | held := (Store.locks_lock locked).mp held
      · contradiction
      · exact bare.bare other mode held⟩
    refine (removeIdleCopies idle idleCopies bare).bind fun _ now bare => fun later between => ?_
    have bare := bare.after between
    have given : Guarantees process agent later (later.unlock .recover ⟨agent, .recovery⟩) :=
      Store.guarantees_unlock bare.sound nofun
    refine ⟨given, fun last after => Bare.after ⟨given.sound, fun other mode held => ?_⟩ after⟩
    exact bare.bare other mode (Store.mem_unlock.mp held).1
  · exact fun later after => (bare.after between).after after

end Calls
end Supercov.ProjectLock
