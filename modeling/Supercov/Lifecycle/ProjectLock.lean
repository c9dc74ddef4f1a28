import Mathlib.Data.Set.Insert
import Supercov.Library.Interleaved
import Supercov.Library.LockTable

/-!
# A run's hold on a project

A run takes a share of the store and a copy of the project; cleaning takes the whole store.
Each is a lock of the operating system where the file system keeps locks; where it keeps
none, the owner written beside a copy's lock decides.  Each step of a program is one
operation on the files, their locks or the processes; operations that fail are left out.

An owner is written beside a copy's lock, and removed again, while the lock is had; so a
live owner always has it.  What an agent has, no other takes from it.
-/

namespace Supercov.ProjectLock

open Interleaved
open LockTable (Mode)

structure LockOwner where
  runId : String
  pid : Nat
  startedAt : String
  deriving DecidableEq

def mostCopies : Nat := 64

def copies : List Nat := List.range' 1 mostCopies

def idleCopies : List Nat := List.range' 2 (mostCopies - 1)

inductive LockFile where
  | store
  | recover
  | copy (number : Nat)
  deriving DecidableEq

/-- What an agent opens a lock file for. -/
inductive Use where
  | hold
  | recovery
  | idle
  deriving DecidableEq

/-- An open lock file: of one agent, which is a thread of a process, at most one for each use. -/
structure Handle where
  agent : Nat
  use : Use
  deriving DecidableEq

/-- The store's lock files and what is written beside them, the processes, and which copies
there are.  Nothing reads `met`: it has, for each agent, the copies whose lock another handle
had at some moment since the agent's call began. -/
structure Store where
  locks : LockFile → List (Handle × Mode)
  owners : Nat → Option LockOwner
  living : Nat → Bool
  present : Nat → Bool
  met : Nat → Set Nat

namespace Store

def lock (file : LockFile) (handle : Handle) (mode : Mode) (store : Store) : Option Store :=
  (LockTable.lock handle mode (store.locks file)).map fun table =>
    { store with locks := Function.update store.locks file table }

def unlock (file : LockFile) (handle : Handle) (store : Store) : Store :=
  { store with
    locks := Function.update store.locks file ((store.locks file).filter (·.1 ≠ handle)) }

def setOwner (copy : Nat) (owner : Option LockOwner) (store : Store) : Store :=
  { store with owners := Function.update store.owners copy owner }

def removeCopy (copy : Nat) (store : Store) : Store :=
  { store with present := Function.update store.present copy false }

@[simp]
theorem owners_setOwner (copy : Nat) (owner : Option LockOwner) (store : Store) :
    (store.setOwner copy owner).owners copy = owner :=
  Function.update_self ..

theorem owners_setOwner_of_ne {copy other : Nat} (apart : other ≠ copy) (owner : Option LockOwner)
    (store : Store) : (store.setOwner copy owner).owners other = store.owners other :=
  Function.update_of_ne apart ..

end Store

abbrev Task (Result : Type) := Program Store Result

/-- Why a hold is refused. -/
inductive Refusal where
  | activeRun (runId : String) (pid : Nat)
  | startingRun
  | cleaning
  | lockUnavailable
  deriving DecidableEq

section Programs

variable (keepsLocks : Bool)

def readOwner (copy : Nat) : Task (Option LockOwner) :=
  observe >>= fun store => .done (store.owners copy)

def processExists (pid : Nat) : Task Bool :=
  observe >>= fun store => .done (store.living pid)

/-- A file's lock, taken if no other handle has it; `alive` decides where none are kept. -/
def takeLock (file : LockFile) (handle : Handle) (mode : Mode) (alive : Task Bool) : Task Bool :=
  if keepsLocks then
    attempt (Store.lock file handle mode)
  else
    alive >>= fun alive => .done !alive

/-- The owner of a copy whose process is still there and is not this one. -/
def liveOwner (process copy : Nat) : Task (Option LockOwner) := do
  match ← readOwner copy with
  | none => .done none
  | some owner =>
    if owner.pid = process then
      .done none
    else if ← processExists owner.pid then
      .done (some owner)
    else
      .done none

def isOwned (process copy : Nat) : Task Bool :=
  liveOwner process copy >>= fun owner => .done owner.isSome

def active (process : Nat) : List Nat → Task (Option LockOwner)
  | [] => .done none
  | copy :: copies => do
    match ← liveOwner process copy with
    | some owner => .done (some owner)
    | none => active process copies

def holder : List Nat → Task (Option LockOwner)
  | [] => .done none
  | copy :: copies => do
    match ← readOwner copy with
    | none => holder copies
    | some owner => if ← processExists owner.pid then .done (some owner) else holder copies

/-- The share of the store, or the whole of it, is given back with the refusal. -/
def giveUp (agent : Nat) (refusal : Refusal) : Task (Except Refusal Nat) := do
  change (Store.unlock .store ⟨agent, .hold⟩)
  .done (.error refusal)

/-- `fs::write` empties the file before it fills it. -/
def writeOwner (copy : Nat) (owner : LockOwner) : Task PUnit := do
  change (Store.setOwner copy none)
  change (Store.setOwner copy (some owner))

def takeCopy (agent : Nat) (owner : LockOwner) : List Nat → Task (Except Refusal Nat)
  | [] => giveUp agent .lockUnavailable
  | copy :: copies => do
    if ← takeLock keepsLocks (.copy copy) ⟨agent, .hold⟩ .exclusive (isOwned owner.pid copy) then
      if ← isOwned owner.pid copy then
        change (Store.unlock (.copy copy) ⟨agent, .hold⟩)
        takeCopy agent owner copies
      else
        writeOwner copy owner
        .done (.ok copy)
    else
      takeCopy agent owner copies

def refuse (alone : Bool) : Task (Except Refusal Nat) :=
  if alone then
    holder copies >>= fun owner => .done (.error
      (match owner with
      | none => .startingRun
      | some owner => .activeRun owner.runId owner.pid))
  else
    .done (.error .cleaning)

def storeMode (alone : Bool) : Mode := if alone then .exclusive else .shared

/-- `acquire`, or `acquire_alone`: the copy the hold has. -/
def take (agent : Nat) (owner : LockOwner) (alone : Bool) : Task (Except Refusal Nat) := do
  let alive : Task Bool :=
    if alone then active owner.pid copies >>= fun owner => .done owner.isSome else .done false
  if ← takeLock keepsLocks .store ⟨agent, .hold⟩ (storeMode alone) alive then
    if alone then
      match ← active owner.pid copies with
      | some owner => giveUp agent (.activeRun owner.runId owner.pid)
      | none => takeCopy keepsLocks agent owner copies
    else
      takeCopy keepsLocks agent owner copies
  else
    refuse alone

def dropHeld (agent copy : Nat) : Task PUnit := do
  change (Store.unlock .store ⟨agent, .hold⟩)
  change (Store.unlock (.copy copy) ⟨agent, .hold⟩)

def release (agent : Nat) (owner : LockOwner) (copy : Nat) : Task PUnit := do
  let found ← readOwner copy
  if found = some owner then
    change (Store.setOwner copy none)
    dropHeld agent copy
  else
    dropHeld agent copy

/-- Removes those of the copies that nobody used for a day and no run holds. -/
def removeIdleCopies (agent process : Nat) (idle : Nat → Bool) : List Nat → Task PUnit
  | [] => .done ⟨⟩
  | copy :: copies =>
    if idle copy then do
      if ← takeLock keepsLocks (.copy copy) ⟨agent, .idle⟩ .exclusive (isOwned process copy) then
        change (Store.removeCopy copy)
        change (Store.unlock (.copy copy) ⟨agent, .idle⟩)
        removeIdleCopies agent process idle copies
      else
        removeIdleCopies agent process idle copies
    else
      removeIdleCopies agent process idle copies

/-- What a recovery pass does with the copies, if no other pass is under way. -/
def recoverAbandonedRuns (agent process : Nat) (idle : Nat → Bool) : Task PUnit := do
  if ← takeLock keepsLocks .recover ⟨agent, .recovery⟩ .exclusive (.done false) then
    removeIdleCopies keepsLocks agent process idle idleCopies
    change (Store.unlock .recover ⟨agent, .recovery⟩)
  else
    .done ⟨⟩

end Programs

open Interleaved
open LockTable (Mode Coherent)

abbrev Processes := Nat → Nat

def Store.Has (store : Store) (agent : Nat) (use : Use) (file : LockFile) (mode : Mode) : Prop :=
  (⟨agent, use⟩, mode) ∈ store.locks file

/-- Each lock is had as its kind says, and a live owner has its copy's. -/
structure Sound (process : Processes) (store : Store) : Prop where
  coherent : ∀ file, Coherent (store.locks file)
  owned : ∀ copy owner, store.owners copy = some owner → store.living owner.pid →
    ∃ agent, process agent = owner.pid ∧ store.Has agent .hold (.copy copy) .exclusive

/-- What other handles have now, `met` has. -/
def Noted (store : Store) : Prop :=
  ∀ agent copy entry, entry ∈ store.locks (.copy copy) → entry.1 ≠ ⟨agent, .hold⟩ →
    copy ∈ store.met agent

/-- What an agent relies on between two of its steps. -/
structure Relies (process : Processes) (agent : Nat) (store later : Store) : Prop where
  sound : Sound process later
  noted : Noted later
  living : ∀ pid, later.living pid → store.living pid
  locks : ∀ use file mode, later.Has agent use file mode ↔ store.Has agent use file mode
  owners : ∀ copy, store.Has agent .hold (.copy copy) .exclusive →
    later.owners copy = store.owners copy
  met : store.met agent ⊆ later.met agent

/-- What one step of an agent does. -/
structure Guarantees (process : Processes) (agent : Nat) (store later : Store) : Prop where
  sound : Sound process later
  living : later.living = store.living
  met : later.met = store.met
  locks : ∀ handle : Handle, handle.agent ≠ agent → ∀ file mode,
    (handle, mode) ∈ later.locks file ↔ (handle, mode) ∈ store.locks file
  owners : ∀ copy, later.owners copy ≠ store.owners copy →
    store.Has agent .hold (.copy copy) .exclusive
  present : ∀ copy, later.present copy ≠ store.present copy →
    store.Has agent .idle (.copy copy) .exclusive

namespace Relies

variable {process : Processes} {agent : Nat} {first second third : Store}

theorem trans (between : Relies process agent first second)
    (after : Relies process agent second third) : Relies process agent first third where
  sound := after.sound
  noted := after.noted
  living pid lives := between.living pid (after.living pid lives)
  locks use file mode := (after.locks use file mode).trans (between.locks use file mode)
  owners copy has :=
    (after.owners copy ((between.locks ..).mpr has)).trans (between.owners copy has)
  met := between.met.trans after.met

theorem refl {store : Store} (sound : Sound process store) (noted : Noted store) :
    Relies process agent store store where
  sound := sound
  noted := noted
  living _ lives := lives
  locks _ _ _ := .rfl
  owners _ _ := rfl
  met := subset_rfl

theorem settled (between : Relies process agent first second) :
    Relies process agent second second :=
  .refl between.sound between.noted

end Relies

namespace Guarantees

variable {process : Processes} {agent : Nat} {store later : Store}

theorem refl (sound : Sound process store) : Guarantees process agent store store where
  sound := sound
  living := rfl
  met := rfl
  locks _ _ _ _ := .rfl
  owners _ changed := absurd rfl changed
  present _ changed := absurd rfl changed

end Guarantees

namespace Store

variable {process : Processes} {agent : Nat} {store later : Store}

theorem locks_lock {file other : LockFile} {handle : Handle} {mode : Mode}
    (locked : store.lock file handle mode = some later) {entry : Handle × Mode} :
    entry ∈ later.locks other ↔
      (other = file ∧ entry = (handle, mode)) ∨ entry ∈ store.locks other := by
  obtain ⟨table, given, rfl⟩ := Option.map_eq_some_iff.mp locked
  by_cases same : other = file
  · subst same
    simp [LockTable.mem_lock given]
  · simp [same]

theorem mem_unlock {file other : LockFile} {handle : Handle} {entry : Handle × Mode} :
    entry ∈ (store.unlock file handle).locks other ↔
      entry ∈ store.locks other ∧ ¬ (other = file ∧ entry.1 = handle) := by
  by_cases same : other = file
  · subst same
    simp [unlock]
  · simp [unlock, same]

theorem guarantees_lock (sound : Sound process store) {file : LockFile} {use : Use} {mode : Mode}
    (locked : store.lock file ⟨agent, use⟩ mode = some later) :
    Guarantees process agent store later := by
  have entries := @locks_lock store later file
  obtain ⟨table, given, rfl⟩ := Option.map_eq_some_iff.mp locked
  exact {
    sound := {
      coherent := fun other => by
        by_cases same : other = file
        · subst same
          simpa using (sound.coherent other).lock given
        · simpa [Function.update_of_ne same] using sound.coherent other
      owned := fun copy owner found lives => by
        obtain ⟨holder, same, has⟩ := sound.owned copy owner found lives
        exact ⟨holder, same, (entries locked).mpr (.inr has)⟩ }
    living := rfl
    met := rfl
    locks := fun handle other file' mode' => by
      refine (entries locked).trans (or_iff_right ?_)
      rintro ⟨-, same⟩
      exact other (congrArg (·.1.agent) same)
    owners := fun _ changed => absurd rfl changed
    present := fun _ changed => absurd rfl changed }

theorem guarantees_unlock (sound : Sound process store) {file : LockFile} {use : Use}
    (unowned : use = .hold → ∀ copy owner, file = .copy copy → store.owners copy ≠ some owner) :
    Guarantees process agent store (store.unlock file ⟨agent, use⟩) where
  sound := {
    coherent := fun other => by
      by_cases same : other = file
      · subst same
        simpa [unlock] using (sound.coherent other).filter _
      · simpa [unlock, Function.update_of_ne same] using sound.coherent other
    owned := fun copy owner found lives => by
      obtain ⟨holder, same, has⟩ := sound.owned copy owner found lives
      refine ⟨holder, same, mem_unlock.mpr ⟨has, ?_⟩⟩
      rintro ⟨rfl, same⟩
      obtain ⟨-, rfl⟩ := Handle.mk.inj same
      exact unowned rfl copy owner rfl found }
  living := rfl
  met := rfl
  locks handle other file' mode := by
    refine mem_unlock.trans (and_iff_left ?_)
    rintro ⟨-, same⟩
    exact other (congrArg Handle.agent same)
  owners _ changed := absurd rfl changed
  present _ changed := absurd rfl changed

theorem guarantees_setOwner (sound : Sound process store) {copy : Nat} {owner : Option LockOwner}
    (has : store.Has agent .hold (.copy copy) .exclusive)
    (own : ∀ owner' ∈ owner, owner'.pid = process agent) :
    Guarantees process agent store (store.setOwner copy owner) where
  sound := {
    coherent := sound.coherent
    owned := fun other owner' found lives => by
      by_cases same : other = copy
      · subst same
        rw [owners_setOwner] at found
        exact ⟨agent, (own owner' found).symm, has⟩
      · rw [owners_setOwner_of_ne same] at found
        exact sound.owned other owner' found lives }
  living := rfl
  met := rfl
  locks _ _ _ _ := .rfl
  owners other changed := by
    by_cases same : other = copy
    · exact same ▸ has
    · exact absurd (owners_setOwner_of_ne same ..) changed
  present _ changed := absurd rfl changed

theorem guarantees_removeCopy (sound : Sound process store) {copy : Nat}
    (has : store.Has agent .idle (.copy copy) .exclusive) :
    Guarantees process agent store (store.removeCopy copy) where
  sound := ⟨sound.coherent, sound.owned⟩
  living := rfl
  met := rfl
  locks _ _ _ _ := .rfl
  owners _ changed := absurd rfl changed
  present other changed := by
    by_cases same : other = copy
    · exact same ▸ has
    · exact absurd (Function.update_of_ne same ..) changed

end Store
end Supercov.ProjectLock
