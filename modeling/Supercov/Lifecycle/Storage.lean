import Supercov.Library.Ordered
import Supercov.Library.Outcome
import Supercov.Lifecycle.Publication
import Mathlib.Data.Prod.Lex

/-!
# Cleaning a project's storage

Cleaning lists the published runs, the work and the evidence directories, keeps the newest of the
runs that have ended, and moves the rest to the trash.
-/

namespace Supercov.Lifecycle

inductive LifecycleError where
  | io (path : String)
  | invalidRunId (id : String)
  | unsafePath (path : String)
  | invalidState (id : String)
  deriving DecidableEq

inductive Entry (Contents : Type) where
  | directory (contents : Contents)
  | file
  | link

/-- A directory of the store, which holds nothing where there is none. -/
@[ext]
structure Folder (Contents : Type) where
  linked : Bool
  entries : List (String × Entry Contents)
  distinct : (entries.map Prod.fst).Nodup

inductive StateFile where
  | absent
  | unreadable
  | holds (state : RunState)

structure PublishedRun where
  startedAt : Option String

inductive Container where
  | absent
  | owned
  | foreign
  deriving DecidableEq

/-- `containers` are the places the build's workspaces may have, in the order they are tried. -/
@[ext]
structure Storage where
  runs : Folder PublishedRun
  work : Folder StateFile
  evidence : Folder Unit
  failedEvidence : Folder Unit
  containers : Nat → Container
  cache : Bool
  trashLinked : Bool

structure CleanupOptions where
  keep : Nat
  dryRun : Bool

structure CleanupResult where
  removedRuns : List String
  removedWorkspaces : List String
  removedEvidence : List String
  removedFailedEvidence : List String
  removedBuildCache : Bool
  deriving DecidableEq

def isControl (c : Char) : Bool := c.toNat < 0x20 || 0x7f ≤ c.toNat && c.toNat < 0xa0

def validRunId (value : String) : Bool :=
  value ≠ "" && value ≠ "." && value ≠ ".." &&
    !value.toList.any fun c => c = '/' || c = '\\' || c = '\x00' || isControl c

section Listing

variable {Contents : Type}

def directories : List (String × Entry Contents) → Outcome LifecycleError (List String)
  | [] => .ok []
  | (name, .link) :: _ => .refused (.unsafePath name)
  | (_, .file) :: rest => directories rest
  | (name, .directory _) :: rest =>
    if validRunId name then do
      let others ← directories rest
      return name :: others
    else .refused (.invalidRunId name)

def childDirectories (folder : Folder Contents) : Outcome LifecycleError (List String) :=
  if folder.linked then .refused (.unsafePath "") else do
    let names ← directories folder.entries
    return names.insertionSort (· ≤ ·)

def Folder.without (folder : Folder Contents) (names : List String) : Folder Contents where
  linked := folder.linked
  entries := folder.entries.filter fun entry => entry.1 ∉ names
  distinct := (List.filter_sublist.map Prod.fst).nodup folder.distinct

end Listing

namespace Storage

variable (storage : Storage)

/-- The state beside the work of a run; what is no directory has no file to be read in it. -/
def readState (id : String) : Outcome LifecycleError (Option RunState) :=
  match storage.work.entries.lookup id with
  | none => .ok none
  | some (.directory .absent) => .ok none
  | some (.directory .unreadable) => .refused (.invalidState id)
  | some (.directory (.holds state)) => .ok (some state)
  | some .file => .refused (.io id)
  | some .link => .refused (.io id)

def publishedStartedAt (id : String) : String :=
  match storage.runs.entries.lookup id with
  | some (.directory run) => run.startedAt.getD ""
  | _ => ""

def removeWork (id : String) : Storage := { storage with work := storage.work.without [id] }

def removeEvidence (id : String) : Storage :=
  { storage with evidence := storage.evidence.without [id] }

def removeRun (id : String) : Storage := { storage with runs := storage.runs.without [id] }

def removeFailedEvidence (id : String) : Storage :=
  { storage with failedEvidence := storage.failedEvidence.without [id] }

/-- The first place that is free or owned; the last of them where there is none. -/
def workspaceContainer : Nat :=
  ((List.range 1025).find? fun place => storage.containers place ≠ .foreign).getD 1025

def removeContainer (place : Nat) : Storage :=
  { storage with
    containers := fun other => if other = place then .absent else storage.containers other }

/-- Moved to the trash, unless nothing is to be changed; a trash that is a link is refused. -/
def removeStoredTree (remove : Storage → Storage) (dryRun : Bool) :
    Outcome LifecycleError Storage :=
  if dryRun then .ok storage
  else if storage.trashLinked then .refused (.unsafePath ".trash")
  else .ok (remove storage)

end Storage

/-- The runs whose state says that they have not ended. -/
def activeIds (storage : Storage) : List String → Outcome LifecycleError (List String)
  | [] => .ok []
  | id :: ids => do
    let state ← storage.readState id
    let others ← activeIds storage ids
    return if state.any fun state => !state.status.terminal then id :: others else others

/-- The newest of the runs that have ended: by start, and by id where they started at once. -/
def retainedIds (storage : Storage) (published active : List String) (keep : Nat) : List String :=
  let ended := published.filter fun id => id ∉ active
  let order := (ended.map fun id => toLex (storage.publishedStartedAt id, id)).insertionSort (· ≥ ·)
  (order.take keep).map fun entry => (ofLex entry).2

structure Standing where
  published : List String
  work : List String
  evidence : List String
  active : List String
  retained : List String

def Standing.removesHistory (standing : Standing) (id : String) : Bool :=
  id ∈ standing.published && id ∉ standing.retained

def Standing.removesEvidence (standing : Standing) (id : String) : Bool :=
  id ∈ standing.evidence && (id ∉ standing.published || standing.removesHistory id)

abbrev Cleaning := CleanupResult × Storage

def removeWhere (condition : Bool) (remove : Storage → Storage)
    (tell : CleanupResult → CleanupResult) (dryRun : Bool) (cleaning : Cleaning) :
    Outcome LifecycleError Cleaning :=
  if condition then do
    let storage ← cleaning.2.removeStoredTree remove dryRun
    return (tell cleaning.1, storage)
  else .ok cleaning

def CleanupResult.tellWork (result : CleanupResult) (id : String) : CleanupResult :=
  { result with removedWorkspaces := result.removedWorkspaces ++ [id] }

def CleanupResult.tellEvidence (result : CleanupResult) (id : String) : CleanupResult :=
  { result with removedEvidence := result.removedEvidence ++ [id] }

def CleanupResult.tellRun (result : CleanupResult) (id : String) : CleanupResult :=
  { result with removedRuns := result.removedRuns ++ [id] }

def CleanupResult.tellFailedEvidence (result : CleanupResult) (id : String) : CleanupResult :=
  { result with removedFailedEvidence := result.removedFailedEvidence ++ [id] }

def cleanId (standing : Standing) (dryRun : Bool) (cleaning : Cleaning) (id : String) :
    Outcome LifecycleError Cleaning :=
  if id ∈ standing.active then .ok cleaning else do
  let cleaning ←
    removeWhere (id ∈ standing.work) (·.removeWork id) (·.tellWork id) dryRun cleaning
  let cleaning ← removeWhere (standing.removesEvidence id) (·.removeEvidence id)
    (·.tellEvidence id) dryRun cleaning
  removeWhere (standing.removesHistory id) (·.removeRun id) (·.tellRun id) dryRun cleaning

def noneRemoved : CleanupResult := ⟨[], [], [], [], false⟩

def Standing.ids (standing : Standing) : List String :=
  (Ordered.setOf (standing.published ++ standing.work ++ standing.evidence)).reverse

def standingOf (storage : Storage) (keep : Nat) : Outcome LifecycleError Standing := do
  let published ← childDirectories storage.runs
  let work ← childDirectories storage.work
  let evidence ← childDirectories storage.evidence
  let listed : Standing := ⟨published, work, evidence, [], []⟩
  let active ← activeIds storage listed.ids
  return { listed with active, retained := retainedIds storage published active keep }

def cleanRuns (storage : Storage) (options : CleanupOptions) :
    Outcome LifecycleError (List String × Cleaning) := do
  let standing ← standingOf storage options.keep
  let cleaned ← standing.ids.foldlM (cleanId standing options.dryRun) (noneRemoved, storage)
  return (standing.active, cleaned)

/-- What is kept of failed runs goes where nothing is to be kept at all. -/
def cleanFailed (dryRun : Bool) (cleaning : Cleaning) : Outcome LifecycleError Cleaning := do
  let failed ← childDirectories cleaning.2.failedEvidence
  failed.foldlM (fun cleaning id => removeWhere true (·.removeFailedEvidence id)
    (·.tellFailedEvidence id) dryRun cleaning) cleaning

/-- What the build keeps, and what runs keep between them. -/
def cleanCaches (dryRun : Bool) (cleaning : Cleaning) : Outcome LifecycleError Cleaning := do
  let place := cleaning.2.workspaceContainer
  let container : Bool := cleaning.2.containers place = .owned
  let shared := cleaning.2.cache
  let cleaning := ({ cleaning.1 with removedBuildCache := container || shared }, cleaning.2)
  let cleaning ← removeWhere container (·.removeContainer place) id dryRun cleaning
  removeWhere shared (fun storage => { storage with cache := false }) id dryRun cleaning

def cleanKept (options : CleanupOptions) (removeBuildCache : Bool) (active : List String)
    (cleaning : Cleaning) : Outcome LifecycleError Cleaning :=
  (if removeBuildCache ∧ options.keep = 0 ∧ active = [] then cleanFailed options.dryRun cleaning
    else .ok cleaning) >>= fun cleaning =>
  if removeBuildCache ∧ active = [] then cleanCaches options.dryRun cleaning else .ok cleaning

/-- The storage that is left, also where cleaning is refused on the way. -/
def cleanupStorageLocked (storage : Storage) (options : CleanupOptions) (removeBuildCache : Bool) :
    Outcome LifecycleError CleanupResult × Storage :=
  match cleanRuns storage options with
  | .refused error => (.refused error, storage)
  | .crashed => (.crashed, storage)
  | .ok (active, cleaning) =>
    match cleanKept options removeBuildCache active cleaning with
    | .refused error => (.refused error, cleaning.2)
    | .crashed => (.crashed, cleaning.2)
    | .ok (result, storage) => (.ok result, storage)

end Supercov.Lifecycle
