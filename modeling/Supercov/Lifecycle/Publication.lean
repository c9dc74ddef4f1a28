import Mathlib.Data.Finset.Basic
import Supercov.Library.Interleaved

/-!
# How a run is published, and what recovery does with one that died

A run stages its directory below its work directory and renames it to `runs/<id>`.  What
it leaves behind it is removed by itself, or by a recovery pass of a later run.  Each step
of a program here is one operation on the file system; what publication derives from the
evidence is left out, and so are operations that fail.
-/

namespace Supercov.Lifecycle

open Interleaved

inductive RunStateStatus where
  | preparing
  | building
  | testing
  | publishing
  | complete
  | failed
  | interrupted
  | abandoned
  deriving DecidableEq

def RunStateStatus.terminal : RunStateStatus → Bool
  | complete | failed | interrupted | abandoned => true
  | preparing | building | testing | publishing => false

structure RunState where
  id : String
  pid : Nat
  root : String
  workspace : String
  startedAt : String
  updatedAt : String
  status : RunStateStatus
  signal : Option String
  error : Option String

structure RunMetadata where
  id : String
  compressedBytes : Nat

/-- A file that `atomic_write` writes, with what is to take its place beside it. -/
structure Written (Value : Type) where
  file : Option Value := none
  temporary : Option Value := none

namespace Written

variable {Value : Type}

def prepare (value : Value) (written : Written Value) : Written Value :=
  { written with temporary := some value }

def replace (written : Written Value) : Written Value :=
  match written.temporary with
  | some value => { file := some value }
  | none => written

end Written

/-- `runs/<id>`, also while it is staged. -/
structure RunDirectory where
  evidence : Option (List UInt8) := none
  metadata : Written RunMetadata := {}

/-- `work/<id>`: the state, the run's workspace and `run-publication`. -/
structure Work where
  state : Written RunState := {}
  workspace : Bool := false
  staging : Option RunDirectory := none

/-- What the store has of one run: `work/<id>`, `evidence/<id>` and `runs/<id>`. -/
structure Directories where
  work : Option Work := none
  evidence : Bool := false
  run : Option RunDirectory := none

namespace Directories

def state (files : Directories) : Option RunState := files.work.bind (·.state.file)

def staging (files : Directories) : Option RunDirectory := files.work.bind (·.staging)

/-- Changes what is below `work/<id>`, where there is one. -/
def inWork (change : Work → Work) (files : Directories) : Directories :=
  { files with work := files.work.map change }

/-- `create_dir_all` of the staging, and of the work directory it is in. -/
def createStaging (files : Directories) : Directories :=
  let work := files.work.getD {}
  { files with work := some { work with staging := some (work.staging.getD {}) } }

def inStaging (change : RunDirectory → RunDirectory) : Directories → Directories :=
  inWork fun work => { work with staging := work.staging.map change }

def removeStaging : Directories → Directories := inWork fun work => { work with staging := none }

def removeWorkspace : Directories → Directories :=
  inWork fun work => { work with workspace := false }

def removeEvidence (files : Directories) : Directories := { files with evidence := false }

def removeWork (files : Directories) : Directories := { files with work := none }

/-- The staging becomes the run's directory at once, where there is none yet. -/
def rename (files : Directories) : Option Directories :=
  match files.staging, files.run with
  | some staging, none => some { files.removeStaging with run := some staging }
  | _, _ => none

end Directories

/-- The store, and the processes that live. -/
structure World where
  directories : String → Directories
  living : Finset Nat

namespace World

def within (id : String) (change : Directories → Directories) (world : World) : World :=
  { world with directories := Function.update world.directories id (change (world.directories id)) }

def withinSome (id : String) (change : Directories → Option Directories) (world : World) :
    Option World :=
  (change (world.directories id)).map fun files => world.within id fun _ => files

@[simp]
theorem directories_within (id : String) (change : Directories → Directories) (world : World) :
    (world.within id change).directories id = change (world.directories id) :=
  Function.update_self ..

theorem directories_within_of_ne {id other : String} (apart : id ≠ other)
    (change : Directories → Directories) (world : World) :
    (world.within other change).directories id = world.directories id :=
  Function.update_of_ne apart ..

end World

abbrev Task (Result : Type) := Program World Result

/-- What one run hands its publication: the evidence as it was hashed and, piece by piece, as
it was copied, whether what is archived beside it is accepted and what is derived from it
written, and the status the frontend records at the end, where it records any. -/
structure Publication where
  metadata : RunMetadata
  hashed : List UInt8
  pieces : List (List UInt8)
  inputs : Bool
  prepared : Bool
  status : Option RunStateStatus

def Publication.id (publication : Publication) : String := publication.metadata.id

section Programs

variable (sha256 : List UInt8 → List UInt8)

def alter (id : String) (files : Directories → Directories) : Task PUnit :=
  change (World.within id files)

def look (id : String) : Task Directories :=
  observe >>= fun world => .done (world.directories id)

def atomicWrite {Value : Type} (id : String)
    (file : (Written Value → Written Value) → Directories → Directories) (value : Value) :
    Task PUnit := do
  alter id (file (.prepare value))
  alter id (file .replace)

def copyPieces (id : String) : List (List UInt8) → Task PUnit
  | [] => .done ⟨⟩
  | piece :: pieces => do
    alter id (.inStaging fun staging =>
      { staging with evidence := staging.evidence.map (· ++ piece) })
    copyPieces id pieces

/-- The copy is made empty and filled piece by piece; a clone is one piece. -/
def copyRegularFile (id : String) (pieces : List (List UInt8)) : Task PUnit := do
  alter id (.inStaging fun staging => { staging with evidence := some [] })
  copyPieces id pieces

def clearStaging (id : String) : Task Bool := do
  alter id .removeStaging
  .done false

def sameEvidence (publication : Publication) (files : Directories) : Bool :=
  (files.staging.bind (·.evidence)).map sha256 = some (sha256 publication.hashed)

/-- What is done once the copy is the evidence. -/
def publishStaged (publication : Publication) : Task Bool := do
  atomicWrite publication.id
    (fun change => .inStaging fun staging => { staging with metadata := change staging.metadata })
    publication.metadata
  if publication.inputs && publication.prepared then
    attempt (World.withinSome publication.id Directories.rename)
  else
    clearStaging publication.id

def stageRun (publication : Publication) : Task Bool := do
  alter publication.id .createStaging
  copyRegularFile publication.id publication.pieces
  if publication.pieces.flatten.length = publication.metadata.compressedBytes then
    let files ← look publication.id
    if sameEvidence sha256 publication files then
      publishStaged publication
    else
      clearStaging publication.id
  else
    clearStaging publication.id

/-- `publish_run`: whether the run was published. -/
def publishRun (publication : Publication) : Task Bool := do
  let files ← look publication.id
  if files.run.isSome then
    .done false
  else
    let files ← look publication.id
    if files.staging.isSome then
      alter publication.id .removeStaging
      stageRun sha256 publication
    else
      stageRun sha256 publication

/-- False where the run has no state to update. -/
def updateRunState (id : String) (status : RunStateStatus) (updatedAt : String)
    (error : Option String) : Task Bool := do
  let files ← look id
  match files.state with
  | none => .done false
  | some state =>
    atomicWrite id (fun change => .inWork fun work => { work with state := change work.state })
      { state with status, updatedAt, error }
    .done true

def publishedRun (id : String) : Task Bool := do
  let files ← look id
  if files.run.bind (·.metadata.file) |>.any (·.id = id) then
    let files ← look id
    .done (files.run.bind (·.evidence)).isSome
  else
    .done false

def finalizePublishedRun (id : String) : Task Bool := do
  if ← publishedRun id then
    alter id .removeEvidence
    alter id .removeWork
    .done true
  else
    .done false

def dropRun (id startedAt : String) : Task PUnit := do
  let _ ← updateRunState id .failed startedAt (some "the run stopped before it finished")
  .done ⟨⟩

/-- The end of a run: it is published, its status is recorded where the frontend records one,
and what it leaves is removed. -/
def endRun (publication : Publication) (startedAt : String) : Task PUnit :=
  match publication.status with
  | none => do
    if ← publishRun sha256 publication then
      let _ ← finalizePublishedRun publication.id
      .done ⟨⟩
    else
      .done ⟨⟩
  | some status => do
    if ← updateRunState publication.id .publishing startedAt none then
      if ← publishRun sha256 publication then
        if ← updateRunState publication.id status startedAt none then
          let _ ← finalizePublishedRun publication.id
          .done ⟨⟩
        else
          dropRun publication.id startedAt
      else
        dropRun publication.id startedAt
    else
      dropRun publication.id startedAt

def abandonRun (id updatedAt : String) (pid : Nat) : Task Bool := do
  alter id .removeEvidence
  if ← updateRunState id .abandoned updatedAt
      (some s!"Recovered after process {pid} exited without cleanup") then
    alter id .removeWork
    .done true
  else
    .done false

/-- What recovery does with a run whose process is dead. -/
def removeRun (id updatedAt : String) (pid : Nat) : Task Bool := do
  alter id .removeWorkspace
  alter id .removeStaging
  if ← finalizePublishedRun id then .done true else abandonRun id updatedAt pid

/-- What recovery does with one run it finds below `work`; false where it fails. -/
def recoverRun (id updatedAt : String) : Task Bool := do
  let files ← look id
  match files.state with
  | none => .done true
  | some state =>
    if state.status.terminal then
      let _ ← finalizePublishedRun id
      .done true
    else
      let world ← observe
      if state.pid ∈ world.living then
        .done true
      else
        removeRun id updatedAt state.pid

def recoverRuns (updatedAt : String) : List String → Task Bool
  | [] => .done true
  | id :: ids => do
    if ← recoverRun id updatedAt then recoverRuns updatedAt ids else .done false

/-- A pass over the runs that have a work directory, of the runs `ids` of the store. -/
def recoverAbandonedRuns (ids : List String) (updatedAt : String) : Task Bool := do
  let world ← observe
  recoverRuns updatedAt (ids.filter fun id => (world.directories id).work.isSome)

end Programs

end Supercov.Lifecycle
