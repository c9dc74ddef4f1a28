import Mathlib.Tactic.Common
import Supercov.Lifecycle.Publication

/-!
# What a run and a recovery pass leave each other

A pass touches what a living run has only once the run is published and its state is
terminal; then both only remove.  Until the process is dead the pass keeps off everything
else, and a run without a state it leaves alone for good.
-/

namespace Supercov.Lifecycle

open Interleaved

namespace Directories

def Terminal (files : Directories) : Prop := ∃ state ∈ files.state, state.status.terminal

/-- `published_run` finds the run. -/
def Published (id : String) (files : Directories) : Prop :=
  ∃ directory ∈ files.run, (∃ metadata ∈ directory.metadata.file, metadata.id = id) ∧
    directory.evidence.isSome

def Gone (files : Directories) : Prop := files.work = none ∧ files.evidence = false

/-- The run is published, and what it left is only to be removed. -/
def Settled (id : String) (files : Directories) : Prop :=
  files.Published id ∧ (files.Terminal ∨ files.Gone)

/-- What a pass keeps off while the run's process lives. -/
def Quiet (id : String) (files : Directories) : Prop := ¬ (files.Terminal ∧ files.Published id)

def Owned (pid : Nat) (files : Directories) : Prop := ∀ state ∈ files.state, state.pid = pid

variable {id : String} {files later : Directories}

theorem Gone.state_eq (gone : files.Gone) : files.state = none := by
  rw [state, gone.1]
  rfl

theorem Gone.not_terminal (gone : files.Gone) : ¬ files.Terminal := by
  rintro ⟨state, found, -⟩
  rw [gone.state_eq] at found
  contradiction

theorem Terminal.of_state (same : later.state = files.state) (terminal : files.Terminal) :
    later.Terminal := by
  unfold Terminal at *
  rwa [same]

theorem Owned.of_state {pid : Nat} (same : later.state = files.state) (owned : files.Owned pid) :
    later.Owned pid := by
  unfold Owned at *
  rwa [same]

theorem Published.of_run (same : later.run = files.run) (published : files.Published id) :
    later.Published id := by
  unfold Published at *
  rwa [same]

theorem Published.run_ne_none (published : files.Published id) : files.run ≠ none := by
  obtain ⟨directory, found, -⟩ := published
  rw [Option.mem_def.mp found]
  exact Option.some_ne_none directory

theorem Settled.gone (settled : files.Settled id) (quiet : files.Quiet id) : files.Gone :=
  settled.2.resolve_left fun terminal => quiet ⟨terminal, settled.1⟩

end Directories

structure Complete (sha256 : List UInt8 → List UInt8) (publication : Publication)
    (directory : RunDirectory) : Prop where
  metadata : directory.metadata.file = some publication.metadata
  evidence : ∃ evidence, directory.evidence = some evidence ∧
    evidence.length = publication.metadata.compressedBytes ∧
    sha256 evidence = sha256 publication.hashed

/-- What a recovery pass does to what the store has of a run. -/
structure Sweeps (id : String) (alive : Prop) (files later : Directories) : Prop where
  run : later.run = files.run
  owned : ∀ pid, files.Owned pid → later.Owned pid
  evidence : files.evidence = false → later.evidence = false
  stateless : files.state = none → later = files
  quiet : alive → files.Quiet id → later = files
  settled : files.Settled id → later.Settled id

/-- What the run does to what the store has of it. -/
structure Publishes (sha256 : List UInt8 → List UInt8) (publication : Publication)
    (files later : Directories) : Prop where
  run : later.run = files.run ∨
    files.run = none ∧ ∃ directory, later.run = some directory ∧ Complete sha256 publication directory
  owned : ∀ pid, files.Owned pid → later.Owned pid
  evidence : files.evidence = false → later.evidence = false
  stated : files.state ≠ none → later.state ≠ none ∨ later.Settled publication.id
  ended : files.Terminal → ¬ files.Published publication.id → later = files
  settled : files.Settled publication.id → later.Settled publication.id

namespace Sweeps

variable {id : String} {alive : Prop} {files middle later : Directories}

theorem refl (alive : Prop) (files : Directories) : Sweeps id alive files files where
  run := rfl
  owned _ owned := owned
  evidence none_ := none_
  stateless _ := rfl
  quiet _ _ := rfl
  settled settled := settled

theorem trans (first : Sweeps id alive files middle) (second : Sweeps id alive middle later) :
    Sweeps id alive files later where
  run := second.run.trans first.run
  owned pid owned := second.owned pid (first.owned pid owned)
  evidence none_ := second.evidence (first.evidence none_)
  stateless none_ := by
    have same := first.stateless none_
    exact (second.stateless (same ▸ none_)).trans same
  quiet lives quiet := by
    have same := first.quiet lives quiet
    exact (second.quiet lives (same ▸ quiet)).trans same
  settled settled := second.settled (first.settled settled)

theorem of_lives {alive' : Prop} (lives : alive → alive') (sweeps : Sweeps id alive' files later) :
    Sweeps id alive files later :=
  { sweeps with quiet := fun alive => sweeps.quiet (lives alive) }

end Sweeps

theorem Publishes.refl (sha256 : List UInt8 → List UInt8) (publication : Publication)
    (files : Directories) : Publishes sha256 publication files files where
  run := .inl rfl
  owned _ owned := owned
  evidence none_ := none_
  stated stated := .inl stated
  ended _ _ := rfl
  settled settled := settled

/-- What a pass relies on between two of its steps: what the run does while it lives, and that
its process once dead stays dead. -/
structure Awaits (id : String) (alive alive' : Prop) (files later : Directories) : Prop where
  living : alive' → alive
  dead : ¬ alive → later = files
  run : files.run ≠ none → later.run = files.run
  owned : ∀ pid, files.Owned pid → later.Owned pid
  evidence : files.evidence = false → later.evidence = false
  stated : files.state ≠ none → later.state ≠ none ∨ later.Settled id
  ended : files.Terminal → ¬ files.Published id → later = files
  settled : files.Settled id → later.Settled id

namespace Awaits

variable {id : String} {alive alive' alive'' : Prop} {files middle later : Directories}

theorem same (living : alive' → alive) (files : Directories) :
    Awaits id alive alive' files files where
  living := living
  dead _ := rfl
  run _ := rfl
  owned _ owned := owned
  evidence none_ := none_
  stated stated := .inl stated
  ended _ _ := rfl
  settled settled := settled

theorem of_publishes {sha256 : List UInt8 → List UInt8} {publication : Publication}
    (lives : alive) (published : Publishes sha256 publication files later) :
    Awaits publication.id alive alive files later where
  living alive := alive
  dead dead := absurd lives dead
  run some_ := published.run.resolve_right fun fresh => some_ fresh.1
  owned := published.owned
  evidence := published.evidence
  stated := published.stated
  ended := published.ended
  settled := published.settled

theorem trans (first : Awaits id alive alive' files middle)
    (second : Awaits id alive' alive'' middle later) : Awaits id alive alive'' files later where
  living lives := first.living (second.living lives)
  dead dead := by
    have same := first.dead dead
    exact (second.dead fun lives => dead (first.living lives)).trans same
  run some_ := by
    have same := first.run some_
    exact (second.run (same ▸ some_)).trans same
  owned pid owned := second.owned pid (first.owned pid owned)
  evidence none_ := second.evidence (first.evidence none_)
  stated stated := (first.stated stated).elim second.stated fun settled =>
    .inr (second.settled settled)
  ended terminal unpublished := by
    have same := first.ended terminal unpublished
    exact (second.ended (same ▸ terminal) (same ▸ unpublished)).trans same
  settled settled := second.settled (first.settled settled)

end Awaits

namespace Directories

variable {id : String} {alive : Prop} {files : Directories}

/-- What a pass may remove: what a settled run left, or what a dead one with a state did. -/
def Swept (id : String) (alive : Prop) (files : Directories) : Prop :=
  files.Settled id ∨ ¬ alive ∧ files.state ≠ none

theorem Swept.gone (swept : files.Swept id alive) (none_ : files.state = none) : files.Gone := by
  obtain settled | ⟨-, some_⟩ := swept
  · refine settled.2.resolve_left ?_
    rintro ⟨state, found, -⟩
    rw [none_] at found
    contradiction
  · exact absurd none_ some_

theorem Swept.gone_of_quiet (swept : files.Swept id alive) (lives : alive)
    (quiet : files.Quiet id) : files.Gone := by
  obtain settled | ⟨dead, -⟩ := swept
  · exact settled.gone quiet
  · exact absurd lives dead

theorem state_inWork (change : Work → Work) (same : ∀ work, (change work).state = work.state)
    (files : Directories) : (files.inWork change).state = files.state := by
  unfold state inWork
  cases files.work with
  | none => rfl
  | some work => exact congrArg Written.file (same work)

theorem state_removeStaging (files : Directories) : files.removeStaging.state = files.state :=
  state_inWork (fun work => { work with staging := none }) (fun _ => rfl) files

theorem state_removeWorkspace (files : Directories) : files.removeWorkspace.state = files.state :=
  state_inWork (fun work => { work with workspace := false }) (fun _ => rfl) files

theorem state_replaced {files : Directories} {state : RunState} (found : files.state = some state)
    (updated : RunState) :
    ((files.inWork fun work => { work with state := work.state.prepare updated }).inWork
      fun work => { work with state := work.state.replace }).state = some updated := by
  obtain ⟨work, evidence, run⟩ := files
  cases work with
  | none => exact absurd found nofun
  | some work => rfl

theorem Gone.inWork (gone : files.Gone) (change : Work → Work) : files.inWork change = files := by
  obtain ⟨work, evidence, run⟩ := files
  obtain ⟨rfl, -⟩ := gone
  rfl

theorem Gone.removeEvidence (gone : files.Gone) : files.removeEvidence = files := by
  obtain ⟨work, evidence, run⟩ := files
  obtain ⟨-, rfl⟩ := gone
  rfl

theorem Gone.removeWork (gone : files.Gone) : files.removeWork = files := by
  obtain ⟨work, evidence, run⟩ := files
  obtain ⟨rfl, -⟩ := gone
  rfl

theorem Swept.inWork (swept : files.Swept id alive) {change : Work → Work}
    (same : ∀ work, (change work).state = work.state) : Sweeps id alive files (files.inWork change) where
  run := rfl
  owned pid owned := owned.of_state (state_inWork change same files)
  evidence none_ := none_
  stateless none_ := (swept.gone none_).inWork change
  quiet lives quiet := (swept.gone_of_quiet lives quiet).inWork change
  settled settled := by
    refine ⟨settled.1.of_run rfl, settled.2.imp ?_ ?_⟩
    · exact Terminal.of_state (state_inWork change same files)
    · intro gone
      rwa [gone.inWork change]

theorem Swept.removeEvidence (swept : files.Swept id alive) :
    Sweeps id alive files files.removeEvidence where
  run := rfl
  owned _ owned := owned
  evidence _ := rfl
  stateless none_ := (swept.gone none_).removeEvidence
  quiet lives quiet := (swept.gone_of_quiet lives quiet).removeEvidence
  settled settled := ⟨settled.1, settled.2.imp (fun terminal => terminal) fun gone => ⟨gone.1, rfl⟩⟩

theorem Swept.removeWork (swept : files.Swept id alive) (none_ : files.evidence = false) :
    Sweeps id alive files files.removeWork where
  run := rfl
  owned _ _ := by
    intro state found
    contradiction
  evidence none_ := none_
  stateless none_ := (swept.gone none_).removeWork
  quiet lives quiet := (swept.gone_of_quiet lives quiet).removeWork
  settled settled := ⟨settled.1, .inr ⟨rfl, none_⟩⟩

end Directories
end Supercov.Lifecycle
