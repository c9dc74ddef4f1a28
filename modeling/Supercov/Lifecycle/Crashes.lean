import Mathlib.Logic.Relation
import Supercov.Lifecycle.Ended
import Supercov.Lifecycle.Recovered

/-!
# A crash costs no published run

A run ends while recovery passes come and go and is killed at any point; so may each pass be.
Only one pass is under way at a time.  What other runs do to their own directories is free.
-/

namespace Supercov.Lifecycle

open Interleaved Directories

/-- A run that is about to end: its process lives, nothing is published under its id, and what
state it has is its own and not terminal. -/
structure Ending where
  sha256 : List UInt8 → List UInt8
  publication : Publication
  pid : Nat
  startedAt : String
  ids : List String
  world : World
  listed : publication.id ∈ ids
  lives : pid ∈ world.living
  unpublished : (world.directories publication.id).run = none
  working : ¬ (world.directories publication.id).Terminal
  owned : (world.directories publication.id).Owned pid

/-- What is left of the run's program while its process lives, and of the pass under way,
with the world in which the pass began. -/
structure Moment where
  world : World
  run : Option (Task PUnit)
  pass : Option (World × Task Bool)

namespace Ending

variable (ending : Ending)

def id : String := ending.publication.id

/-- What the store has of the run. -/
def files (moment : Moment) : Directories := moment.world.directories ending.id

def first : Moment where
  world := ending.world
  run := some (endRun ending.sha256 ending.publication ending.startedAt)
  pass := none

inductive Step : Moment → Moment → Prop where
  | run {moment : Moment} {change : World → World} {next : World → Task PUnit}
      (runs : moment.run = some (.step change next)) :
      Step moment { moment with world := change moment.world, run := some (next moment.world) }
  | kill (moment : Moment) :
      Step moment { moment with
        world := { moment.world with living := moment.world.living.erase ending.pid }
        run := none }
  | start {moment : Moment} (idle : moment.pass = none) (updatedAt : String) :
      Step moment { moment with
        pass := some (moment.world, recoverAbandonedRuns ending.ids updatedAt) }
  | pass {moment : Moment} {began : World} {change : World → World} {next : World → Task Bool}
      (passes : moment.pass = some (began, .step change next)) :
      Step moment { moment with
        world := change moment.world
        pass := some (began, next moment.world) }
  -- A pass that has completed, and one that is killed.
  | leave (moment : Moment) : Step moment { moment with pass := none }
  | elsewhere {moment : Moment} {world : World}
      (lives : ending.pid ∈ world.living ↔ ending.pid ∈ moment.world.living)
      (same : world.directories ending.id = ending.files moment) : Step moment { moment with world }

def Reached : Moment → Prop := Relation.ReflTransGen ending.Step ending.first

/-- What holds at every moment. -/
structure Kept (moment : Moment) : Prop where
  complete : ∀ directory, (ending.files moment).run = some directory →
    Complete ending.sha256 ending.publication directory
  owned : (ending.files moment).Owned ending.pid
  run : ∀ program, moment.run = some program → ending.pid ∈ moment.world.living ∧
    Runs ending.sha256 ending.publication ending.pid (fun _ _ => True) program moment.world
  pass : ∀ began program, moment.pass = some (began, program) →
    Passes ending.id ending.pid (fun completed later => Pending ending.id ending.pid began →
      completed = true → Cleared ending.id ending.pid later) program moment.world

namespace Kept

variable {ending} {moment : Moment}

theorem first : ending.Kept ending.first where
  complete directory found := absurd (found.symm.trans ending.unpublished) nofun
  owned := ending.owned
  run program same := by
    obtain rfl := Option.some.inj same
    exact ⟨ending.lives, .endRun (.now ending.lives) ending.working ending.startedAt⟩
  pass _ _ := nofun

theorem beside (kept : ending.Kept moment) {world : World}
    (run : RunRelies ending.id ending.pid moment.world world)
    (pass : PassRelies ending.id ending.pid moment.world world) :
    ending.Kept { moment with world } where
  complete directory found := kept.complete directory (run.2.run.symm.trans found)
  owned := Awaits.owned pass ending.pid kept.owned
  run program same := by
    obtain ⟨lives, runs⟩ := kept.run program same
    exact ⟨run.1 lives, runs.stable run⟩
  pass began program same := (kept.pass began program same).stable pass

theorem runs (kept : ending.Kept moment) {change : World → World} {next : World → Task PUnit}
    (runs : moment.run = some (.step change next)) :
    ending.Kept { moment with world := change moment.world, run := some (next moment.world) } := by
  obtain ⟨lives, meets⟩ := kept.run _ runs
  obtain ⟨⟨living, publishes⟩, meets⟩ := meets moment.world (.refl _)
  have between : PassRelies ending.id ending.pid moment.world (change moment.world) := by
    unfold PassRelies
    rw [living]
    exact .of_publishes lives publishes
  exact {
    complete := fun directory found => by
      obtain same | ⟨-, fresh, found', complete⟩ := publishes.run
      · exact kept.complete directory (same.symm.trans found)
      · obtain rfl := Option.some.inj (found'.symm.trans found)
        exact complete
    owned := publishes.owned ending.pid kept.owned
    run := fun program same => by
      obtain rfl := Option.some.inj same
      exact ⟨living.symm ▸ lives, meets⟩
    pass := fun began program same =>
      (kept.pass began program same).stable between }

theorem passes (kept : ending.Kept moment) {began : World} {change : World → World}
    {next : World → Task Bool} (passes : moment.pass = some (began, .step change next)) :
    ending.Kept { moment with
      world := change moment.world, pass := some (began, next moment.world) } := by
  obtain ⟨⟨living, sweeps⟩, meets⟩ := kept.pass _ _ passes moment.world (.refl _)
  have between : RunRelies ending.id ending.pid moment.world (change moment.world) :=
    ⟨fun lives => living.symm ▸ lives, sweeps⟩
  exact {
    complete := fun directory found => kept.complete directory (sweeps.run.symm.trans found)
    owned := sweeps.owned ending.pid kept.owned
    run := fun program same => by
      obtain ⟨lives, runs⟩ := kept.run program same
      exact ⟨between.1 lives, runs.stable between⟩
    pass := fun began' program same => by
      obtain ⟨rfl, rfl⟩ := Prod.mk.inj (Option.some.inj same)
      exact meets }

theorem step (kept : ending.Kept moment) {later : Moment} (step : ending.Step moment later) :
    ending.Kept later := by
  cases step with
  | run runs => exact kept.runs runs
  | pass passes => exact kept.passes passes
  | kill =>
    exact {
      complete := kept.complete
      owned := kept.owned
      run := fun _ => nofun
      pass := fun began program same => (kept.pass began program same).stable
        (Awaits.same (fun lives => (Finset.mem_erase.mp lives).2) _) }
  | start idle updatedAt =>
    refine ⟨kept.complete, kept.owned, kept.run, fun began program same => ?_⟩
    obtain ⟨rfl, rfl⟩ := Prod.mk.inj (Option.some.inj same)
    exact .recoverAbandonedRuns kept.owned ending.listed updatedAt
  | leave => exact ⟨kept.complete, kept.owned, kept.run, fun _ _ => nofun⟩
  | elsewhere lives same =>
    refine kept.beside ⟨lives.mpr, ?_⟩ ?_
    · rw [same]
      exact .refl _ _
    · unfold PassRelies
      rw [same]
      exact .same lives.mp _

theorem of_reached (reached : ending.Reached moment) : ending.Kept moment := by
  induction reached with
  | refl => exact first
  | tail reached step ih => exact ih.step step

end Kept

/-- What is published whole stays published, a pass that completes has removed what was left of
a run that had died while its state said it was running, and no pass touches what a living
run has before its state is terminal. -/
structure Survives : Prop where
  whole : ∀ moment, ending.Reached moment → ∀ directory,
    (ending.files moment).run = some directory →
      Complete ending.sha256 ending.publication directory
  stays : ∀ moment later, ending.Reached moment → Relation.ReflTransGen ending.Step moment later →
    ∀ directory, (ending.files moment).run = some directory →
      (ending.files later).run = some directory
  removed : ∀ moment began, ending.Reached moment → moment.pass = some (began, .done true) →
    Pending ending.id ending.pid began → (ending.files moment).Gone
  untouched : ∀ moment began change next, ending.Reached moment →
    moment.pass = some (began, .step change next) → ending.pid ∈ moment.world.living →
    ¬ (ending.files moment).Terminal →
      (change moment.world).directories ending.id = ending.files moment

variable {ending} {moment later : Moment}

theorem run_eq_of_step (reached : ending.Reached moment) (step : ending.Step moment later)
    {directory : RunDirectory} (found : (ending.files moment).run = some directory) :
    (ending.files later).run = some directory := by
  have kept := Kept.of_reached reached
  cases step with
  | run runs =>
    obtain ⟨lives, meets⟩ := kept.run _ runs
    obtain ⟨⟨living, publishes⟩, -⟩ := meets moment.world (.refl _)
    obtain same | ⟨fresh, -⟩ := publishes.run
    · exact same.trans found
    · exact absurd (found.symm.trans fresh) nofun
  | pass passes =>
    obtain ⟨⟨-, sweeps⟩, -⟩ := kept.pass _ _ passes moment.world (.refl _)
    exact sweeps.run.trans found
  | kill => exact found
  | start idle updatedAt => exact found
  | leave => exact found
  | elsewhere lives same => exact (congrArg Directories.run same).trans found

theorem survives (ending : Ending) : ending.Survives where
  whole moment reached := (Kept.of_reached reached).complete
  stays moment later reached steps directory found := by
    induction steps with
    | refl => exact found
    | tail steps step ih => exact run_eq_of_step (reached.trans steps) step ih
  removed moment began reached completed pending :=
    ((Kept.of_reached reached).pass began _ completed moment.world (.refl _) pending rfl).2
  untouched moment began change next reached passes lives running := by
    obtain ⟨⟨-, sweeps⟩, -⟩ :=
      (Kept.of_reached reached).pass began _ passes moment.world (.refl _)
    exact sweeps.quiet lives fun ended => running ended.1

theorem files_eq_of_stateless (reached : ending.Reached moment)
    (dead : ending.pid ∉ moment.world.living) (stateless : (ending.files moment).state = none)
    (steps : Relation.ReflTransGen ending.Step moment later) :
    ending.pid ∉ later.world.living ∧ ending.files later = ending.files moment := by
  induction steps with
  | refl => exact ⟨dead, rfl⟩
  | @tail middle last steps step ih =>
    obtain ⟨dead, same⟩ := ih
    have kept := Kept.of_reached (reached.trans steps)
    cases step with
    | run runs => exact absurd (kept.run _ runs).1 dead
    | pass passes =>
      obtain ⟨⟨living, sweeps⟩, -⟩ := kept.pass _ _ passes middle.world (.refl _)
      refine ⟨fun lives => dead (living ▸ lives), (sweeps.stateless ?_).trans same⟩
      exact (congrArg Directories.state same).trans stateless
    | kill => exact ⟨fun lives => dead (Finset.mem_erase.mp lives).2, same⟩
    | start idle updatedAt => exact ⟨dead, same⟩
    | leave => exact ⟨dead, same⟩
    | elsewhere lives here => exact ⟨fun alive => dead (lives.mp alive), here.trans same⟩

/-- Whatever a dead run that is not published left is gone at some later moment. -/
def Reclaims (ending : Ending) : Prop :=
  ∀ moment, ending.Reached moment → ending.pid ∉ moment.world.living →
    (ending.files moment).run = none →
      ∃ later, Relation.ReflTransGen ending.Step moment later ∧ (ending.files later).Gone

/-- A run that has evidence and no state. -/
def stateless : Ending where
  sha256 contents := contents
  publication := {
    metadata := { id := "run_1", compressedBytes := 0 }
    hashed := [], pieces := [], inputs := true, prepared := true, status := none }
  pid := 7
  startedAt := ""
  ids := ["run_1"]
  world := { directories := fun _ => { evidence := true }, living := {7} }
  listed := List.mem_singleton.mpr rfl
  lives := Finset.mem_singleton.mpr rfl
  unpublished := rfl
  working := by rintro ⟨state, found, -⟩; contradiction
  owned := by rintro state found; contradiction

theorem not_reclaims_stateless : ¬ ∀ ending : Ending, ending.Reclaims := by
  intro reclaims
  have killed : stateless.Reached _ := .single (Step.kill stateless.first)
  have dead : stateless.pid ∉ stateless.first.world.living.erase stateless.pid :=
    Finset.notMem_erase _ _
  obtain ⟨later, steps, gone⟩ := reclaims stateless _ killed dead rfl
  obtain ⟨-, same⟩ := files_eq_of_stateless killed dead rfl steps
  rw [same] at gone
  exact absurd gone.2 nofun

end Ending
end Supercov.Lifecycle
