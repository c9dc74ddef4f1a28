import Mathlib.Logic.Relation
import Supercov.Lifecycle.Acquired

/-!
# A copy is one run's alone

Any number of processes take, release and clean, step by step in any order, and end at any
step.  Where the file system keeps locks no two holds have a copy, none is held beside one
that has the whole store, and a run is refused only for copies that others have.  Where it
keeps none, two runs that look before either has written its name take the same copy.
-/

namespace Supercov.ProjectLock

open Interleaved
open LockTable (Mode Coherent)

/-- What an agent has come to. -/
inductive Status where
  | resting
  | refused (refusal : Refusal)
  | holding (alone : Bool) (owner : LockOwner) (copy : Nat)

inductive Agent where
  | still (status : Status)
  | calling (program : Task Status)

/-- What `acquire` and `acquire_alone` come to. -/
def acquire (keepsLocks : Bool) (agent : Nat) (owner : LockOwner) (alone : Bool) : Task Status :=
  take keepsLocks agent owner alone >>= fun result => .done
    (match result with
    | .ok copy => .holding alone owner copy
    | .error refusal => .refused refusal)

/-- The calls of an agent of the process, by what it has come to. -/
inductive Call (keepsLocks : Bool) (agent process : Nat) : Status → Task Status → Prop where
  | acquire {status : Status} (bare : ∀ alone owner copy, status ≠ .holding alone owner copy)
      (runId startedAt : String) (alone : Bool) :
      Call keepsLocks agent process status
        (acquire keepsLocks agent { runId, pid := process, startedAt } alone)
  | recover {status : Status} (bare : ∀ alone owner copy, status ≠ .holding alone owner copy)
      (idle : Nat → Bool) :
      Call keepsLocks agent process status
        (recoverAbandonedRuns keepsLocks agent process idle >>= fun _ => .done .resting)
  | release (alone : Bool) (owner : LockOwner) (copy : Nat) :
      Call keepsLocks agent process (.holding alone owner copy)
        (release agent owner copy >>= fun _ => .done .resting)

/-- The processes and what the store's lock files have at first: no lock is had, and what
owners are written ended without removing them. -/
structure Project where
  keepsLocks : Bool
  process : Processes
  owners : Nat → Option LockOwner
  living : Nat → Bool
  present : Nat → Bool
  stale : ∀ copy owner, owners copy = some owner → living owner.pid = false

structure Moment where
  store : Store
  agents : Nat → Agent

namespace Store

/-- Adds to `met` what other handles have now. -/
def note (store : Store) : Store :=
  { store with
    met := fun agent => store.met agent ∪
      {copy | ∃ entry ∈ store.locks (.copy copy), entry.1 ≠ ⟨agent, .hold⟩} }

/-- The agent begins a call: nothing was met during it yet. -/
def forget (agent : Nat) (store : Store) : Store :=
  { store with met := Function.update store.met agent ∅ }

def die (process : Processes) (pid : Nat) (store : Store) : Store :=
  { store with
    living := Function.update store.living pid false
    locks := fun file => (store.locks file).filter fun entry => process entry.1.agent ≠ pid }

end Store

namespace Project

variable (project : Project)

def first : Moment where
  store := {
    locks := fun _ => []
    owners := project.owners
    living := project.living
    present := project.present
    met := fun _ => ∅ }
  agents := fun _ => .still .resting

inductive Step : Moment → Moment → Prop where
  | call {moment : Moment} {agent : Nat} {status : Status} {program : Task Status}
      (still : moment.agents agent = .still status)
      (lives : moment.store.living (project.process agent))
      (call : Call project.keepsLocks agent (project.process agent) status program) :
      Step moment {
        store := (moment.store.forget agent).note
        agents := Function.update moment.agents agent (.calling program) }
  | step {moment : Moment} {agent : Nat} {change : Store → Store} {next : Store → Task Status}
      (calling : moment.agents agent = .calling (.step change next)) :
      Step moment {
        store := (change moment.store).note
        agents := Function.update moment.agents agent (.calling (next moment.store)) }
  | returns {moment : Moment} {agent : Nat} {status : Status}
      (calling : moment.agents agent = .calling (.done status)) :
      Step moment { moment with agents := Function.update moment.agents agent (.still status) }
  | die (moment : Moment) (pid : Nat) :
      Step moment {
        store := (moment.store.die project.process pid).note
        agents := fun agent =>
          if project.process agent = pid then .still .resting else moment.agents agent }
  -- A run makes the copy it holds.
  | work {moment : Moment} {agent : Nat} {alone : Bool} {owner : LockOwner} {copy : Nat}
      (holding : moment.agents agent = .still (.holding alone owner copy)) :
      Step moment { moment with
        store := { moment.store with present := Function.update moment.store.present copy true } }

def Reached : Moment → Prop := Relation.ReflTransGen project.Step project.first

/-- An agent's hold is live from the return of its call to the call of its release. -/
def Live (moment : Moment) (agent : Nat) (alone : Bool) (copy : Nat) : Prop :=
  ∃ owner, moment.agents agent = .still (.holding alone owner copy)

/-- What is claimed of the locks, of every moment and of every step. -/
structure Exclusive : Prop where
  apart : ∀ moment, project.Reached moment → ∀ agent other alone alone' copy copy', agent ≠ other →
    Live moment agent alone copy → Live moment other alone' copy' → copy ≠ copy'
  alone : ∀ moment, project.Reached moment → ∀ agent other copy alone' copy', agent ≠ other →
    Live moment agent true copy → ¬ Live moment other alone' copy'
  unused : ∀ moment later, project.Reached moment → project.Step moment later → ∀ copy,
    moment.store.present copy = true → later.store.present copy = false →
      ∀ agent alone, ¬ Live moment agent alone copy
  refused : ∀ moment, project.Reached moment → ∀ agent,
    moment.agents agent = .calling (.done (.refused .lockUnavailable)) →
      ∀ copy ∈ copies, copy ∈ moment.store.met agent
  cleaned : ∀ moment, project.Reached moment → ∀ agent copy, Live moment agent true copy →
    ∀ other owner change next,
      acquire project.keepsLocks other owner false = .step change next →
        next moment.store = .done (.refused .cleaning)

end Project

section Kept

variable {process : Processes} {agent : Nat} {status : Status} {store later : Store}

def Stands (process : Processes) (agent : Nat) : Status → Store → Prop
  | .holding alone owner copy => Holds process agent (storeMode alone) owner copy
  | _ => Bare process agent

/-- What a call comes to. -/
def Returns (process : Processes) (agent : Nat) (status : Status) (store : Store) : Prop :=
  Stands process agent status store ∧
    (status = .refused .lockUnavailable → ∀ copy ∈ copies, copy ∈ store.met agent)

theorem Stands.after (stands : Stands process agent status store)
    (between : Relies process agent store later) : Stands process agent status later := by
  cases status with
  | holding alone owner copy => exact Holds.after stands between
  | resting => exact Bare.after stands between
  | refused refusal => exact Bare.after stands between

theorem Stands.bare (stands : Stands process agent status store)
    (none_ : ∀ alone owner copy, status ≠ .holding alone owner copy) : Bare process agent store := by
  cases status with
  | holding alone owner copy => exact absurd rfl (none_ alone owner copy)
  | resting => exact stands
  | refused refusal => exact stands

theorem Calls.of_call {program : Task Status} (call : Call true agent (process agent) status program)
    (stands : Stands process agent status store) :
    Calls process agent (Returns process agent) program store := by
  cases call with
  | acquire none_ runId startedAt alone =>
    refine (Calls.take rfl alone (stands.bare none_)).bind fun result now taken => ?_
    cases result with
    | ok copy => exact fun later between => ⟨Holds.after taken between, nofun⟩
    | error refusal =>
      refine fun later between => ⟨taken.1.after between, fun same copy listed => ?_⟩
      exact between.met (taken.2 (Status.refused.inj same) copy listed)
  | recover none_ idle =>
    refine (Calls.recoverAbandonedRuns idle (stands.bare none_)).bind fun _ now bare => ?_
    exact fun later between => ⟨bare.after between, nofun⟩
  | release alone owner copy =>
    refine (Calls.release stands).bind fun _ now bare => ?_
    exact fun later between => ⟨bare.after between, nofun⟩

theorem Noted.note (store : Store) : Noted store.note := by
  intro agent copy entry held other
  exact .inr ⟨entry, held, other⟩

def Fine (process : Processes) (agent : Nat) : Agent → Store → Prop
  | .still status => Stands process agent status
  | .calling program => Calls process agent (Returns process agent) program

theorem Fine.after {being : Agent} (fine : Fine process agent being store)
    (between : Relies process agent store later) : Fine process agent being later := by
  cases being with
  | still status => exact Stands.after fine between
  | calling program => exact Meets.stable (Relies process agent) Relies.trans fine between

/-- What every moment keeps. -/
structure Kept (process : Processes) (moment : Moment) : Prop where
  sound : Sound process moment.store
  noted : Noted moment.store
  agents : ∀ agent, Fine process agent (moment.agents agent) moment.store

theorem Relies.of_guarantees {other : Nat} (apart : agent ≠ other) (sound : Sound process store)
    (given : Guarantees process other store later) : Relies process agent store later.note where
  sound := ⟨given.sound.coherent, given.sound.owned⟩
  noted := .note later
  living pid lives := by
    rw [← given.living]
    exact lives
  locks use file mode := given.locks ⟨agent, use⟩ apart file mode
  owners copy has := by
    by_contra changed
    have only := (sound.coherent (.copy copy)).eq_of_exclusive has (given.owners copy changed)
    exact apart (congrArg Handle.agent only.1).symm
  met copy listed := .inl (by rwa [given.met])

theorem Relies.noted_now (sound : Sound process store) : Relies process agent store store.note where
  sound := ⟨sound.coherent, sound.owned⟩
  noted := .note store
  living _ lives := lives
  locks _ _ _ := .rfl
  owners _ _ := rfl
  met _ listed := .inl listed

theorem Relies.of_locks (locks : later.locks = store.locks) (owners : later.owners = store.owners)
    (living : later.living = store.living) (sound : Sound process store) (noted : Noted later)
    (met : store.met agent ⊆ later.met agent) : Relies process agent store later where
  sound := by
    refine ⟨fun file => locks ▸ sound.coherent file, fun copy owner found lives => ?_⟩
    rw [owners] at found
    rw [living] at lives
    unfold Store.Has
    rw [locks]
    exact sound.owned copy owner found lives
  noted := noted
  living pid lives := living ▸ lives
  locks use file mode := by
    unfold Store.Has
    rw [locks]
  owners copy _ := congrFun owners copy
  met := met

theorem Sound.die (sound : Sound process store) (pid : Nat) :
    Sound process (store.die process pid).note where
  coherent file := (sound.coherent file).filter _
  owned copy owner found lives := by
    by_cases same : owner.pid = pid
    · simp [Store.note, Store.die, same] at lives
    · have lives : store.living owner.pid := by simpa [Store.note, Store.die, same] using lives
      obtain ⟨holder, mine, has⟩ := sound.owned copy owner found lives
      exact ⟨holder, mine, List.mem_filter.mpr ⟨has, by simpa [mine] using same⟩⟩

theorem Relies.of_die {pid : Nat} (sound : Sound process store) (other : process agent ≠ pid) :
    Relies process agent store (store.die process pid).note where
  sound := sound.die pid
  noted := .note _
  living other' lives := by
    by_cases same : other' = pid
    · simp [Store.note, Store.die, same] at lives
    · simpa [Store.note, Store.die, same] using lives
  locks use file mode := List.mem_filter.trans (and_iff_left (by simpa using other))
  owners _ _ := rfl
  met copy listed := .inl listed

theorem Bare.of_die {pid : Nat} (sound : Sound process store) (dead : process agent = pid) :
    Bare process agent (store.die process pid).note where
  sound := sound.die pid
  bare copy mode has := by
    have alive := (List.mem_filter.mp has).2
    simp [dead] at alive

end Kept

namespace Kept

variable {process : Processes} {moment : Moment}

theorem become (kept : Kept process moment) {agent : Nat} {being : Agent} {store : Store}
    (noted : Noted store) (sound : Sound process store) (fine : Fine process agent being store)
    (others : ∀ other, other ≠ agent → Relies process other moment.store store) :
    Kept process { store, agents := Function.update moment.agents agent being } where
  sound := sound
  noted := noted
  agents other := by
    by_cases same : other = agent
    · subst same
      simpa using fine
    · simpa [same] using (kept.agents other).after (others other same)

end Kept

namespace Project

variable {project : Project} {moment later : Moment}

theorem kept_first : Kept project.process project.first where
  sound := {
    coherent := fun _ => .nil
    owned := fun copy owner found lives => by
      have dead := project.stale copy owner found
      rw [show project.first.store.living = project.living from rfl, dead] at lives
      contradiction }
  noted _ _ _ := nofun
  agents agent := by
    refine ⟨⟨fun _ => .nil, fun copy owner found lives => ?_⟩, fun _ _ => nofun⟩
    have dead := project.stale copy owner found
    rw [show project.first.store.living = project.living from rfl, dead] at lives
    contradiction

theorem kept_step (locks : project.keepsLocks = true) (kept : Kept project.process moment)
    (step : project.Step moment later) : Kept project.process later := by
  cases step with
  | @call agent status program still lives call =>
    rw [locks] at call
    have stands : Stands project.process agent status moment.store := by
      have fine := kept.agents agent
      rwa [still] at fine
    have sound : Sound project.process (moment.store.forget agent).note :=
      ⟨kept.sound.coherent, kept.sound.owned⟩
    refine kept.become (.note _) sound (Calls.of_call call ?_) fun other apart => ?_
    · cases status with
      | holding alone owner copy =>
        exact ⟨⟨sound, stands.share, stands.has, stands.only⟩, stands.owner⟩
      | resting =>
        obtain ⟨-, bare⟩ := stands
        exact ⟨sound, bare⟩
      | refused refusal =>
        obtain ⟨-, bare⟩ := stands
        exact ⟨sound, bare⟩
    · refine .of_locks rfl rfl rfl kept.sound (.note _) fun copy listed => .inl ?_
      simpa [Store.forget, apart] using listed
  | @step agent change next calling =>
    have fine := kept.agents agent
    rw [calling] at fine
    obtain ⟨given, calls⟩ := fine moment.store (.refl kept.sound kept.noted)
    refine kept.become (.note _) ⟨given.sound.coherent, given.sound.owned⟩ ?_ fun other apart => ?_
    · exact Fine.after calls (.noted_now given.sound)
    · exact .of_guarantees apart kept.sound given
  | @returns agent status calling =>
    have fine := kept.agents agent
    rw [calling] at fine
    have returns := fine moment.store (.refl kept.sound kept.noted)
    exact kept.become kept.noted kept.sound returns.1 fun _ _ => .refl kept.sound kept.noted
  | die pid =>
    refine ⟨kept.sound.die pid, .note _, fun agent => ?_⟩
    by_cases dead : project.process agent = pid
    · simp only [if_pos dead]
      exact Bare.of_die kept.sound dead
    · simp only [if_neg dead]
      exact (kept.agents agent).after (.of_die kept.sound dead)
  | @work agent alone owner copy holding =>
    have relies agent : Relies project.process agent moment.store
        { moment.store with present := Function.update moment.store.present copy true } :=
      .of_locks rfl rfl rfl kept.sound kept.noted subset_rfl
    exact ⟨(relies agent).sound, kept.noted, fun agent => (kept.agents agent).after (relies agent)⟩

theorem kept_of_reached (locks : project.keepsLocks = true) (reached : project.Reached moment) :
    Kept project.process moment := by
  induction reached with
  | refl => exact kept_first
  | tail reached step ih => exact kept_step locks ih step

theorem holds_of_live (kept : Kept project.process moment) {agent copy : Nat} {alone : Bool}
    (live : Live moment agent alone copy) :
    Locked project.process agent (storeMode alone) copy moment.store := by
  obtain ⟨owner, holding⟩ := live
  have fine := kept.agents agent
  rw [holding] at fine
  exact Holds.toLocked fine

theorem idle_of_removed (kept : Kept project.process moment) (step : project.Step moment later)
    {copy : Nat} (present : moment.store.present copy = true)
    (removed : later.store.present copy = false) :
    ∃ agent, moment.store.Has agent .idle (.copy copy) .exclusive := by
  have changed : later.store.present copy ≠ moment.store.present copy := by simp [present, removed]
  cases step with
  | call still lives call => exact absurd rfl changed
  | @step agent change next calling =>
    have fine := kept.agents agent
    rw [calling] at fine
    obtain ⟨given, -⟩ := fine moment.store (.refl kept.sound kept.noted)
    exact ⟨agent, given.present copy changed⟩
  | returns calling => exact absurd rfl changed
  | die pid => exact absurd rfl changed
  | @work agent alone owner other holding =>
    by_cases same : copy = other
    · simp [same] at removed
    · simp [same] at changed

/-- Where the file system keeps locks, all that is claimed of them holds. -/
theorem exclusive (locks : project.keepsLocks = true) : project.Exclusive where
  apart moment reached agent other alone alone' copy copy' differ live live' same := by
    subst same
    have kept := kept_of_reached locks reached
    have only := (kept.sound.coherent _).eq_of_exclusive (holds_of_live kept live).has
      (holds_of_live kept live').has
    exact differ (congrArg Handle.agent only.1).symm
  alone moment reached agent other copy alone' copy' differ live live' := by
    have kept := kept_of_reached locks reached
    have only := (kept.sound.coherent _).eq_of_exclusive (holds_of_live kept live).share
      (holds_of_live kept live').share
    exact differ (congrArg Handle.agent only.1).symm
  unused moment later reached step copy present removed agent alone live := by
    have kept := kept_of_reached locks reached
    obtain ⟨remover, idle⟩ := idle_of_removed kept step present removed
    have only := (kept.sound.coherent _).eq_of_exclusive (holds_of_live kept live).has idle
    exact absurd (congrArg Handle.use only.1) nofun
  refused moment reached agent returning := by
    have kept := kept_of_reached locks reached
    have fine := kept.agents agent
    rw [returning] at fine
    exact (fine moment.store (.refl kept.sound kept.noted)).2 rfl
  cleaned moment reached agent copy live other owner change next begins := by
    have kept := kept_of_reached locks reached
    have refused : moment.store.lock .store ⟨other, .hold⟩ .shared = none :=
      Option.map_eq_none_iff.mpr (LockTable.lock_eq_none (holds_of_live kept live).share .shared)
    rw [locks] at begins
    obtain ⟨-, same⟩ := Program.step.inj begins
    rw [← same]
    simp only [storeMode, Bool.false_eq_true, if_false, refused]
    rfl

theorem exclusive_locked : Project.Exclusive
    { keepsLocks := true, process := fun agent => agent, owners := fun _ => none,
      living := fun _ => true, present := fun _ => true, stale := fun _ _ => nofun } :=
  exclusive rfl

def advance (moment : Moment) (agent : Nat) : Moment :=
  match moment.agents agent with
  | .still _ => moment
  | .calling (.done status) =>
    { moment with agents := Function.update moment.agents agent (.still status) }
  | .calling (.step change next) => {
    store := (change moment.store).note
    agents := Function.update moment.agents agent (.calling (next moment.store)) }

theorem reached_advance (reached : project.Reached moment) (schedule : List Nat) :
    project.Reached (schedule.foldl advance moment) := by
  induction schedule generalizing moment with
  | nil => exact reached
  | cons agent schedule ih =>
    refine ih ?_
    unfold advance
    split
    case h_1 => exact reached
    case h_2 status calling => exact reached.tail (.returns calling)
    case h_3 change next calling => exact reached.tail (.step calling)

def unlocked : Project where
  keepsLocks := false
  process agent := agent
  owners _ := none
  living _ := true
  present _ := true
  stale _ _ := nofun

def runs (agent : Nat) : LockOwner := { runId := "run", pid := agent, startedAt := "" }

def begin (moment : Moment) (agent : Nat) : Moment where
  store := (moment.store.forget agent).note
  agents := Function.update moment.agents agent (.calling (acquire false agent (runs agent) false))

theorem reached_begin (reached : unlocked.Reached moment) {agent : Nat}
    (resting : moment.agents agent = .still .resting) (lives : moment.store.living agent = true) :
    unlocked.Reached (begin moment agent) :=
  reached.tail (.call resting lives (.acquire (by rintro _ _ _ ⟨⟩) "run" "" false))

/-- Both look for an owner before either has written its name. -/
def raced : Moment :=
  [0, 0, 1, 1, 0, 0, 1, 1, 0, 1].foldl advance (begin (begin unlocked.first 0) 1)

theorem not_exclusive_unlocked : ¬ ∀ project : Project, project.Exclusive := by
  intro exclusive
  have reached : unlocked.Reached raced :=
    reached_advance (reached_begin (reached_begin .refl rfl rfl) rfl rfl) _
  exact (exclusive unlocked).apart raced reached 0 1 false false 1 1 (by decide)
    ⟨runs 0, rfl⟩ ⟨runs 1, rfl⟩ rfl

end Project
end Supercov.ProjectLock
