import Supercov.Lifecycle.Shared

/-!
# What a recovery pass does with one run

A run that is dead when the pass begins is found as it was left: where its state is written
and not terminal, a pass that completes has removed its work and its evidence.
-/

namespace Supercov.Lifecycle

open Interleaved Directories

/-- What a pass relies on between two of its steps. -/
def PassRelies (id : String) (pid : Nat) (world later : World) : Prop :=
  Awaits id (pid ∈ world.living) (pid ∈ later.living) (world.directories id) (later.directories id)

def PassGuarantees (id : String) (pid : Nat) (world later : World) : Prop :=
  later.living = world.living ∧
    Sweeps id (pid ∈ world.living) (world.directories id) (later.directories id)

/-- The run's process is dead, and its state says it was still running. -/
def Pending (id : String) (pid : Nat) (world : World) : Prop :=
  pid ∉ world.living ∧ ∃ state ∈ (world.directories id).state, state.status.terminal = false

/-- The run's process is dead, and nothing is left below `work` and `evidence`. -/
def Cleared (id : String) (pid : Nat) (world : World) : Prop :=
  pid ∉ world.living ∧ (world.directories id).Gone

section Knowledge

variable {id : String} {pid : Nat} {first second third world later : World}

theorem PassRelies.refl (world : World) : PassRelies id pid world world :=
  .same (fun lives => lives) _

theorem PassRelies.trans (between : PassRelies id pid first second)
    (after : PassRelies id pid second third) : PassRelies id pid first third :=
  Awaits.trans between after

theorem PassRelies.dead (between : PassRelies id pid world later) (dead : pid ∉ world.living) :
    pid ∉ later.living ∧ later.directories id = world.directories id :=
  ⟨fun lives => dead (between.living lives), Awaits.dead between dead⟩

theorem Pending.after (pending : Pending id pid world) (between : PassRelies id pid world later) :
    Pending id pid later := by
  obtain ⟨dead, same⟩ := between.dead pending.1
  refine ⟨dead, ?_⟩
  rw [same]
  exact pending.2

theorem Cleared.after (cleared : Cleared id pid world) (between : PassRelies id pid world later) :
    Cleared id pid later := by
  obtain ⟨dead, same⟩ := between.dead cleared.1
  refine ⟨dead, ?_⟩
  rw [same]
  exact cleared.2

end Knowledge

/-- The pass's program does what it guarantees, and ends with what `post` says. -/
abbrev Passes (id : String) (pid : Nat) {Result : Type} (post : Result → World → Prop)
    (program : Task Result) (world : World) : Prop :=
  Meets (PassRelies id pid) (PassGuarantees id pid) post program world

namespace Passes

variable {id : String} {pid : Nat} {world : World} {Result Final : Type}

theorem stable {post : Result → World → Prop} {program : Task Result} {later : World}
    (passes : Passes id pid post program world) (between : PassRelies id pid world later) :
    Passes id pid post program later :=
  Meets.stable (PassRelies id pid) PassRelies.trans passes between

theorem bind {middle : Result → World → Prop} {post : Final → World → Prop} {program : Task Result}
    {next : Result → Task Final} (meets : Passes id pid middle program world)
    (then_ : ∀ result later, middle result later → Passes id pid post (next result) later) :
    Passes id pid post (program >>= next) world :=
  Meets.bind (PassRelies id pid) (fun _ => .refl _) meets then_

theorem look_bind {post : Result → World → Prop} {next : Directories → Task Result}
    (meets : ∀ later, PassRelies id pid world later →
      Passes id pid post (next (later.directories id)) later) :
    Passes id pid post (look id >>= next) world :=
  fun later between => ⟨⟨rfl, .refl _ _⟩, meets later between⟩

theorem observe_bind {post : Result → World → Prop} {next : World → Task Result}
    (meets : ∀ later, PassRelies id pid world later → Passes id pid post (next later) later) :
    Passes id pid post (observe >>= next) world :=
  fun later between => ⟨⟨rfl, .refl _ _⟩, meets later between⟩

theorem alter_bind {post : Result → World → Prop} {next : Task Result}
    {change : Directories → Directories}
    (made : ∀ later, PassRelies id pid world later →
      Sweeps id (pid ∈ later.living) (later.directories id) (change (later.directories id)) ∧
      Passes id pid post next (later.within id change)) :
    Passes id pid post (alter id change >>= fun _ => next) world := by
  intro later between
  obtain ⟨sweeps, meets⟩ := made later between
  refine ⟨⟨rfl, ?_⟩, meets⟩
  rw [World.directories_within]
  exact sweeps

theorem publishedRun :
    Passes id pid (fun found later => ∃ seen, PassRelies id pid world seen ∧
      PassRelies id pid seen later ∧ (found = true ↔ (seen.directories id).Published id))
      (publishedRun id) world := by
  refine look_bind fun seen between => ?_
  split
  case isTrue named =>
    obtain ⟨metadata, found, same⟩ := (Option.any_eq_true _ _).mp named
    obtain ⟨directory, run, written⟩ := Option.bind_eq_some_iff.mp found
    refine look_bind fun seen' after => fun later last => ⟨seen', between.trans after, last, ?_⟩
    have run' : (seen'.directories id).run = some directory := by
      rw [after.run (by rw [run]; exact Option.some_ne_none _), run]
    constructor
    · intro found
      refine ⟨directory, run', ⟨metadata, written, by simpa using same⟩, ?_⟩
      simpa [run'] using found
    · rintro ⟨directory', run'', -, evidence⟩
      obtain rfl := Option.some.inj (run'.symm.trans run'')
      simpa [run'] using evidence
  case isFalse unnamed =>
    refine fun later after => ⟨seen, between, after, nofun, ?_⟩
    rintro ⟨directory, run, ⟨metadata, written, same⟩, -⟩
    refine absurd ?_ unnamed
    rw [Option.mem_def.mp run]
    simpa [Option.mem_def.mp written] using same

theorem swept_after {later : World}
    (swept : (world.directories id).Swept id (pid ∈ world.living))
    (between : PassRelies id pid world later) :
    (later.directories id).Swept id (pid ∈ later.living) := by
  obtain settled | ⟨dead, some_⟩ := swept
  · exact .inl (between.settled settled)
  · obtain ⟨dead, same⟩ := between.dead dead
    exact .inr ⟨dead, same ▸ some_⟩

theorem removeAll {result : Result} (swept : (world.directories id).Swept id (pid ∈ world.living)) :
    Passes id pid (fun ended later => ended = result ∧ (pid ∉ world.living → Cleared id pid later) ∧
        ∀ pid, (world.directories id).Owned pid → (later.directories id).Owned pid) (do
      alter id .removeEvidence
      alter id .removeWork
      .done result) world := by
  refine alter_bind fun first between => ?_
  have swept := swept_after swept between
  have removed := swept.removeEvidence
  refine ⟨removed, alter_bind fun second after => ?_⟩
  have swept : ((first.within id .removeEvidence).directories id).Swept id
      (pid ∈ (first.within id .removeEvidence).living) := by
    rw [World.directories_within]
    exact swept.imp removed.settled fun ⟨dead, some_⟩ => ⟨dead, some_⟩
  have none_ : (second.directories id).evidence = false := by
    refine Awaits.evidence after ?_
    rw [World.directories_within]
    rfl
  have removed' := (swept_after swept after).removeWork none_
  refine ⟨removed', fun last final => ⟨rfl, fun dead => ?_, fun pid owned => ?_⟩⟩
  · have dead := (after.dead (between.dead dead).1).1
    have cleared : Cleared id pid (second.within id .removeWork) := by
      refine ⟨dead, ?_⟩
      rw [World.directories_within]
      exact ⟨rfl, none_⟩
    exact cleared.after final
  · refine Awaits.owned final pid ?_
    rw [World.directories_within]
    refine removed'.owned pid (Awaits.owned after pid ?_)
    rw [World.directories_within]
    exact removed.owned pid (Awaits.owned between pid owned)

theorem finalizePublishedRun
    (left : (world.directories id).Terminal ∧ ¬ (world.directories id).Published id ∨
      (world.directories id).Swept id (pid ∈ world.living)) :
    Passes id pid (fun found later => (pid ∉ world.living → found = true → Cleared id pid later) ∧
        (found = false → ∃ seen, PassRelies id pid world seen ∧
          ¬ (seen.directories id).Published id ∧ PassRelies id pid seen later) ∧
        ∀ pid, (world.directories id).Owned pid → (later.directories id).Owned pid)
      (finalizePublishedRun id) world := by
  refine publishedRun.bind fun found now => ?_
  rintro ⟨seen, between, after, iff⟩
  cases found with
  | false =>
    refine fun later last => ⟨fun _ => nofun, fun _ => ⟨seen, between, ?_, after.trans last⟩, ?_⟩
    · exact fun published => absurd (iff.mpr published) nofun
    · exact fun pid owned => Awaits.owned (between.trans (after.trans last)) pid owned
  | true =>
    have published := iff.mp rfl
    have swept : (seen.directories id).Swept id (pid ∈ seen.living) := by
      obtain ⟨terminal, unpublished⟩ | swept := left
      · have same := Awaits.ended between terminal unpublished
        exact absurd (same ▸ published) unpublished
      · exact swept_after swept between
    refine (removeAll (swept_after swept after)).mono fun _ later => ?_
    rintro ⟨rfl, cleared, owned⟩
    refine ⟨fun dead _ => cleared ((between.trans after).dead dead).1, nofun, fun pid mine => ?_⟩
    exact owned pid (Awaits.owned (between.trans after) pid mine)

end Passes

/-- The run's process is dead, and this is what its store has. -/
def Dead (id : String) (pid : Nat) (files : Directories) (world : World) : Prop :=
  pid ∉ world.living ∧ world.directories id = files

namespace Dead

variable {id : String} {pid : Nat} {files : Directories} {world later : World} {Result : Type}

theorem after (dead : Dead id pid files world) (between : PassRelies id pid world later) :
    Dead id pid files later := by
  obtain ⟨dead', same⟩ := between.dead dead.1
  exact ⟨dead', same.trans dead.2⟩

theorem altered (dead : Dead id pid files world) {change : Directories → Directories}
    (sweeps : Sweeps id False files (change files)) :
    PassGuarantees id pid world (world.within id change) ∧
      Dead id pid (change files) (world.within id change) := by
  obtain ⟨gone, rfl⟩ := dead
  have changed := World.directories_within id change world
  refine ⟨⟨rfl, ?_⟩, gone, changed⟩
  rw [changed, eq_false gone]
  exact sweeps

theorem alter_bind {post : Result → World → Prop} {next : Task Result}
    {change : Directories → Directories} (dead : Dead id pid files world)
    (sweeps : Sweeps id False files (change files))
    (meets : ∀ later, Dead id pid (change files) later → Passes id pid post next later) :
    Passes id pid post (alter id change >>= fun _ => next) world := by
  intro later between
  obtain ⟨kept, dead⟩ := (dead.after between).altered sweeps
  exact ⟨kept, meets _ dead⟩

theorem alter {change : Directories → Directories} (dead : Dead id pid files world)
    (sweeps : Sweeps id False files (change files)) :
    Passes id pid (fun _ => Dead id pid (change files)) (alter id change) world := by
  intro later between
  obtain ⟨kept, dead⟩ := (dead.after between).altered sweeps
  exact ⟨kept, fun last between => dead.after between⟩

theorem sweeps {later : Directories} (stated : files.state ≠ none)
    (unpublished : ¬ files.Published id) (run : later.run = files.run)
    (evidence : files.evidence = false → later.evidence = false)
    (owned : ∀ pid, files.Owned pid → later.Owned pid) :
    Sweeps id False files later where
  run := run
  owned := owned
  evidence := evidence
  stateless none_ := absurd none_ stated
  quiet := False.elim
  settled settled := absurd settled.1 unpublished

theorem updateRunState (dead : Dead id pid files world) {state : RunState}
    (found : files.state = some state) (unpublished : ¬ files.Published id) (status : RunStateStatus)
    (updatedAt : String) (error : Option String) :
    Passes id pid
      (fun updated world => ∃ later, Dead id pid later world ∧ updated = true ∧
        later.state ≠ none ∧ later.evidence = files.evidence ∧
        ∀ pid, files.Owned pid → later.Owned pid)
      (updateRunState id status updatedAt error) world := by
  refine Passes.look_bind fun later between => ?_
  have dead := dead.after between
  rw [dead.2, found]
  let updated : RunState := { state with status, updatedAt, error }
  let prepared := files.inWork fun work => { work with state := work.state.prepare updated }
  let replaced := prepared.inWork fun work => { work with state := work.state.replace }
  have stated : files.state ≠ none := by
    rw [found]
    exact Option.some_ne_none state
  have same : prepared.state = files.state := by
    obtain ⟨work, evidence, run⟩ := files
    cases work <;> rfl
  have written : replaced.state = some updated := state_replaced found updated
  have owned : ∀ pid, files.Owned pid → replaced.Owned pid := by
    intro pid owned state' mine
    rw [written] at mine
    obtain rfl := Option.some.inj mine
    exact owned state found
  have first : Sweeps id False files prepared :=
    sweeps stated unpublished rfl (fun none_ => none_) fun pid owned => owned.of_state same
  have second : Sweeps id False prepared replaced :=
    sweeps (same ▸ stated) unpublished rfl (fun none_ => none_)
      fun pid mine => owned pid (mine.of_state same.symm)
  refine Passes.bind (alter_bind dead first fun later dead => dead.alter second) fun _ later dead => ?_
  refine fun last between => ⟨replaced, dead.after between, rfl, ?_, rfl, owned⟩
  rw [written]
  exact Option.some_ne_none updated

theorem abandonRun (dead : Dead id pid files world) (stated : files.state ≠ none)
    (unpublished : ¬ files.Published id) (updatedAt : String) (owner : Nat) :
    Passes id pid (fun completed later => (completed = true → Cleared id pid later) ∧
        ∀ pid, files.Owned pid → (later.directories id).Owned pid)
      (abandonRun id updatedAt owner) world := by
  have first : Sweeps id False files files.removeEvidence :=
    sweeps stated unpublished rfl (fun _ => rfl) fun _ owned => owned
  obtain ⟨state, found⟩ := Option.ne_none_iff_exists'.mp stated
  refine alter_bind dead first fun later dead => ?_
  refine (updateRunState dead found unpublished _ _ _).bind fun updated later => ?_
  rintro ⟨written, dead, rfl, stated, evidence, owned⟩
  have swept : written.Swept id False := .inr ⟨not_false, stated⟩
  refine alter_bind dead (swept.removeWork evidence) fun later dead => fun last between => ?_
  obtain ⟨gone, same⟩ := dead.after between
  refine ⟨fun _ => ⟨gone, ?_⟩, fun pid _ => ?_⟩
  · rw [same]
    exact ⟨rfl, evidence⟩
  · rw [same]
    intro state found
    contradiction

theorem removeRun (dead : Dead id pid files world) (swept : files.Swept id False)
    (updatedAt : String) (owner : Nat) :
    Passes id pid (fun completed later => (completed = true → Cleared id pid later) ∧
        ∀ pid, files.Owned pid → (later.directories id).Owned pid)
      (removeRun id updatedAt owner) world := by
  have bare {files : Directories} (swept : files.Swept id False) {change : Work → Work}
      (same : ∀ work, (change work).state = work.state) : (files.inWork change).Swept id False :=
    swept.imp (swept.inWork same).settled fun ⟨_, stated⟩ =>
      ⟨not_false, (state_inWork change same files).trans_ne stated⟩
  refine alter_bind dead (swept.inWork fun _ => rfl) fun later dead => ?_
  have swept : Swept id False files.removeWorkspace := bare swept fun _ => rfl
  refine alter_bind dead (swept.inWork fun _ => rfl) fun later dead => ?_
  have swept : Swept id False files.removeWorkspace.removeStaging := bare swept fun _ => rfl
  have state : files.removeWorkspace.removeStaging.state = files.state :=
    (state_removeStaging _).trans (state_removeWorkspace files)
  have found : (later.directories id).Swept id (pid ∈ later.living) := by
    rw [dead.2, eq_false dead.1]
    exact swept
  refine (Passes.finalizePublishedRun (.inr found)).bind fun finalized now => ?_
  rintro ⟨cleared, unpublished, owned⟩
  rw [dead.2] at owned
  cases finalized with
  | true =>
    refine fun last between => ⟨fun _ => (cleared dead.1 rfl).after between, fun pid mine => ?_⟩
    exact Awaits.owned between pid (owned pid (mine.of_state state))
  | false =>
    obtain ⟨seen, between, unpublished, after⟩ := unpublished rfl
    have dead' := dead.after between
    rw [dead'.2] at unpublished
    have stated := (swept.resolve_left fun settled => unpublished settled.1).2
    refine ((dead'.after after).abandonRun stated unpublished updatedAt owner).mono ?_
    exact fun _ _ ⟨cleared, owned⟩ => ⟨cleared, fun pid mine => owned pid (mine.of_state state)⟩

end Dead

namespace Passes

variable {id : String} {pid : Nat} {world : World}

theorem recoverRun (owned : (world.directories id).Owned pid) (updatedAt : String) :
    Passes id pid (fun completed later => (later.directories id).Owned pid ∧
        (Pending id pid world ∨ Cleared id pid world → completed = true → Cleared id pid later))
      (recoverRun id updatedAt) world := by
  refine look_bind fun seen between => ?_
  have owned' := Awaits.owned between pid owned
  split
  case h_1 none_ =>
    refine fun later after => ⟨Awaits.owned after pid owned', ?_⟩
    rintro (pending | cleared) -
    · obtain ⟨-, state, found, -⟩ := pending.after between
      rw [none_] at found
      contradiction
    · exact (cleared.after between).after after
  case h_2 state found =>
    split
    case isTrue terminal =>
      have ended : (seen.directories id).Terminal := ⟨state, found, terminal⟩
      have undue : ¬ (Pending id pid world ∨ Cleared id pid world) := by
        rintro (pending | cleared)
        · obtain ⟨-, state', found', running⟩ := pending.after between
          obtain rfl := Option.some.inj (found.symm.trans found')
          exact absurd terminal (by simp [running])
        · exact (cleared.after between).2.not_terminal ended
      have left := (Classical.em ((seen.directories id).Published id)).symm.imp
        (fun unpublished => And.intro ended unpublished)
        fun published => (Or.inl ⟨published, .inl ended⟩ : Swept id (pid ∈ seen.living) _)
      refine (finalizePublishedRun left).bind fun _ now ⟨_, _, owned⟩ => fun later after => ?_
      exact ⟨Awaits.owned after pid (owned pid owned'), fun due => absurd due undue⟩
    case isFalse running =>
      have mine : state.pid = pid := owned' state found
      refine observe_bind fun now after => ?_
      have between := between.trans after
      have owned' := Awaits.owned after pid owned'
      split
      case isTrue lives =>
        rw [mine] at lives
        refine fun later last => ⟨Awaits.owned last pid owned', ?_⟩
        rintro (pending | cleared) -
        · exact absurd lives (between.dead pending.1).1
        · exact absurd lives (between.dead cleared.1).1
      case isFalse gone =>
        rw [mine] at gone
        have stated : (seen.directories id).state ≠ none := by
          rw [found]
          exact Option.some_ne_none state
        have swept : (now.directories id).Swept id False :=
          (Awaits.stated after stated).symm.imp (fun settled => settled) fun stated => ⟨not_false, stated⟩
        refine (Dead.removeRun ⟨gone, rfl⟩ swept updatedAt state.pid).mono fun completed later => ?_
        exact fun ⟨cleared, owned⟩ => ⟨owned pid owned', fun _ => cleared⟩

end Passes

/-- What a program may see of one run. -/
def seen (id : String) (world : World) : Finset Nat × Directories :=
  (world.living, world.directories id)

section Elsewhere

variable {id other : String} {Result : Type}

theorem alter_leaves (apart : id ≠ other) (change : Directories → Directories) :
    Leaves (seen id) (alter other change) := by
  refine ⟨fun world => ?_, fun _ => trivial⟩
  exact congrArg (Prod.mk world.living) (World.directories_within_of_ne apart change world)

theorem observe_leaves : Leaves (seen id) (observe : Task World) :=
  ⟨fun _ => rfl, fun _ => trivial⟩

theorem look_leaves : Leaves (seen id) (look other) :=
  observe_leaves.bind fun _ => trivial

theorem updateRunState_leaves (apart : id ≠ other) (status : RunStateStatus) (updatedAt : String)
    (error : Option String) : Leaves (seen id) (updateRunState other status updatedAt error) := by
  refine look_leaves.bind fun files => ?_
  split
  · trivial
  · exact ((alter_leaves apart _).bind fun _ => alter_leaves apart _).bind fun _ => trivial

theorem finalizePublishedRun_leaves (apart : id ≠ other) :
    Leaves (seen id) (finalizePublishedRun other) := by
  have published : Leaves (seen id) (publishedRun other) := by
    refine look_leaves.bind fun files => ?_
    split
    · exact look_leaves.bind fun _ => trivial
    · trivial
  refine published.bind fun found => ?_
  split
  · exact (alter_leaves apart _).bind fun _ => (alter_leaves apart _).bind fun _ => trivial
  · trivial

theorem removeRun_leaves (apart : id ≠ other) (updatedAt : String) (owner : Nat) :
    Leaves (seen id) (removeRun other updatedAt owner) := by
  have abandoned : Leaves (seen id) (abandonRun other updatedAt owner) := by
    refine (alter_leaves apart _).bind fun _ => (updateRunState_leaves apart _ _ _).bind fun updated => ?_
    split
    · exact (alter_leaves apart _).bind fun _ => trivial
    · trivial
  refine (alter_leaves apart _).bind fun _ => (alter_leaves apart _).bind fun _ => ?_
  refine (finalizePublishedRun_leaves apart).bind fun finalized => ?_
  split
  · trivial
  · exact abandoned

theorem recoverRun_leaves (apart : id ≠ other) (updatedAt : String) :
    Leaves (seen id) (recoverRun other updatedAt) := by
  refine look_leaves.bind fun files => ?_
  split
  · trivial
  split
  · exact (finalizePublishedRun_leaves apart).bind fun _ => trivial
  refine observe_leaves.bind fun world => ?_
  split
  · trivial
  · exact removeRun_leaves apart updatedAt _

end Elsewhere

/-- What is known of the run while a pass still has the ids to go. -/
structure Owing (id : String) (pid : Nat) (due : Prop) (ids : List String) (world : World) : Prop where
  owned : (world.directories id).Owned pid
  due : due → Pending id pid world ∧ id ∈ ids ∨ Cleared id pid world

namespace Owing

variable {id : String} {pid : Nat} {due : Prop} {ids : List String} {world later : World}

theorem after (owing : Owing id pid due ids world) (between : PassRelies id pid world later) :
    Owing id pid due ids later where
  owned := Awaits.owned between pid owing.owned
  due isDue := (owing.due isDue).imp
    (fun pending => ⟨pending.1.after between, pending.2⟩) fun cleared => cleared.after between

theorem of_seen (owing : Owing id pid due ids world) (same : seen id later = seen id world) :
    Owing id pid due ids later := by
  obtain ⟨living, files⟩ := Prod.mk.inj same
  refine owing.after ?_
  unfold PassRelies
  rw [living, files]
  exact .same (fun lives => lives) _

end Owing

namespace Passes

variable {id : String} {pid : Nat} {world : World} {due : Prop}

theorem recoverRuns (updatedAt : String) {ids : List String} (owing : Owing id pid due ids world) :
    Passes id pid (fun completed later => due → completed = true → Cleared id pid later)
      (recoverRuns updatedAt ids) world := by
  induction ids generalizing world with
  | nil =>
    refine fun later between isDue _ => ?_
    obtain ⟨-, listed⟩ | cleared := (owing.after between).due isDue
    · contradiction
    · exact cleared
  | cons other ids ih =>
    by_cases same : id = other
    · subst same
      refine (recoverRun owing.owned updatedAt).bind fun completed later ⟨owned, cleared⟩ => ?_
      cases completed with
      | false => exact fun _ _ _ => nofun
      | true =>
        refine ih ⟨owned, fun isDue => .inr (cleared ?_ rfl)⟩
        exact (owing.due isDue).imp_left And.left
    · have leaves := recoverRun_leaves same updatedAt
      refine bind (leaves.meets (P := Owing id pid due (other :: ids)) (fun owing => owing.after)
        (fun owing seen => ⟨?_, owing.of_seen seen⟩) owing) fun completed later owing => ?_
      · obtain ⟨living, files⟩ := Prod.mk.inj seen
        refine ⟨living, ?_⟩
        rw [files]
        exact .refl _ _
      cases completed with
      | false => exact fun _ _ _ => nofun
      | true =>
        refine ih ⟨owing.owned, fun isDue => (owing.due isDue).imp_left fun ⟨pending, listed⟩ => ?_⟩
        exact ⟨pending, (List.mem_cons.mp listed).resolve_left same⟩

theorem recoverAbandonedRuns (owned : (world.directories id).Owned pid) {ids : List String}
    (listed : id ∈ ids) (updatedAt : String) :
    Passes id pid
      (fun completed later => Pending id pid world → completed = true → Cleared id pid later)
      (recoverAbandonedRuns ids updatedAt) world := by
  refine observe_bind fun later between => recoverRuns updatedAt ⟨Awaits.owned between pid owned, ?_⟩
  intro pending
  have pending := pending.after between
  refine .inl ⟨pending, List.mem_filter.mpr ⟨listed, ?_⟩⟩
  obtain ⟨-, state, found, -⟩ := pending
  obtain ⟨work, stored, -⟩ := Option.bind_eq_some_iff.mp found
  rw [stored]
  rfl

end Passes
end Supercov.Lifecycle
