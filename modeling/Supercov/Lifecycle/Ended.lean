import Supercov.Lifecycle.Shared

/-!
# The run's own side

While its process lives and its state is not terminal nothing else touches what the store
has of a run, so its programs find what they left.
-/

namespace Supercov.Lifecycle

open Interleaved Directories

def RunRelies (id : String) (pid : Nat) (world later : World) : Prop :=
  (pid ∈ world.living → pid ∈ later.living) ∧
    Sweeps id (pid ∈ world.living) (world.directories id) (later.directories id)

def RunGuarantees (sha256 : List UInt8 → List UInt8) (publication : Publication)
    (world later : World) : Prop :=
  later.living = world.living ∧ Publishes sha256 publication
    (world.directories publication.id) (later.directories publication.id)

/-- The process lives, and since its store had the files only passes touched them. -/
def Since (id : String) (pid : Nat) (files : Directories) (world : World) : Prop :=
  ∃ before : World, pid ∈ before.living ∧ before.directories id = files ∧
    RunRelies id pid before world

namespace RunRelies

variable {id : String} {pid : Nat} {first second third : World}

theorem refl (world : World) : RunRelies id pid world world :=
  ⟨fun lives => lives, .refl _ _⟩

theorem trans (between : RunRelies id pid first second) (after : RunRelies id pid second third) :
    RunRelies id pid first third :=
  ⟨fun lives => after.1 (between.1 lives), between.2.trans (after.2.of_lives between.1)⟩

end RunRelies

namespace Since

variable {id : String} {pid : Nat} {files : Directories} {world later : World}

theorem now (lives : pid ∈ world.living) : Since id pid (world.directories id) world :=
  ⟨world, lives, rfl, .refl world⟩

theorem lives (since : Since id pid files world) : pid ∈ world.living := by
  obtain ⟨before, lives, -, between⟩ := since
  exact between.1 lives

theorem after (since : Since id pid files world) (between : RunRelies id pid world later) :
    Since id pid files later := by
  obtain ⟨before, lives, same, earlier⟩ := since
  exact ⟨before, lives, same, earlier.trans between⟩

theorem directories_eq (since : Since id pid files world) (quiet : files.Quiet id) :
    world.directories id = files := by
  obtain ⟨before, lives, rfl, between⟩ := since
  exact between.2.quiet lives quiet

theorem published (since : Since id pid files world) (published : files.Published id) :
    (world.directories id).Published id := by
  obtain ⟨before, lives, rfl, between⟩ := since
  exact published.of_run between.2.run

end Since

/-- The run's program does what it guarantees, and ends with what `post` says. -/
abbrev Runs (sha256 : List UInt8 → List UInt8) (publication : Publication) (pid : Nat)
    {Result : Type} (post : Result → World → Prop) (program : Task Result) (world : World) : Prop :=
  Meets (RunRelies publication.id pid) (RunGuarantees sha256 publication) post program world

namespace Runs

variable {sha256 : List UInt8 → List UInt8} {publication : Publication} {pid : Nat}
  {files : Directories} {world : World} {Result Final : Type}

theorem done {post : Result → World → Prop} {result : Result}
    (holds : ∀ later, Since publication.id pid files later → post result later)
    (since : Since publication.id pid files world) :
    Runs sha256 publication pid post (.done result) world :=
  fun later between => holds later (since.after between)

theorem look_bind {post : Result → World → Prop} {next : Directories → Task Result}
    (since : Since publication.id pid files world)
    (meets : ∀ later, Since publication.id pid files later →
      Runs sha256 publication pid post (next (later.directories publication.id)) later) :
    Runs sha256 publication pid post (look publication.id >>= next) world :=
  fun later between => ⟨⟨rfl, .refl _ _ _⟩, meets later (since.after between)⟩

theorem altered (change : Directories → Directories)
    (since : Since publication.id pid files world) (quiet : files.Quiet publication.id)
    (made : Publishes sha256 publication files (change files)) :
    RunGuarantees sha256 publication world (world.within publication.id change) ∧
      Since publication.id pid (change files) (world.within publication.id change) := by
  have same := since.directories_eq quiet
  have changed : (world.within publication.id change).directories publication.id = change files := by
    rw [World.directories_within, same]
  refine ⟨⟨rfl, ?_⟩, ?_⟩
  · rw [changed, same]
    exact made
  · rw [← changed]
    exact .now since.lives

theorem alter_bind {post : Result → World → Prop} {next : Task Result}
    {change : Directories → Directories} (since : Since publication.id pid files world)
    (quiet : files.Quiet publication.id) (made : Publishes sha256 publication files (change files))
    (meets : ∀ later, Since publication.id pid (change files) later →
      Runs sha256 publication pid post next later) :
    Runs sha256 publication pid post (alter publication.id change >>= fun _ => next) world := by
  intro later between
  obtain ⟨kept, since⟩ := altered change (since.after between) quiet made
  exact ⟨kept, meets _ since⟩

theorem alter {change : Directories → Directories} (since : Since publication.id pid files world)
    (quiet : files.Quiet publication.id) (made : Publishes sha256 publication files (change files)) :
    Runs sha256 publication pid (fun _ => Since publication.id pid (change files))
      (alter publication.id change) world := by
  intro later between
  obtain ⟨kept, since⟩ := altered change (since.after between) quiet made
  exact ⟨kept, fun last between => since.after between⟩

theorem stable {post : Result → World → Prop} {program : Task Result} {later : World}
    (runs : Runs sha256 publication pid post program world)
    (between : RunRelies publication.id pid world later) :
    Runs sha256 publication pid post program later :=
  Meets.stable (RunRelies publication.id pid) RunRelies.trans runs between

theorem bind {middle : Result → World → Prop} {post : Final → World → Prop} {program : Task Result}
    {next : Result → Task Final} (meets : Runs sha256 publication pid middle program world)
    (then_ : ∀ result later, middle result later →
      Runs sha256 publication pid post (next result) later) :
    Runs sha256 publication pid post (program >>= next) world :=
  Meets.bind (RunRelies publication.id pid) (fun _ => .refl _) meets then_

end Runs

theorem publishes_of_working {sha256 : List UInt8 → List UInt8} {publication : Publication}
    {files later : Directories} (working : ¬ files.Terminal)
    (busy : files.run = none ∨ files.state ≠ none) (run : later.run = files.run)
    (state : later.state = files.state) (evidence : later.evidence = files.evidence) :
    Publishes sha256 publication files later where
  run := .inl run
  owned pid owned := owned.of_state state
  evidence none_ := evidence.trans none_
  stated some_ := .inl (state ▸ some_)
  ended terminal := absurd terminal working
  settled settled := by
    obtain none_ | some_ := busy
    · exact absurd none_ settled.1.run_ne_none
    · exact absurd ((settled.2.resolve_left working).state_eq) some_

theorem quiet_of_working {id : String} {files : Directories} (working : ¬ files.Terminal) :
    files.Quiet id := fun ended => working ended.1

namespace Directories

theorem staging_inStaging (change : RunDirectory → RunDirectory) (files : Directories) :
    (files.inStaging change).staging = files.staging.map change := by
  obtain ⟨work, evidence, run⟩ := files
  cases work <;> rfl

theorem state_inStaging (change : RunDirectory → RunDirectory) (files : Directories) :
    (files.inStaging change).state = files.state :=
  state_inWork (fun work => { work with staging := work.staging.map change }) (fun _ => rfl) files

theorem state_createStaging (files : Directories) : files.createStaging.state = files.state := by
  obtain ⟨work, evidence, run⟩ := files
  cases work <;> rfl

end Directories

/-- The run is not published yet, and what it staged is as `P` says. -/
structure Staged (P : RunDirectory → Prop) (files : Directories) : Prop where
  unpublished : files.run = none
  working : ¬ files.Terminal
  staging : ∃ staging, files.staging = some staging ∧ P staging

namespace Staged

variable {P Q : RunDirectory → Prop} {files : Directories}

theorem publishes {sha256 : List UInt8 → List UInt8} {publication : Publication}
    {later : Directories} (staged : Staged P files) (run : later.run = none)
    (state : later.state = files.state) (evidence : later.evidence = files.evidence) :
    Publishes sha256 publication files later :=
  publishes_of_working staged.working (.inl staged.unpublished) (run.trans staged.unpublished.symm)
    state evidence

theorem inStaging (staged : Staged P files) {change : RunDirectory → RunDirectory}
    (leads : ∀ staging, P staging → Q (change staging)) : Staged Q (files.inStaging change) where
  unpublished := staged.unpublished
  working terminal := staged.working (terminal.of_state (state_inStaging change files).symm)
  staging := by
    obtain ⟨staging, found, holds⟩ := staged.staging
    refine ⟨change staging, ?_, leads staging holds⟩
    rw [staging_inStaging, found]
    rfl

end Staged

/-- What a publication ends with: the state is as it was, and the run published or not. -/
def Tried (publication : Publication) (pid : Nat) (published : Bool) (world : World) : Prop :=
  ∃ files, Since publication.id pid files world ∧ ¬ files.Terminal ∧
    (published = true → files.Published publication.id)

def Staging (publication : Publication) (pid : Nat) (P : RunDirectory → Prop) (world : World) : Prop :=
  ∃ files, Since publication.id pid files world ∧ Staged P files

namespace Directories.Published

variable {sha256 : List UInt8 → List UInt8} {publication : Publication} {files : Directories}

theorem removeEvidence (published : files.Published publication.id) :
    Publishes sha256 publication files files.removeEvidence where
  run := .inl rfl
  owned _ owned := owned
  evidence _ := rfl
  stated some_ := .inl some_
  ended _ unpublished := absurd published unpublished
  settled settled := ⟨published, settled.2.imp (fun terminal => terminal) fun gone => ⟨gone.1, rfl⟩⟩

theorem removeWork (published : files.Published publication.id) (none_ : files.evidence = false) :
    Publishes sha256 publication files files.removeWork where
  run := .inl rfl
  owned _ _ := by
    intro state found
    contradiction
  evidence none_ := none_
  stated _ := .inr ⟨published, .inr ⟨rfl, none_⟩⟩
  ended _ unpublished := absurd published unpublished
  settled _ := ⟨published, .inr ⟨rfl, none_⟩⟩

end Directories.Published

namespace Runs

variable {sha256 : List UInt8 → List UInt8} {publication : Publication} {pid : Nat}
  {world : World} {Result : Type} {P Q : RunDirectory → Prop}

theorem stage {change : RunDirectory → RunDirectory} (staging : Staging publication pid P world)
    (leads : ∀ staging, P staging → Q (change staging)) :
    Runs sha256 publication pid (fun _ => Staging publication pid Q)
      (Lifecycle.alter publication.id (.inStaging change)) world := by
  obtain ⟨files, since, staged⟩ := staging
  have later := staged.inStaging leads
  refine (alter since (quiet_of_working staged.working) ?_).mono fun _ _ since => ⟨_, since, later⟩
  exact staged.publishes later.unpublished (state_inStaging change files) rfl

theorem clearStaging (staging : Staging publication pid P world) :
    Runs sha256 publication pid (Tried publication pid) (clearStaging publication.id) world := by
  obtain ⟨files, since, staged⟩ := staging
  have same := state_removeStaging files
  refine alter_bind since (quiet_of_working staged.working)
    (staged.publishes staged.unpublished same rfl) fun later since => ?_
  refine done (fun last since => ⟨_, since, ?_, nofun⟩) since
  exact fun terminal => staged.working (terminal.of_state same.symm)

theorem copyPieces (pieces : List (List UInt8)) {copied : List UInt8}
    (staging : Staging publication pid (·.evidence = some copied) world) :
    Runs sha256 publication pid
      (fun _ => Staging publication pid (·.evidence = some (copied ++ pieces.flatten)))
      (copyPieces publication.id pieces) world := by
  induction pieces generalizing copied world with
  | nil =>
    obtain ⟨files, since, staged⟩ := staging
    refine done (fun last since => ⟨files, since, ?_⟩) since
    simpa using staged
  | cons piece pieces ih =>
    refine (stage staging (Q := (·.evidence = some (copied ++ piece))) ?_).bind fun _ later staging => ?_
    · rintro staged found
      simp [found]
    · simpa using ih staging

theorem copyRegularFile (pieces : List (List UInt8))
    (staging : Staging publication pid P world) :
    Runs sha256 publication pid
      (fun _ => Staging publication pid (·.evidence = some pieces.flatten))
      (copyRegularFile publication.id pieces) world := by
  refine (stage staging (Q := (·.evidence = some [])) fun _ _ => rfl).bind fun _ later staging => ?_
  exact copyPieces pieces staging

def Copied (sha256 : List UInt8 → List UInt8) (publication : Publication)
    (directory : RunDirectory) : Prop :=
  ∃ evidence, directory.evidence = some evidence ∧
    evidence.length = publication.metadata.compressedBytes ∧
    sha256 evidence = sha256 publication.hashed

theorem rename_eq {files : Directories} (staged : Staged (Complete sha256 publication) files) :
    ∃ later, files.rename = some later ∧ ¬ later.Terminal ∧ later.Published publication.id ∧
      Publishes sha256 publication files later := by
  obtain ⟨directory, found, complete⟩ := staged.staging
  have same : { files.removeStaging with run := some directory }.state = files.state :=
    state_removeStaging files
  have published : Directories.Published publication.id
      { files.removeStaging with run := some directory } := by
    obtain ⟨evidence, copied, -⟩ := complete.evidence
    exact ⟨directory, rfl, ⟨publication.metadata, complete.metadata, rfl⟩, by rw [copied]; rfl⟩
  refine ⟨{ files.removeStaging with run := some directory }, ?_, ?_, published, ?_⟩
  · rw [rename, found, staged.unpublished]
  · exact fun terminal => staged.working (terminal.of_state same.symm)
  · exact {
      run := .inr ⟨staged.unpublished, directory, rfl, complete⟩
      owned := fun pid owned => owned.of_state same
      evidence := fun none_ => none_
      stated := fun some_ => .inl (same ▸ some_)
      ended := fun terminal => absurd terminal staged.working
      settled := fun settled => absurd staged.unpublished settled.1.run_ne_none }

theorem rename (staging : Staging publication pid (Complete sha256 publication) world) :
    Runs sha256 publication pid (Tried publication pid)
      (attempt (World.withinSome publication.id Directories.rename)) world := by
  obtain ⟨files, since, staged⟩ := staging
  obtain ⟨renamed, made, working, published, publishes⟩ := rename_eq staged
  intro later between
  have since := since.after between
  have same := since.directories_eq (quiet_of_working staged.working)
  have changed : World.withinSome publication.id Directories.rename later =
      some (later.within publication.id fun _ => renamed) := by
    rw [World.withinSome, same, made]
    rfl
  beta_reduce
  rw [changed]
  obtain ⟨kept, since⟩ :=
    altered (fun _ => renamed) since (quiet_of_working staged.working) publishes
  exact ⟨kept, fun last between => ⟨renamed, since.after between, working, fun _ => published⟩⟩

theorem writeMetadata (staging : Staging publication pid (Copied sha256 publication) world) :
    Runs sha256 publication pid (fun _ => Staging publication pid (Complete sha256 publication))
      (atomicWrite publication.id (fun change => .inStaging fun staging =>
        { staging with metadata := change staging.metadata }) publication.metadata) world := by
  refine (stage staging (Q := fun directory => Copied sha256 publication directory ∧
    directory.metadata.temporary = some publication.metadata) ?_).bind
      fun _ later staging => stage staging ?_
  · exact fun directory copied => ⟨copied, rfl⟩
  · rintro directory ⟨copied, written⟩
    refine ⟨?_, copied⟩
    simp [Written.replace, written]

theorem publishStaged (staging : Staging publication pid (Copied sha256 publication) world) :
    Runs sha256 publication pid (Tried publication pid) (publishStaged publication) world := by
  refine (writeMetadata staging).bind fun _ later staging => ?_
  split
  · exact rename staging
  · exact clearStaging staging

theorem stageRun {files : Directories} (since : Since publication.id pid files world)
    (unpublished : files.run = none) (working : ¬ files.Terminal) :
    Runs sha256 publication pid (Tried publication pid) (stageRun sha256 publication) world := by
  have same := state_createStaging files
  refine alter_bind since (quiet_of_working working)
    (publishes_of_working working (.inl unpublished) rfl same rfl) fun later since => ?_
  have staging : Staging publication pid (fun _ => True) later :=
    ⟨_, since, unpublished, fun terminal => working (terminal.of_state same.symm), _, rfl, trivial⟩
  refine (copyRegularFile publication.pieces staging).bind fun _ later staging => ?_
  split
  case isFalse => exact clearStaging staging
  case isTrue length =>
    obtain ⟨files, since, staged⟩ := staging
    refine look_bind since fun later since => ?_
    have found := since.directories_eq (quiet_of_working staged.working)
    rw [found]
    split
    case isFalse => exact clearStaging ⟨files, since, staged⟩
    case isTrue sameEvidence =>
      obtain ⟨directory, staging, evidence⟩ := staged.staging
      have hashed : sha256 publication.pieces.flatten = sha256 publication.hashed := by
        simpa [Lifecycle.sameEvidence, staging, evidence] using sameEvidence
      refine publishStaged ⟨files, since, staged.unpublished, staged.working, directory, staging, ?_⟩
      exact ⟨_, evidence, length, hashed⟩

theorem publishRun {files : Directories} (since : Since publication.id pid files world)
    (working : ¬ files.Terminal) :
    Runs sha256 publication pid (Tried publication pid) (publishRun sha256 publication) world := by
  have quiet : files.Quiet publication.id := quiet_of_working working
  refine look_bind since fun later since => ?_
  rw [since.directories_eq quiet]
  split
  case isTrue => exact done (fun last since => ⟨files, since, working, nofun⟩) since
  case isFalse unpublished =>
    have unpublished : files.run = none := by simpa using unpublished
    refine look_bind since fun later since => ?_
    rw [since.directories_eq quiet]
    split
    case isFalse => exact stageRun since unpublished working
    case isTrue =>
      have same := state_removeStaging files
      refine alter_bind since quiet
        (publishes_of_working working (.inl unpublished) rfl same rfl) fun later since => ?_
      exact stageRun since unpublished fun terminal => working (terminal.of_state same.symm)

theorem updateRunState {files : Directories} (since : Since publication.id pid files world)
    (working : ¬ files.Terminal) (status : RunStateStatus) (updatedAt : String)
    (error : Option String) :
    Runs sha256 publication pid
      (fun updated world => ∃ later, Since publication.id pid later world ∧ later.run = files.run ∧
        (status.terminal = false → ¬ later.Terminal) ∧ (updated = false → ¬ later.Terminal))
      (updateRunState publication.id status updatedAt error) world := by
  have quiet : files.Quiet publication.id := quiet_of_working working
  refine look_bind since fun later since => ?_
  rw [since.directories_eq quiet]
  split
  case h_1 => exact done (fun last since => ⟨files, since, rfl, fun _ => working, fun _ => working⟩) since
  case h_2 state found =>
    have some_ : files.state ≠ none := by
      rw [found]
      exact Option.some_ne_none state
    let updated : RunState := { state with status, updatedAt, error }
    let prepared := files.inWork fun work => { work with state := work.state.prepare updated }
    let replaced := prepared.inWork fun work => { work with state := work.state.replace }
    have same : prepared.state = files.state := by
      obtain ⟨work, evidence, run⟩ := files
      cases work <;> rfl
    have written : replaced.state = some updated := state_replaced found updated
    have working' : ¬ prepared.Terminal := fun terminal => working (terminal.of_state same.symm)
    have first : Publishes sha256 publication files prepared :=
      publishes_of_working working (.inr some_) rfl same rfl
    have second : Publishes sha256 publication prepared replaced := {
      run := .inl rfl
      owned := by
        intro pid owned state' mine
        rw [written] at mine
        obtain rfl := Option.some.inj mine
        exact owned state (same.trans found)
      evidence := fun none_ => none_
      stated := fun _ => .inl (by rw [written]; exact Option.some_ne_none updated)
      ended := fun terminal => absurd terminal working'
      settled := fun settled => by
        have gone := settled.2.resolve_left working'
        exact absurd (same.symm.trans gone.state_eq) some_ }
    have ended : status.terminal = false → ¬ replaced.Terminal := by
      rintro running ⟨state', mine, terminal⟩
      rw [written] at mine
      obtain rfl := Option.some.inj mine
      exact absurd terminal (by simp [updated, running])
    refine bind (alter_bind since quiet first fun later since =>
      alter since (quiet_of_working working') second) fun _ later since => ?_
    exact done (fun last since => ⟨replaced, since, rfl, ended, nofun⟩) since

theorem publishedRun {files : Directories} (since : Since publication.id pid files world) :
    Runs sha256 publication pid (fun _ => Since publication.id pid files)
      (publishedRun publication.id) world := by
  refine look_bind since fun later since => ?_
  split
  · refine look_bind since fun later since => ?_
    exact done (fun last since => since) since
  · exact done (fun last since => since) since

theorem removeAll {post : Result → World → Prop} {result : Result} {files : Directories}
    (since : Since publication.id pid files world) (published : files.Published publication.id)
    (holds : ∀ later, post result later) :
    Runs sha256 publication pid post (do
      Lifecycle.alter publication.id .removeEvidence
      Lifecycle.alter publication.id .removeWork
      .done result) world := by
  intro later between
  have since := since.after between
  have found := since.published published
  refine ⟨⟨rfl, ?_⟩, fun last between => ?_⟩
  · rw [World.directories_within]
    exact found.removeEvidence
  have none_ : (last.directories publication.id).evidence = false := by
    refine between.2.evidence ?_
    rw [World.directories_within]
    rfl
  have found : (last.directories publication.id).Published publication.id := by
    refine Directories.Published.of_run between.2.run ?_
    rw [World.directories_within]
    exact found
  refine ⟨⟨rfl, ?_⟩, fun last between => holds last⟩
  rw [World.directories_within]
  exact found.removeWork none_

theorem finalizePublishedRun {files : Directories} (since : Since publication.id pid files world)
    (published : files.Published publication.id) :
    Runs sha256 publication pid (fun _ _ => True) (finalizePublishedRun publication.id) world := by
  refine (publishedRun since).bind fun found later since => ?_
  cases found with
  | true => exact removeAll since published fun _ => trivial
  | false => exact done (fun _ _ => trivial) since

theorem dropRun {files : Directories} (since : Since publication.id pid files world)
    (working : ¬ files.Terminal) (startedAt : String) :
    Runs sha256 publication pid (fun _ _ => True) (dropRun publication.id startedAt) world :=
  (updateRunState since working _ _ _).bind fun _ _ ⟨_, since, _⟩ => done (fun _ _ => trivial) since

theorem endRun {files : Directories} (since : Since publication.id pid files world)
    (working : ¬ files.Terminal) (startedAt : String) :
    Runs sha256 publication pid (fun _ _ => True) (endRun sha256 publication startedAt) world := by
  unfold Lifecycle.endRun
  split
  case h_1 =>
    refine (publishRun since working).bind fun ok later ⟨files, since, working, published⟩ => ?_
    cases ok with
    | true =>
      refine (finalizePublishedRun since (published rfl)).bind fun _ _ _ => ?_
      exact fun _ _ => trivial
    | false => exact done (fun _ _ => trivial) since
  case h_2 status =>
    refine (updateRunState since working _ _ _).bind fun ok later ⟨files, since, _, running, _⟩ => ?_
    have working := running rfl
    cases ok with
    | false => exact dropRun since working startedAt
    | true =>
      refine (publishRun since working).bind fun ok later ⟨files, since, working, published⟩ => ?_
      cases ok with
      | false => exact dropRun since working startedAt
      | true =>
        refine (updateRunState since working _ _ _).bind
          fun ok later ⟨files, since, same, _, unstated⟩ => ?_
        cases ok with
        | false => exact dropRun since (unstated rfl) startedAt
        | true =>
          refine (finalizePublishedRun since ((published rfl).of_run same)).bind fun _ _ _ => ?_
          exact fun _ _ => trivial

end Runs

end Supercov.Lifecycle
