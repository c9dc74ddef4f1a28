import Supercov.Workspace.Copies
import Mathlib.Logic.Relation

/-!
# Preparations of the cached copy

Whatever fails and wherever a preparation is killed, the copy is whole and is the one that was there
or the new one; where nothing fails the new one is left alone.
-/

namespace Supercov.CachedWorkspace

open Interleaved

section Preparation

/-- The copy a recovery has left, alone in its directory. -/
structure Stands (began : World) (workspace : Option Tree) : Prop where
  whole : ∀ tree, workspace = some tree → tree.missing = 0
  same : workspace = began.container.copy

variable {workspace : Option Tree} {container : Container} {tree : Tree} {awaited : Option Nat}
  {began world : World}

theorem Stands.beside (stands : Stands began workspace) (staging : List (Nat × Tree)) :
    Sound began ⟨workspace, staging, []⟩ none :=
  ⟨stands.whole, by simp, Nat.zero_le 1, by simp, .inl (Option.or_none.trans stands.same)⟩

def Made (began : World) (workspace : Option Tree) (done : Bool) (later : World) : Prop :=
  ∃ staging, At ⟨workspace, staging, []⟩ (began.unique + 1) none later ∧
    (done = true → ∃ tree, staging = [(began.unique, tree)] ∧ tree.missing = 0 ∧
      tree.preparation = began.unique)

theorem calls_writes (stands : Stands began workspace)
    (here : At ⟨workspace, [(began.unique, tree)], []⟩ (began.unique + 1) none world)
    (made : tree.preparation = began.unique) (count : Nat) (missing : tree.missing = count) :
    Calls began (Made began workspace) (writes began.unique count) world := by
  induction count generalizing tree world with
  | zero => exact .pure here fun last here => ⟨_, here, fun _ => ⟨tree, rfl, missing, made⟩⟩
  | succ count ih =>
    have changes : Container.write ⟨workspace, [(began.unique, tree)], []⟩ began.unique =
        some ⟨workspace, [(began.unique, { tree with missing := tree.missing - 1 })], []⟩ := by
      simp [Container.write]
    refine calls_then (·.write began.unique) here (stands.beside _) ?_ ?_ ?_
    · rintro left ⟨⟩
      exact stands.beside _
    · intro left later writes _ there
      cases changes.symm.trans writes
      exact ih there made (congrArg (· - 1) missing)
    · rintro left later (⟨⟨⟩⟩ | rfl) - there
      · exact .pure there fun last there => ⟨_, there, nofun⟩
      · exact .pure there fun last there => ⟨_, there, nofun⟩

theorem calls_copyTree (stands : Stands began workspace)
    (here : At ⟨workspace, [], []⟩ (began.unique + 1) none world) (count : Nat) :
    Calls began (Made began workspace) (copyTree began.unique count) world := by
  refine calls_then (·.make began.unique count) here (stands.beside _) ?_ ?_ ?_
  · rintro left ⟨⟩
    exact stands.beside _
  · rintro left later ⟨⟩ - there
    exact calls_writes stands there rfl count rfl
  · rintro left later (⟨⟨⟩⟩ | rfl) - there
    · exact .pure there fun last there => ⟨_, there, nofun⟩
    · exact .pure there fun last there => ⟨_, there, nofun⟩

def Exchanged (began : World) (done : Bool) (later : World) : Prop :=
  ∃ left, Sound began left none ∧ At left (began.unique + 1) none later ∧
    (done = true → ∃ tree, left.workspace = some tree ∧ tree.preparation = began.unique)

theorem calls_failed (sound : Sound began container none)
    (here : At container (began.unique + 1) none world) :
    Calls began (Exchanged began) (pure false) world :=
  .pure here fun _ here => ⟨container, sound, here, nofun⟩

theorem calls_putBack (sound : Sound began container none)
    (here : At container (began.unique + 1) none world) (movedPrevious : Bool) :
    Calls began (Exchanged began) (putBack began.unique movedPrevious) world := by
  rw [putBack]
  split
  · refine calls_seen here sound (fun last _ here => calls_failed sound here) fun last here => ?_
    refine (calls_operate (·.place .previous began.unique) here sound (sound.restores _)).bind ?_
    rintro done last ⟨left, sound, there, -⟩
    exact calls_failed sound there
  · exact calls_failed sound here

theorem Sound.publishes (sound : Sound began container none)
    (staging : container.staging = [(began.unique, tree)]) (whole : tree.missing = 0)
    (made : tree.preparation = began.unique) (changed : Container)
    (places : container.place .staging began.unique = some changed) :
    Sound began changed none ∧ changed.workspace = some tree := by
  obtain ⟨-, other, looks, rfl⟩ := place_eq_some places
  have same : other = tree := by
    simpa [Container.trees, staging, eq_comm] using looks
  rw [same]
  refine ⟨⟨?_, sound.aside, sound.alone, by simp, .inr ⟨tree, rfl, made⟩⟩, rfl⟩
  rintro tree ⟨⟩
  exact whole

theorem calls_publish (sound : Sound began container none)
    (here : At container (began.unique + 1) none world)
    (staging : container.staging = [(began.unique, tree)]) (whole : tree.missing = 0)
    (made : tree.preparation = began.unique) (movedPrevious : Bool) :
    Calls began (Exchanged began) (publish began.unique movedPrevious) world := by
  have publishes := sound.publishes staging whole made
  refine calls_then (·.place .staging began.unique) here sound
    (fun changed places => (publishes changed places).1) ?_ ?_
  · intro left later places sound' there
    have placed := (publishes left places).2
    have settled : left.Settled := .inl (placed ▸ rfl)
    refine calls_seen there sound' (fun last _ there => ?_) fun last there => ?_
    · refine (calls_operate (·.remove .previous began.unique) there sound'
        (sound'.removes settled _ _)).mono ?_
      rintro done last ⟨left, sound'', there, changes⟩
      refine ⟨left, sound'', there, fun _ => ⟨tree, ?_, made⟩⟩
      rcases changes with ⟨⟨⟩⟩ | ⟨-, rfl⟩
      · exact placed
      · exact placed
    · exact .pure there fun last there => ⟨left, sound', there, fun _ => ⟨tree, placed, made⟩⟩
  · intro left later _ sound' there
    exact calls_putBack sound' there movedPrevious

theorem calls_exchange (stands : Stands began workspace)
    (here : At ⟨workspace, [(began.unique, tree)], []⟩ (began.unique + 1) none world)
    (whole : tree.missing = 0) (made : tree.preparation = began.unique) :
    Calls began (Exchanged began) (exchange began.unique) world := by
  have beside := stands.beside [(began.unique, tree)]
  refine calls_seen here beside (fun later there here => ?_) fun later here =>
    calls_publish beside here rfl whole made false
  obtain ⟨present, rfl⟩ := Option.isSome_iff_exists.mp there
  have aside : Sound began ⟨none, [(began.unique, tree)], [(began.unique, present)]⟩ none := by
    refine ⟨by simp, fun entry member => ?_, le_refl 1, by simp, .inl stands.same⟩
    cases List.mem_singleton.mp member
    exact stands.whole present rfl
  refine calls_then (·.setAside began.unique) here beside ?_ ?_ ?_
  · rintro left ⟨⟩
    exact aside
  · rintro left last ⟨⟩ sound there
    exact calls_publish sound there rfl whole made true
  · intro left last _ sound there
    exact calls_failed sound there

/-- What a preparation ends with: completed, the copy to find is the one it made. -/
def Prepared (began : World) (done : Bool) (later : World) : Prop :=
  done = true → later.awaited = some began.unique

theorem Sound.unstaged (sound : Sound began container awaited) (changed : Container)
    (removes : container.remove .staging began.unique = some changed) :
    Sound began changed awaited := by
  cases removes
  exact ⟨sound.whole, sound.aside, sound.alone, sound.awaits, sound.kept⟩

theorem calls_clear (sound : Sound began container none)
    (here : At container (began.unique + 1) none world) :
    Calls began (fun _ later => ∃ left, Sound began left none ∧
      At left (began.unique + 1) none later ∧ left.workspace = container.workspace)
      (clear began.unique) world := by
  refine calls_seen here sound (fun later _ here => ?_) fun later here =>
    .pure here fun last here => ⟨container, sound, here, rfl⟩
  refine (calls_operate (·.remove .staging began.unique) here sound sound.unstaged).mono ?_
  rintro done last ⟨left, sound', there, changes⟩
  refine ⟨left, sound', there, ?_⟩
  rcases changes with ⟨⟨⟩⟩ | ⟨-, rfl⟩
  · rfl
  · rfl

theorem calls_finish (prepared : Bool) (exchanged : Exchanged began prepared world) :
    Calls began (Prepared began) (finish began.unique prepared) world := by
  obtain ⟨container, sound, here, placed⟩ := exchanged
  refine (calls_clear sound here).bind ?_
  rintro clean later ⟨left, sound, here, same⟩
  split
  · next both =>
    have sound' : Sound began left (some began.unique) :=
      { sound with
        awaits := by
          rintro preparation ⟨⟩
          exact same ▸ placed (Bool.and_eq_true_iff.mp both).1 }
    refine calls_step here sound' (fun later here => ⟨here.container, here.unique, rfl⟩)
      fun later here => ?_
    have there : At left (began.unique + 1) (some began.unique)
        { later with awaited := some began.unique } := ⟨here.container, here.unique, rfl⟩
    exact .pure there fun last there _ => there.awaited
  · exact .pure here fun last here => nofun

theorem Sound.copy_whole (sound : Sound began container awaited) :
    ∀ tree, container.copy = some tree → tree.missing = 0 := by
  intro tree copy
  rw [Container.copy, newestFirst_alone sound.alone] at copy
  rcases Option.or_eq_some_iff.mp copy with there | ⟨-, aside⟩
  · exact sound.whole tree there
  · obtain ⟨entry, head, rfl⟩ := Option.map_eq_some_iff.mp aside
    exact sound.aside entry (List.mem_of_mem_head? head)

theorem calls_prepareCachedWorkspace (here : At container began.unique awaited world)
    (sound : Sound began container awaited) (same : container.copy = began.container.copy)
    (count : Nat) : Calls began (Prepared began) (prepareCachedWorkspace count) world := by
  refine (calls_recoverCachedWorkspace here sound).bind ?_
  intro result later recovered
  cases result with
  | none =>
    obtain ⟨left, -, here⟩ := recovered
    exact .pure here fun last here => nofun
  | some result =>
    have stands : Stands began container.copy := ⟨sound.copy_whole, same⟩
    refine calls_step recovered (stands.beside [])
      (fun later here => ⟨here.container, congrArg (· + 1) here.unique, here.awaited⟩)
      fun later here => ?_
    have there : At ⟨container.copy, [], []⟩ (began.unique + 1) none
        { later with unique := began.unique + 1 } :=
      ⟨here.container, rfl, here.awaited⟩
    change Calls began _ (copyTree later.unique count >>= fun copied =>
      (if copied then exchange later.unique else pure false) >>= finish later.unique) _
    rw [here.unique]
    refine (calls_copyTree stands there count).bind ?_
    rintro copied last ⟨staging, here, made⟩
    have exchanged : Calls began (Exchanged began)
        (if copied then exchange began.unique else pure false) last := by
      cases copied with
      | false => exact calls_failed (stands.beside _) here
      | true =>
        obtain ⟨tree, rfl, whole, made⟩ := made rfl
        exact calls_exchange stands here whole made
    exact exchanged.bind fun prepared last exchanged => calls_finish prepared exchanged

end Preparation

/-! ## Calls one after another -/

section Runs

inductive Call where
  | idle
  | recovering (rest : Task (Option CacheRecoveryResult))
  | preparing (rest : Task Bool)

/-- A moment of a run: the world there was when the call began, and what is left of the call. -/
structure Moment where
  began : World
  world : World
  call : Call

def World.built (world : World) (outputs modified : Nat) : World :=
  { world with container.workspace := world.container.workspace.map fun tree =>
      { tree with outputs := outputs, modified := modified } }

/-- A call may begin at any moment: whatever was going on has ended, failed or been killed. -/
inductive Steps : Moment → Moment → Prop
  | recover (moment : Moment) :
    Steps moment ⟨moment.world, moment.world, .recovering recoverCachedWorkspace⟩
  | prepare (moment : Moment) (count : Nat) :
    Steps moment ⟨moment.world, moment.world, .preparing (prepareCachedWorkspace count)⟩
  | recovering (began world : World) (change : World → World)
    (rest : World → Task (Option CacheRecoveryResult)) :
    Steps ⟨began, world, .recovering (.step change rest)⟩
      ⟨began, change world, .recovering (rest world)⟩
  | preparing (began world : World) (change : World → World) (rest : World → Task Bool) :
    Steps ⟨began, world, .preparing (.step change rest)⟩
      ⟨began, change world, .preparing (rest world)⟩
  | fault (moment : Moment) (fault : Fault) :
    Steps moment { moment with world.fault := fault }
  | build (began world : World) (outputs modified : Nat) :
    Steps ⟨began, world, .preparing (.done true)⟩
      ⟨world.built outputs modified, world.built outputs modified, .idle⟩

/-- From a project that has no copy yet. -/
def Reached (moment : Moment) : Prop :=
  ∃ world : World, world.container = ⟨none, [], []⟩ ∧ world.awaited = none ∧
    Relation.ReflTransGen Steps ⟨world, world, .idle⟩ moment

/-- What is left of the call is met. -/
structure Holds (moment : Moment) : Prop where
  sound : Sound moment.began moment.world.container moment.world.awaited
  began : Sound moment.began moment.began.container moment.began.awaited
  call : match moment.call with
    | .idle => True
    | .recovering rest => Calls moment.began
        (Recovered moment.began.container moment.began.unique moment.began.awaited moment.began)
        rest moment.world
    | .preparing rest => Calls moment.began (Prepared moment.began) rest moment.world

variable {began world : World}

theorem Sound.begins (sound : Sound began world.container world.awaited) :
    Sound world world.container world.awaited :=
  { sound with kept := .inl rfl }

theorem Sound.built (sound : Sound began world.container world.awaited) (outputs modified : Nat) :
    Sound (world.built outputs modified) (world.built outputs modified).container
      (world.built outputs modified).awaited where
  whole := fun tree there => by
    obtain ⟨old, was, rfl⟩ := Option.map_eq_some_iff.mp there
    exact sound.whole old was
  aside := sound.aside
  alone := sound.alone
  awaits := fun preparation awaited => by
    obtain ⟨tree, there, made⟩ := sound.awaits preparation awaited
    exact ⟨_, Option.map_eq_some_iff.mpr ⟨tree, there, rfl⟩, made⟩
  kept := .inl rfl

theorem Calls.fault {Result : Type} {post : Result → World → Prop} {program : Task Result}
    (calls : Calls began post program world) (fault : Fault) :
    Calls began post program { world with fault := fault } :=
  Meets.stable Relies (fun first second => ⟨second.1.trans first.1, second.2.1.trans first.2.1,
    second.2.2.trans first.2.2⟩) calls ⟨rfl, rfl, rfl⟩

theorem Holds.step {moment next : Moment} (holds : Holds moment) (step : Steps moment next) :
    Holds next := by
  cases step with
  | recover =>
    exact ⟨holds.sound.begins, holds.sound.begins,
      calls_recoverCachedWorkspace ⟨rfl, rfl, rfl⟩ holds.sound.begins⟩
  | prepare _ count =>
    exact ⟨holds.sound.begins, holds.sound.begins,
      calls_prepareCachedWorkspace ⟨rfl, rfl, rfl⟩ holds.sound.begins rfl count⟩
  | recovering began world change rest =>
    obtain ⟨sound, calls⟩ := holds.call world ⟨rfl, rfl, rfl⟩
    exact ⟨sound, holds.began, calls⟩
  | preparing began world change rest =>
    obtain ⟨sound, calls⟩ := holds.call world ⟨rfl, rfl, rfl⟩
    exact ⟨sound, holds.began, calls⟩
  | fault _ fault =>
    refine ⟨holds.sound, holds.began, ?_⟩
    have call := holds.call
    dsimp only
    split at call
    · trivial
    · exact Calls.fault call fault
    · exact Calls.fault call fault
  | build began world outputs modified =>
    have built := holds.sound.built outputs modified
    exact ⟨built, built, trivial⟩

theorem Reached.holds {moment : Moment} (reached : Reached moment) : Holds moment := by
  obtain ⟨world, container, awaited, steps⟩ := reached
  induction steps with
  | refl =>
    have sound : Sound world world.container world.awaited := by
      rw [container, awaited]
      exact ⟨by simp, by simp, Nat.zero_le 1, by simp, .inl (by rw [container])⟩
    exact ⟨sound, sound, trivial⟩
  | tail _ step ih => exact ih.step step

/-- What the copy is at a moment of a run: sound; what a completed preparation made; and after a
completed recovery the copy alone, the one that was awaited. -/
structure Kept (moment : Moment) : Prop where
  sound : Sound moment.began moment.world.container moment.world.awaited
  prepared : moment.call = .preparing (.done true) →
    moment.world.awaited = some moment.began.unique
  recovered : ∀ result, moment.call = .recovering (.done (some result)) →
    moment.world.container = ⟨moment.began.container.copy, [], []⟩ ∧
    ∀ preparation, moment.began.awaited = some preparation →
      ∃ tree, moment.world.container.workspace = some tree ∧ tree.preparation = preparation

end Runs

/-! ## A call that nothing disturbs -/

section Undisturbed

variable {Result : Type} {world : World} {yes no : Task Result}

theorem run_then (change : Container → Option Container) {changed : Container}
    (changes : change world.container = some changed) (clear : world.fault = .none) :
    (operate change >>= fun done => if done then yes else no).run world =
      yes.run { world with container := changed } := by
  rw [Program.run_bind]
  simp [operate, Program.run, clear, changes]

theorem run_seen (there : Container → Bool) (clear : world.fault = .none) :
    (stat there >>= fun seen => if seen then yes else no).run world =
      (if there world.container then yes else no).run world := by
  rw [Program.run_bind]
  simp [stat, Program.run, clear]

theorem run_removeEach (names : List (Kind × Nat)) (clear : world.fault = .none) :
    ∃ later, (removeEach names).run world = (true, later) ∧ later.fault = .none := by
  induction names generalizing world with
  | nil => exact ⟨world, rfl, clear⟩
  | cons name names ih =>
    rw [removeEach, run_then (·.remove name.1 name.2) rfl clear]
    exact ih clear

theorem run_removeRest (restored : Bool) (staging previous : List Nat)
    (clear : world.fault = .none) :
    ∃ result later, (removeRest restored staging previous).run world = (some result, later) ∧
      later.fault = .none := by
  obtain ⟨later, runs, clear⟩ := run_removeEach
    (staging.map (Kind.staging, ·) ++ previous.map (Kind.previous, ·)) clear
  rw [removeRest, Program.run_bind, runs]
  exact ⟨_, _, rfl, clear⟩

theorem run_recoverCachedWorkspace (alone : world.container.previous.length ≤ 1)
    (clear : world.fault = .none) :
    ∃ result later, recoverCachedWorkspace.run world = (some result, later) ∧
      later.fault = .none := by
  rw [recoverCachedWorkspace, Program.run_bind]
  simp only [observe, Program.run, id, clear, newestFirst_alone alone]
  change ∃ result later, (stat (·.workspace.isSome) >>= _).run world = (some result, later) ∧ _
  rw [run_seen _ clear]
  split
  · exact run_removeRest _ _ _ clear
  · next missing =>
    split
    · exact run_removeRest _ _ _ clear
    · next newest rest held =>
      obtain ⟨entry, others, previous, rfl, rfl⟩ := List.map_eq_cons_iff.mp held
      have places : world.container.place .previous entry.1 =
          some { world.container.without .previous entry.1 with workspace := some entry.2 } := by
        rw [Container.place, Option.not_isSome_iff_eq_none.mp missing, Container.trees, previous,
          List.lookup_cons_self]
      rw [run_then _ places clear]
      exact run_removeRest _ _ _ clear

section Made

variable (workspace : Option Tree) (unique next count : Nat) (awaited : Option Nat)

theorem run_writes :
    (writes unique count).run
        ⟨⟨workspace, [(unique, ⟨unique, count, 0, 0⟩)], []⟩, .none, next, awaited⟩ =
      (true, ⟨⟨workspace, [(unique, ⟨unique, 0, 0, 0⟩)], []⟩, .none, next, awaited⟩) := by
  induction count with
  | zero => rfl
  | succ count ih =>
    have changes : Container.write ⟨workspace, [(unique, ⟨unique, count + 1, 0, 0⟩)], []⟩ unique =
        some ⟨workspace, [(unique, ⟨unique, count, 0, 0⟩)], []⟩ := by
      simp [Container.write]
    rw [writes, run_then _ changes rfl]
    exact ih

theorem run_copyTree :
    (copyTree unique count).run ⟨⟨workspace, [], []⟩, .none, next, awaited⟩ =
      (true, ⟨⟨workspace, [(unique, ⟨unique, 0, 0, 0⟩)], []⟩, .none, next, awaited⟩) := by
  rw [copyTree, run_then (·.make unique count) rfl rfl]
  exact run_writes workspace unique next count awaited

theorem run_exchange (tree : Tree) :
    (exchange unique).run ⟨⟨workspace, [(unique, tree)], []⟩, .none, next, awaited⟩ =
      (true, ⟨⟨some tree, [], []⟩, .none, next, awaited⟩) := by
  have places (previous : List (Nat × Tree)) :
      Container.place ⟨none, [(unique, tree)], previous⟩ .staging unique =
        some ⟨some tree, [], previous⟩ := by
    simp [Container.place, Container.trees, Container.without]
  rw [exchange, run_seen _ rfl]
  cases workspace with
  | none =>
    rw [if_neg (by simp), publish, run_then _ (places []) rfl, run_seen _ rfl]
    rfl
  | some old =>
    rw [if_pos (by rfl), run_then (·.setAside unique) rfl rfl, publish,
      run_then _ (places [(unique, old)]) rfl, run_seen _ rfl]
    simp [operate, Program.run, Container.remove, Container.without]

end Made

end Undisturbed

end Supercov.CachedWorkspace
