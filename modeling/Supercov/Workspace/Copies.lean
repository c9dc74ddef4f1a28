import Supercov.Library.Interleaved
import Mathlib.Data.List.Sort

/-!
# The cached copy of a project

A preparation makes a copy beside the one that is there and puts it in its place by two renames.
Who holds the lock may be killed between any two operations, and any operation may fail.
-/

namespace Supercov.CachedWorkspace

open Interleaved

section Container

/-- A copy, by the preparation that makes it and the writes it still misses: none where it is
whole.  What is built in it changes its outputs. -/
structure Tree where
  preparation : Nat
  missing : Nat
  outputs : Nat
  modified : Nat

/-- What the name of a tree beside the copy starts with. -/
inductive Kind where
  | staging
  | previous

/-- The directory of the copy: the copy, and the trees beside it by what follows their prefix. -/
structure Container where
  workspace : Option Tree
  staging : List (Nat × Tree)
  previous : List (Nat × Tree)

/-- What becomes of the next operation.  A rename whose directory is not synced has been done. -/
inductive Fault where
  | none
  | refused
  | unsynced
  deriving DecidableEq

structure World where
  container : Container
  fault : Fault
  unique : Nat
  /-- The preparation that completed last, until a recovery completes. -/
  awaited : Option Nat

namespace Container

variable (container : Container)

def trees : Kind → List (Nat × Tree)
  | .staging => container.staging
  | .previous => container.previous

def without (kind : Kind) (unique : Nat) : Container :=
  match kind with
  | .staging => { container with staging := container.staging.filter (·.1 ≠ unique) }
  | .previous => { container with previous := container.previous.filter (·.1 ≠ unique) }

def make (unique writes : Nat) : Option Container :=
  some { container with
    staging := container.staging ++ [(unique, ⟨unique, writes, 0, 0⟩)] }

def write (unique : Nat) : Option Container :=
  some { container with
    staging := container.staging.map fun entry =>
      if entry.1 = unique then (entry.1, { entry.2 with missing := entry.2.missing - 1 })
      else entry }

def setAside (unique : Nat) : Option Container :=
  container.workspace.map fun tree =>
    { container with
      workspace := none
      previous := container.previous ++ [(unique, tree)] }

/-- A rename to the copy's place; where a copy is there it is refused. -/
def place (kind : Kind) (unique : Nat) : Option Container :=
  match container.workspace, (container.trees kind).lookup unique with
  | none, some tree => some { container.without kind unique with workspace := some tree }
  | _, _ => none

/-- A tree that is stored goes to the trash by one rename. -/
def remove (kind : Kind) (unique : Nat) : Option Container := some (container.without kind unique)

end Container

end Container

section Programs

abbrev Task := Program World

/-- An operation: whether it is said to have been done. -/
def operate (change : Container → Option Container) : Task Bool :=
  .step
    (fun world =>
      if world.fault = .refused then world
      else { world with container := (change world.container).getD world.container })
    fun world => .done (world.fault = .none && (change world.container).isSome)

/-- Whether something is seen to be there. -/
def stat (there : Container → Bool) : Task Bool :=
  .step id fun world => .done (world.fault = .none && there world.container)

structure CacheRecoveryResult where
  restoredPrevious : Bool
  removedStaging : Nat
  removedPrevious : Nat

def newestFirst (previous : List (Nat × Tree)) : List (Nat × Tree) :=
  previous.insertionSort fun left right => right.2.modified ≤ left.2.modified

def removeEach : List (Kind × Nat) → Task Bool
  | [] => return true
  | (kind, unique) :: rest => do
    if ← operate (·.remove kind unique) then removeEach rest else return false

/-- The rest of a recovery, once it has put back what it puts back. -/
def removeRest (restored : Bool) (staging previous : List Nat) :
    Task (Option CacheRecoveryResult) := do
  if ← removeEach (staging.map (Kind.staging, ·) ++ previous.map (Kind.previous, ·)) then
    change fun world => { world with awaited := none }
    return some ⟨restored, staging.length, previous.length⟩
  else return none

def recoverCachedWorkspace : Task (Option CacheRecoveryResult) := do
  let world ← observe
  if world.fault ≠ .none then return none
  let staging := world.container.staging.map Prod.fst
  let previous := (newestFirst world.container.previous).map Prod.fst
  if ← stat (·.workspace.isSome) then removeRest false staging previous
  else
    match previous with
    | [] => removeRest false staging []
    | newest :: rest => do
      if ← operate (·.place .previous newest) then removeRest true staging rest else return none

def writes (unique : Nat) : Nat → Task Bool
  | 0 => return true
  | count + 1 => do
    if ← operate (·.write unique) then writes unique count else return false

def copyTree (unique count : Nat) : Task Bool := do
  if ← operate (·.make unique count) then writes unique count else return false

/-- What was set aside is put back where nothing is in its place. -/
def putBack (unique : Nat) (movedPrevious : Bool) : Task Bool :=
  if movedPrevious then do
    if ← stat (·.workspace.isSome) then return false
    else
      let _ ← operate (·.place .previous unique)
      return false
  else return false

def publish (unique : Nat) (movedPrevious : Bool) : Task Bool := do
  if ← operate (·.place .staging unique) then
    if ← stat fun container => (container.previous.lookup unique).isSome then
      operate (·.remove .previous unique)
    else return true
  else putBack unique movedPrevious

/-- The new copy in the place of the one that was there. -/
def exchange (unique : Nat) : Task Bool := do
  if ← stat (·.workspace.isSome) then
    if ← operate (·.setAside unique) then publish unique true else return false
  else publish unique false

/-- Away with what was being made, where it is still there. -/
def clear (unique : Nat) : Task Bool := do
  if ← stat fun container => (container.staging.lookup unique).isSome then
    operate (·.remove .staging unique)
  else return true

def finish (unique : Nat) (prepared : Bool) : Task Bool := do
  let clean ← clear unique
  if prepared && clean then
    change fun world => { world with awaited := some unique }
    return true
  else return false

/-- A preparation whose copy takes so many writes. -/
def prepareCachedWorkspace (count : Nat) : Task Bool := do
  match ← recoverCachedWorkspace with
  | none => return false
  | some _ =>
    let unique ← Program.step (fun world => { world with unique := world.unique + 1 })
      fun world => .done world.unique
    let copied ← copyTree unique count
    let prepared ← (if copied then exchange unique else pure false)
    finish unique prepared

end Programs

/-! ## What holds of the copy at every moment -/

section Sound

def Container.copy (container : Container) : Option Tree :=
  container.workspace.or ((newestFirst container.previous).head?.map Prod.snd)

/-- The copy is whole, at most one was set aside and that one is, what a preparation completed is
there until a recovery completes, and the copy is the one there was or the new one is in place. -/
structure Sound (began : World) (container : Container) (awaited : Option Nat) : Prop where
  whole : ∀ tree, container.workspace = some tree → tree.missing = 0
  aside : ∀ entry ∈ container.previous, entry.2.missing = 0
  alone : container.previous.length ≤ 1
  awaits : ∀ preparation, awaited = some preparation →
    ∃ tree, container.workspace = some tree ∧ tree.preparation = preparation
  kept : container.copy = began.container.copy ∨
    ∃ tree, container.workspace = some tree ∧ tree.preparation = began.unique

/-- Others decide what becomes of the next operation. -/
def Relies (world later : World) : Prop :=
  later.container = world.container ∧ later.unique = world.unique ∧ later.awaited = world.awaited

def Guarantees (began _ later : World) : Prop := Sound began later.container later.awaited

/-- Called in the world `began`, what is left of the program is met. -/
abbrev Calls {Result : Type} (began : World) (post : Result → World → Prop) (program : Task Result)
    (world : World) : Prop :=
  Meets Relies (Guarantees began) post program world

/-- All of a world but what becomes of the next operation. -/
structure At (container : Container) (unique : Nat) (awaited : Option Nat) (world : World) :
    Prop where
  container : world.container = container
  unique : world.unique = unique
  awaited : world.awaited = awaited

variable {Result : Type} {post : Result → World → Prop} {container : Container} {unique : Nat}
  {awaited : Option Nat} {began world later : World}

theorem At.after (here : At container unique awaited world) (between : Relies world later) :
    At container unique awaited later :=
  ⟨between.1.trans here.container, between.2.1.trans here.unique, between.2.2.trans here.awaited⟩

theorem At.guarantees (here : At container unique awaited later)
    (sound : Sound began container awaited) : Guarantees began world later := by
  rwa [Guarantees, here.container, here.awaited]

theorem Calls.bind {Final : Type} {middle : Result → World → Prop} {post : Final → World → Prop}
    {program : Task Result} {next : Result → Task Final} (calls : Calls began middle program world)
    (then_ : ∀ result later, middle result later → Calls began post (next result) later) :
    Calls began post (program >>= next) world :=
  Meets.bind Relies (fun _ => ⟨rfl, rfl, rfl⟩) calls then_

theorem Calls.pure {result : Result} (here : At container unique awaited world)
    (holds : ∀ later, At container unique awaited later → post result later) :
    Calls began post (pure result) world :=
  fun later between => holds later (here.after between)

theorem calls_operate (change : Container → Option Container)
    (here : At container unique awaited world) (sound : Sound began container awaited)
    (sound' : ∀ changed, change container = some changed → Sound began changed awaited) :
    Calls began (fun done later => ∃ left, Sound began left awaited ∧ At left unique awaited later ∧
      (change container = some left ∨ done = false ∧ left = container)) (operate change) world := by
  intro later between
  have here := here.after between
  dsimp only
  split
  · next refused =>
    refine ⟨here.guarantees sound, fun last between' =>
      ⟨container, sound, here.after between', .inr ⟨?_, rfl⟩⟩⟩
    rw [refused]
    rfl
  · rcases changes : change container with _ | changed
    · have there : At container unique awaited
          { later with container := (change later.container).getD later.container } :=
        ⟨by rw [here.container, changes]; rfl, here.unique, here.awaited⟩
      refine ⟨there.guarantees sound, fun last between' =>
        ⟨container, sound, there.after between', .inr ⟨?_, rfl⟩⟩⟩
      rw [here.container, changes, Option.isSome_none, Bool.and_false]
    · have there : At changed unique awaited
          { later with container := (change later.container).getD later.container } :=
        ⟨by rw [here.container, changes]; rfl, here.unique, here.awaited⟩
      exact ⟨there.guarantees (sound' changed changes), fun last between' =>
        ⟨changed, sound' changed changes, there.after between', .inl rfl⟩⟩

theorem calls_then (change : Container → Option Container) {yes no : Task Result}
    (here : At container unique awaited world) (sound : Sound began container awaited)
    (sound' : ∀ changed, change container = some changed → Sound began changed awaited)
    (done : ∀ left later, change container = some left → Sound began left awaited →
      At left unique awaited later → Calls began post yes later)
    (failed : ∀ left later, change container = some left ∨ left = container →
      Sound began left awaited → At left unique awaited later → Calls began post no later) :
    Calls began post (operate change >>= fun done => if done then yes else no) world := by
  refine (calls_operate change here sound sound').bind ?_
  rintro said later ⟨left, sound, here, changes⟩
  cases said with
  | true =>
    rcases changes with changes | ⟨no, -⟩
    · exact done left later changes sound here
    · cases no
  | false => exact failed left later (changes.imp_right And.right) sound here

theorem calls_seen {there : Container → Bool} {yes no : Task Result}
    (here : At container unique awaited world) (sound : Sound began container awaited)
    (seen : ∀ later, there container = true → At container unique awaited later →
      Calls began post yes later)
    (unseen : ∀ later, At container unique awaited later → Calls began post no later) :
    Calls began post (stat there >>= fun seen => if seen then yes else no) world := by
  intro later between
  have here := here.after between
  refine ⟨here.guarantees sound, ?_⟩
  change Calls began post (if (later.fault = .none && there later.container) = true then yes else no)
    later
  split
  · next sees =>
    rw [Bool.and_eq_true, here.container] at sees
    exact seen later sees.2 here
  · exact unseen later here

theorem calls_step {program : World → Task Result} {change : World → World} {unique' : Nat}
    {awaited' : Option Nat} (here : At container unique awaited world)
    (sound : Sound began container awaited')
    (changes : ∀ later, At container unique awaited later →
      At container unique' awaited' (change later))
    (then_ : ∀ later, At container unique awaited later →
      Calls began post (program later) (change later)) :
    Calls began post (.step change program) world := by
  intro later between
  have here := here.after between
  exact ⟨(changes later here).guarantees sound, then_ later here⟩

end Sound

/-! ## A recovery -/

section Recovery

/-- There is a copy, or none to put back. -/
def Container.Settled (container : Container) : Prop :=
  container.workspace.isSome ∨ container.previous = []

variable {container : Container} {unique : Nat} {awaited : Option Nat} {began world : World}

theorem Container.Settled.copy (settled : container.Settled) :
    container.copy = container.workspace := by
  rcases settled with there | none_
  · obtain ⟨tree, same⟩ := Option.isSome_iff_exists.mp there
    rw [Container.copy, same, Option.some_or]
  · rw [Container.copy, none_]
    exact Option.or_none

theorem workspace_without (kind : Kind) (unique : Nat) :
    (container.without kind unique).workspace = container.workspace := by
  cases kind <;> rfl

theorem mem_without {kind other : Kind} {entry : Nat × Tree} :
    entry ∈ (container.without kind unique).trees other ↔
      entry ∈ container.trees other ∧ (other, entry.1) ≠ (kind, unique) := by
  cases kind <;> cases other <;> simp [Container.without, Container.trees]

theorem Container.Settled.without (settled : container.Settled) (kind : Kind) (unique : Nat) :
    (container.without kind unique).Settled := by
  rcases settled with there | none_
  · exact .inl ((workspace_without kind unique).symm ▸ there)
  · cases kind
    · exact .inr none_
    · exact .inr (congrArg (List.filter _) none_)

theorem Sound.without (sound : Sound began container awaited) (settled : container.Settled)
    (kind : Kind) (unique : Nat) : Sound began (container.without kind unique) awaited where
  whole := by
    rw [workspace_without]
    exact sound.whole
  aside := fun entry member => sound.aside entry (@mem_without _ _ kind .previous entry |>.mp member).1
  alone := by
    cases kind
    · exact sound.alone
    · exact (List.length_filter_le _ _).trans sound.alone
  awaits := by
    rw [workspace_without]
    exact sound.awaits
  kept := by
    rw [(settled.without kind unique).copy, workspace_without, ← settled.copy]
    exact settled.copy ▸ sound.kept

theorem Sound.removes (sound : Sound began container awaited) (settled : container.Settled)
    (kind : Kind) (unique : Nat) (changed : Container)
    (removes : container.remove kind unique = some changed) : Sound began changed awaited :=
  Option.some.inj removes ▸ sound.without settled kind unique

theorem calls_removeEach {names : List (Kind × Nat)} (here : At container unique awaited world)
    (sound : Sound began container awaited) (settled : container.Settled) :
    Calls began (fun done later => ∃ fewer, Sound began fewer awaited ∧
      At fewer unique awaited later ∧ fewer.workspace = container.workspace ∧
      (done = true → ∀ kind, ∀ entry ∈ fewer.trees kind,
        entry ∈ container.trees kind ∧ (kind, entry.1) ∉ names)) (removeEach names) world := by
  induction names generalizing container world with
  | nil =>
    exact .pure here fun later here =>
      ⟨container, sound, here, rfl, fun _ _ _ member => ⟨member, List.not_mem_nil⟩⟩
  | cons name rest ih =>
    obtain ⟨kind, number⟩ := name
    have sound' := sound.without settled kind number
    refine calls_then (·.remove kind number) here sound (sound.removes settled kind number) ?_ ?_
    · rintro left later ⟨⟩ - here
      refine (ih here sound' (settled.without kind number)).mono ?_
      rintro done last ⟨fewest, sound, there, same, gone⟩
      refine ⟨fewest, sound, there, same.trans (workspace_without kind number), ?_⟩
      intro done other entry member
      obtain ⟨among, apart⟩ := gone done other entry member
      obtain ⟨among, different⟩ := mem_without.mp among
      exact ⟨among, List.not_mem_cons_of_ne_of_not_mem different apart⟩
    · rintro left later (⟨⟨⟩⟩ | rfl) sound here
      · exact .pure here fun last here => ⟨_, sound, here, workspace_without kind number, nofun⟩
      · exact .pure here fun last here => ⟨_, sound, here, rfl, nofun⟩

/-- What a recovery leaves: done, the copy alone; and not done, the copy. -/
def Recovered (container : Container) (unique : Nat) (awaited : Option Nat) (began : World)
    (result : Option CacheRecoveryResult) (later : World) : Prop :=
  match result with
  | some _ => At ⟨container.copy, [], []⟩ unique none later
  | none => ∃ left, Sound began left awaited ∧ At left unique awaited later

theorem calls_removeRest (here : At container unique awaited world)
    (sound : Sound began container awaited) (settled : container.Settled) (restored : Bool) :
    Calls began (Recovered container unique awaited began)
      (removeRest restored (container.staging.map Prod.fst) (container.previous.map Prod.fst))
      world := by
  refine (calls_removeEach here sound settled).bind ?_
  rintro done later ⟨fewer, sound', here, same, gone⟩
  cases done with
  | false => exact .pure here fun last here => ⟨fewer, sound', here⟩
  | true =>
    have none_ : ∀ kind, fewer.trees kind = [] := fun kind => by
      refine List.eq_nil_iff_forall_not_mem.mpr fun entry member => ?_
      obtain ⟨among, apart⟩ := gone rfl kind entry member
      have named := List.mem_map_of_mem (f := Prod.fst) among
      cases kind
      · exact apart (List.mem_append_left _ (List.mem_map_of_mem named))
      · exact apart (List.mem_append_right _ (List.mem_map_of_mem named))
    have alone : fewer = ⟨container.copy, [], []⟩ := by
      rw [settled.copy, ← same]
      exact congrArg₂ (Container.mk fewer.workspace) (none_ .staging) (none_ .previous)
    rw [alone] at sound' here
    have cleared : Sound began ⟨container.copy, [], []⟩ none :=
      { sound' with awaits := by simp }
    refine calls_step here cleared (fun later here => ⟨here.container, here.unique, rfl⟩)
      fun later here => ?_
    have there : At ⟨container.copy, [], []⟩ unique none { later with awaited := none } :=
      ⟨here.container, here.unique, rfl⟩
    exact .pure there fun last there => there

theorem place_eq_some {kind : Kind} {changed : Container}
    (places : container.place kind unique = some changed) :
    container.workspace = none ∧ ∃ tree, (container.trees kind).lookup unique = some tree ∧
      changed = { container.without kind unique with workspace := some tree } := by
  rw [Container.place] at places
  split at places
  · next tree workspace looks =>
    cases places
    exact ⟨workspace, tree, looks, rfl⟩
  · cases places

theorem place_previous (sound : Sound began container awaited) {changed : Container}
    (places : container.place .previous unique = some changed) :
    ∃ entry, container.previous = [entry] ∧ container.workspace = none ∧
      changed = ⟨some entry.2, container.staging, []⟩ := by
  obtain ⟨none_, tree, looks, rfl⟩ := place_eq_some places
  have alone := sound.alone
  rcases previous : container.previous with _ | ⟨⟨number, other⟩, _ | ⟨second, others⟩⟩
  · simp [Container.trees, previous] at looks
  · rw [Container.trees, previous, List.lookup_cons] at looks
    split at looks
    · next same =>
      cases looks
      exact ⟨_, rfl, none_, by simp [Container.without, previous, eq_of_beq same]⟩
    · cases looks
  · simp [previous] at alone

theorem newestFirst_alone {previous : List (Nat × Tree)} (alone : previous.length ≤ 1) :
    newestFirst previous = previous := by
  match previous, alone with
  | [], _ => rfl
  | [_], _ => rfl

theorem Sound.restores (sound : Sound began container awaited) (unique : Nat)
    (changed : Container) (places : container.place .previous unique = some changed) :
    Sound began changed awaited := by
  obtain ⟨entry, previous, workspace, rfl⟩ := place_previous sound places
  refine ⟨?_, nofun, Nat.zero_le 1, fun preparation same => ?_, .inl ?_⟩
  · rintro tree ⟨⟩
    exact sound.aside entry (previous ▸ List.mem_singleton_self entry)
  · obtain ⟨tree, there, -⟩ := sound.awaits preparation same
    cases workspace.symm.trans there
  · rcases sound.kept with kept | ⟨tree, there, -⟩
    · rw [← kept, Container.copy, Container.copy, workspace, previous]
      rfl
    · cases workspace.symm.trans there

theorem calls_recoverCachedWorkspace (here : At container unique awaited world)
    (sound : Sound began container awaited) :
    Calls began (Recovered container unique awaited began) recoverCachedWorkspace world := by
  refine calls_step here sound (fun later here => here) fun later here => ?_
  change Calls began _ (if later.fault ≠ .none then _ else _) later
  split
  · exact .pure here fun last here => ⟨container, sound, here⟩
  rw [here.container, newestFirst_alone sound.alone]
  refine calls_seen here sound (fun last there here => ?_) fun last here => ?_
  · exact calls_removeRest here sound (.inl there) false
  · rcases previous : container.previous with _ | ⟨newest, _ | ⟨second, others⟩⟩
    · have calls := calls_removeRest here sound (.inr previous) false
      rwa [previous] at calls
    · refine calls_then (·.place .previous newest.1) here sound (sound.restores newest.1) ?_ ?_
      · intro left last places sound' there
        obtain ⟨entry, previous', workspace, rfl⟩ := place_previous sound places
        cases previous.symm.trans previous'
        refine (calls_removeRest there sound' (.inl rfl) true).mono fun result last recovered => ?_
        cases result with
        | none => exact recovered
        | some result =>
          rw [Recovered, Container.copy, workspace, previous]
          exact recovered
      · intro left last _ sound' there
        exact .pure there fun last there => ⟨left, sound', there⟩
    · have alone := sound.alone
      simp [previous] at alone

end Recovery

end Supercov.CachedWorkspace
