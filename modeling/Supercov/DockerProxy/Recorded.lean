import Supercov.DockerProxy.Registry
import Supercov.Library.JsonText

/-!
# Images that are remembered

One creation after another, every image stays in the registry, and the file is whole at any
moment.  Two at once lose one of theirs.
-/

namespace Supercov.DockerProxy

variable (format : Format) (images : Nat → List Char) (fingerprint : List Char)

def Disk.onDisk (disk : Disk) : Option Registry :=
  disk.registry.elim (some .empty) fun file => format.decode (disk.contents file)

/-- The registry a creation that reads the file now goes on with. -/
def Disk.current (disk : Disk) : Registry := (disk.onDisk format).getD .empty

/-- The first registry with the images that creations added to it. -/
inductive Version (first : Registry) : Registry → Prop where
  | first : Version first first
  | added {registry : Registry} (creation : Nat) (version : Version first registry) :
    Version first (registry.insert (images creation) fingerprint)

/-- The file is as it was, or a version of it. -/
def Complete (start disk : Disk) : Prop :=
  disk.onDisk format = start.onDisk format ∨
    ∃ registry, Version images fingerprint (start.current format) registry ∧
      disk.onDisk format = some registry

def Disk.Remembers (disk : Disk) (creation : Nat) : Prop :=
  (disk.current format).get (images creation) = some fingerprint

def opened (start : Disk) : Relay := ⟨start, fun _ => .waiting⟩

def afterTurns (start : Disk) (turns : List Turn) : Relay :=
  Runs.run (takeTurn format images fingerprint) (opened start) turns

/-- The file is complete after any number of the turns, and at their end it holds the image of
each creation, if all that began are through. -/
def AllRemembered (start : Disk) (turns : List Turn) : Prop :=
  (∀ count, Complete format images fingerprint start
    (afterTurns format images fingerprint start (turns.take count)).disk) ∧
  ((∀ creation,
      ¬((afterTurns format images fingerprint start turns).stages creation).Busy) →
    ∀ creation, (afterTurns format images fingerprint start turns).stages creation = .recorded →
      (afterTurns format images fingerprint start turns).disk.Remembers format images fingerprint
        creation)

/-- A creation opens the registry only while no other has it open or is yet to write its own. -/
def Unshared (relay : Relay) (turn : Turn) : Prop :=
  relay.stages turn.creation = .waiting → ∀ other, ¬(relay.stages other).Busy

/-- Where a creation's next step stands with what is on the disk. -/
def Stage.Follows (disk : Disk) (creation : Nat) : Stage → Prop
  | waiting | recorded => True
  | reading file taken => disk.registry = some file ∧ taken <+: disk.contents file
  | holding registry => registry = (disk.current format).insert (images creation) fingerprint
  | writing file offset rest =>
    disk.temporary = some file ∧ (disk.contents file).length = offset ∧
      disk.contents file ++ rest =
        format.encode ((disk.current format).insert (images creation) fingerprint)

structure Sound (start : Disk) (relay : Relay) : Prop where
  complete : Complete format images fingerprint start relay.disk
  remembers : ∀ creation, relay.stages creation = .recorded →
    relay.disk.Remembers format images fingerprint creation
  alone : ∀ one other, (relay.stages one).Busy → (relay.stages other).Busy → one = other
  follows : ∀ creation,
    (relay.stages creation).Follows format images fingerprint relay.disk creation

variable {format images fingerprint} {start : Disk} {relay : Relay} {creation : Nat}

section Disk

variable (format) (disk : Disk) {file : Nat}

theorem Disk.onDisk_of_contents (other : Disk) (named : other.registry = disk.registry)
    (same : ∀ file ∈ disk.registry, other.contents file = disk.contents file) :
    other.onDisk format = disk.onDisk format := by
  unfold onDisk
  rw [named]
  cases held : disk.registry with
  | none => rfl
  | some file =>
    simp only [Option.elim_some]
    rw [same file held]

theorem Disk.onDisk_fill (apart : disk.registry ≠ some file) (bytes : List UInt8) :
    (disk.fill file bytes).onDisk format = disk.onDisk format := by
  refine disk.onDisk_of_contents format _ rfl ?_
  intro other held
  have other_ne : other ≠ file := fun same => apart (same ▸ held)
  exact Function.update_of_ne other_ne bytes disk.contents

theorem Disk.registry_ne (named : disk.temporary = some file) : disk.registry ≠ some file :=
  fun held => disk.apart file held named

theorem Disk.create_spec :
    disk.create.2.temporary = some disk.create.1 ∧ disk.create.2.contents disk.create.1 = [] ∧
      disk.create.2.onDisk format = disk.onDisk format := by
  unfold create
  cases named : disk.temporary with
  | some file =>
    refine ⟨named, ?_, disk.onDisk_fill format (disk.registry_ne named) []⟩
    exact Function.update_self file [] disk.contents
  | none =>
    refine ⟨rfl, Function.update_self disk.files [] disk.contents, ?_⟩
    refine disk.onDisk_of_contents format _ rfl ?_
    intro file held
    exact Function.update_of_ne (disk.registry_lt file held).ne [] disk.contents

theorem Disk.onDisk_rename (named : disk.temporary = some file) :
    disk.rename.onDisk format = format.decode (disk.contents file) := by
  simp [rename, named, onDisk]

theorem write_end (contents bytes : List UInt8) :
    Patch.write 0 contents contents.length bytes = contents ++ bytes := by
  cases bytes with
  | nil => simp [Patch.write]
  | cons byte rest => simp [Patch.write]

end Disk

theorem Registry.get_insert_self (registry : Registry) (id fingerprint : List Char) :
    (registry.insert id fingerprint).get id = some fingerprint := by
  unfold get insert
  rw [Ordered.find_put, if_pos rfl]

theorem Registry.get_insert_of_get {registry : Registry} {id fingerprint : List Char}
    (held : registry.get id = some fingerprint) (other : List Char) :
    (registry.insert other fingerprint).get id = some fingerprint := by
  unfold get insert
  rw [Ordered.find_put]
  split
  · rfl
  · exact held

namespace Sound

theorem opened : Sound format images fingerprint start (opened start) where
  complete := Or.inl rfl
  remembers _ recorded := nomatch recorded
  alone _ _ busy := busy.elim
  follows _ := trivial

theorem move {stage : Stage} {disk : Disk}
    (only : ∀ other, (relay.stages other).Busy → other = creation)
    (complete : Complete format images fingerprint start disk)
    (remembers : ∀ other, relay.stages other = .recorded →
      disk.Remembers format images fingerprint other)
    (recorded : stage = .recorded → disk.Remembers format images fingerprint creation)
    (follows : stage.Follows format images fingerprint disk creation) :
    Sound format images fingerprint start (relay.move creation stage disk) where
  complete := complete
  remembers other at_end := by
    by_cases same : other = creation
    · subst same
      exact recorded (by simpa [Relay.move] using at_end)
    · exact remembers other (by simpa [Relay.move, same] using at_end)
  alone one other busy others := by
    have is_creation : ∀ one, ((relay.move creation stage disk).stages one).Busy →
        one = creation := by
      intro one busy
      by_contra different
      apply different
      apply only
      simpa [Relay.move, different] using busy
    exact (is_creation one busy).trans (is_creation other others).symm
  follows other := by
    by_cases same : other = creation
    · subst same
      simpa [Relay.move] using follows
    · have idle : ¬(relay.stages other).Busy := fun busy => same (only other busy)
      have kept : (relay.move creation stage disk).stages other = relay.stages other := by
        simp [Relay.move, same]
      rw [kept]
      cases held : relay.stages other with
      | waiting => trivial
      | recorded => trivial
      | reading => exact (idle (held ▸ trivial)).elim
      | holding => exact (idle (held ▸ trivial)).elim
      | writing => exact (idle (held ▸ trivial)).elim

theorem keep {stage : Stage} {disk : Disk} (sound : Sound format images fingerprint start relay)
    (only : ∀ other, (relay.stages other).Busy → other = creation)
    (same : disk.onDisk format = relay.disk.onDisk format) (unrecorded : stage ≠ .recorded)
    (follows : stage.Follows format images fingerprint disk creation) :
    Sound format images fingerprint start (relay.move creation stage disk) := by
  have current : disk.current format = relay.disk.current format := by
    simp only [Disk.current, same]
  refine Sound.move only ?_ ?_ (fun recorded => (unrecorded recorded).elim) follows
  · simpa only [Complete, same] using sound.complete
  · intro other recorded
    have remembers := sound.remembers other recorded
    rwa [Disk.Remembers, ← current] at remembers

theorem added_version (sound : Sound format images fingerprint start relay) (creation : Nat) :
    Version images fingerprint (start.current format)
      ((relay.disk.current format).insert (images creation) fingerprint) := by
  refine .added creation ?_
  rcases sound.complete with same | ⟨registry, version, reads⟩
  · have current : relay.disk.current format = start.current format :=
      congrArg (·.getD Registry.empty) same
    rw [current]
    exact .first
  · have current : relay.disk.current format = registry :=
      congrArg (·.getD Registry.empty) reads
    rw [current]
    exact version

theorem takeTurn (sound : Sound format images fingerprint start relay) {turn : Turn}
    (unshared : Unshared relay turn) :
    Sound format images fingerprint start (takeTurn format images fingerprint relay turn) := by
  have follows := sound.follows turn.creation
  have only : (relay.stages turn.creation).Busy →
      ∀ other, (relay.stages other).Busy → other = turn.creation :=
    fun busy other others => sound.alone other turn.creation others busy
  cases held : relay.stages turn.creation with
  | waiting =>
    have none_busy : ∀ other, (relay.stages other).Busy → other = turn.creation :=
      fun other busy => (unshared held other busy).elim
    cases named : relay.disk.registry with
    | none =>
      rw [takeTurn_absent _ _ _ held named]
      refine sound.keep none_busy rfl Stage.noConfusion ?_
      simp [Stage.Follows, added, Disk.current, Disk.onDisk, named]
    | some file =>
      rw [takeTurn_opens _ _ _ held named]
      exact sound.keep none_busy rfl Stage.noConfusion ⟨named, List.nil_prefix⟩
  | reading file taken =>
    rw [held] at follows only
    obtain ⟨named, rest, contents⟩ := follows
    have unread : (relay.disk.contents file).drop taken.length = rest := by
      rw [← contents, List.drop_left]
    cases rest with
    | nil =>
      have whole : taken = relay.disk.contents file := by simpa using contents
      rw [takeTurn_read _ _ _ held unread]
      refine sound.keep (only trivial) rfl Stage.noConfusion ?_
      simp [Stage.Follows, added, Disk.current, Disk.onDisk, named, whole]
    | cons byte rest =>
      rw [takeTurn_reads _ _ _ held unread]
      refine sound.keep (only trivial) rfl Stage.noConfusion ⟨named, rest.drop turn.most, ?_⟩
      rw [List.append_assoc, List.cons_append, List.take_append_drop, contents]
  | holding registry =>
    rw [held] at follows only
    obtain ⟨named, emptied, same⟩ := relay.disk.create_spec format
    rw [takeTurn_creates _ _ _ held]
    refine sound.keep (only trivial) same Stage.noConfusion ⟨named, by rw [emptied]; rfl, ?_⟩
    have current : relay.disk.create.2.current format = relay.disk.current format :=
      congrArg (·.getD Registry.empty) same
    rw [emptied, List.nil_append, current, ← follows]
  | writing file offset rest =>
    rw [held] at follows only
    obtain ⟨named, length, contents⟩ := follows
    cases rest with
    | nil =>
      have reads : relay.disk.rename.onDisk format =
          some ((relay.disk.current format).insert (images turn.creation) fingerprint) := by
        rw [relay.disk.onDisk_rename format named, ← List.append_nil (relay.disk.contents file), contents,
          format.decode_encode]
      have current : relay.disk.rename.current format =
          (relay.disk.current format).insert (images turn.creation) fingerprint :=
        congrArg (·.getD Registry.empty) reads
      rw [takeTurn_renames _ _ _ held]
      refine Sound.move (only trivial) (Or.inr ⟨_, sound.added_version turn.creation, reads⟩)
        ?_ (fun _ => ?_) trivial
      · intro other recorded
        unfold Disk.Remembers
        rw [current]
        exact Registry.get_insert_of_get (sound.remembers other recorded) _
      · unfold Disk.Remembers
        rw [current]
        exact Registry.get_insert_self ..
    | cons byte rest =>
      have apart := relay.disk.registry_ne named
      have same := relay.disk.onDisk_fill format apart
        (Patch.write 0 (relay.disk.contents file) offset (byte :: rest.take turn.most))
      have written : (relay.disk.write file offset (byte :: rest.take turn.most)).contents file =
          relay.disk.contents file ++ byte :: rest.take turn.most := by
        rw [← length, ← write_end]
        exact Function.update_self ..
      rw [takeTurn_writes _ _ _ held]
      refine sound.keep (only trivial) same Stage.noConfusion ⟨named, ?_, ?_⟩
      · rw [written, List.length_append, length]
      · have current : (relay.disk.write file offset (byte :: rest.take turn.most)).current format =
            relay.disk.current format := congrArg (·.getD Registry.empty) same
        rw [written, current, List.append_assoc, List.cons_append, List.take_append_drop, contents]
  | recorded =>
    rw [takeTurn_recorded _ _ _ held]
    exact sound

end Sound

/-- Images recorded by one creation after the other are all remembered. -/
theorem allRemembered_of_unshared (format : Format) (images : Nat → List Char)
    (fingerprint : List Char) (start : Disk) (turns : List Turn)
    (unshared : Runs.Along (takeTurn format images fingerprint) Unshared (opened start) turns) :
    AllRemembered format images fingerprint start turns := by
  have sound : ∀ turns, Runs.Along (takeTurn format images fingerprint) Unshared (opened start) turns →
      Sound format images fingerprint start (afterTurns format images fingerprint start turns) :=
    fun turns unshared =>
      Runs.Along.keeps (fun _ _ sound unshared => sound.takeTurn unshared) unshared Sound.opened
  constructor
  · intro count
    exact (sound _ (unshared.take count)).complete
  · intro _ creation recorded
    exact (sound turns unshared).remembers creation recorded

theorem unshared_of_one (creation : Nat)
    (alone : ∀ other, other ≠ creation → relay.stages other = .waiting)
    {turns : List Turn} (own : ∀ turn ∈ turns, turn.creation = creation) :
    Runs.Along (takeTurn format images fingerprint) Unshared relay turns := by
  induction turns generalizing relay with
  | nil => trivial
  | cons turn turns inductionHypothesis =>
    obtain ⟨same, own⟩ := List.forall_mem_cons.mp own
    refine ⟨fun waits other busy => ?_, inductionHypothesis (fun other different => ?_) own⟩
    · have waiting : relay.stages other = .waiting := by
        by_cases it : other = creation
        · rw [it, ← same, waits]
        · exact alone other it
      rw [waiting] at busy
      exact busy
    · rw [stages_takeTurn_of_ne _ _ _ (same ▸ different), alone other different]

def noRegistry : Disk where
  contents _ := []
  files := 0
  registry := none
  temporary := none
  registry_lt _ held := nomatch held
  temporary_lt _ held := nomatch held
  apart _ held := nomatch held

def twoImages (creation : Nat) : List Char :=
  if creation = 0 then "sha256:a".toList else "sha256:b".toList

/-- One creation, with the registry written in two pieces. -/
theorem allRemembered_one :
    AllRemembered prettyJson twoImages "source-a".toList noRegistry
      [⟨0, 0⟩, ⟨0, 0⟩, ⟨0, 9⟩, ⟨0, 90⟩, ⟨0, 0⟩] :=
  allRemembered_of_unshared prettyJson twoImages "source-a".toList noRegistry _
    (unshared_of_one 0 (fun _ _ => rfl) (by decide))

theorem writes_alone (format : Format) (images : Nat → List Char) (fingerprint : List Char)
    (creation : Nat) {registry : Registry} {byte : UInt8} {rest : List UInt8} (relay : Relay)
    (held : relay.stages creation = .holding registry)
    (bytes : format.encode registry = byte :: rest) :
    ∃ disk : Disk, disk.onDisk format = some registry ∧
      Runs.run (takeTurn format images fingerprint) relay
        [⟨creation, 0⟩, ⟨creation, rest.length⟩, ⟨creation, 0⟩] =
          relay.move creation .recorded disk := by
  obtain ⟨named, emptied, -⟩ := relay.disk.create_spec format
  generalize made : relay.disk.create = created at named emptied
  have create : takeTurn format images fingerprint relay ⟨creation, 0⟩ =
      relay.move creation (.writing created.1 0 (byte :: rest)) created.2 := by
    rw [takeTurn_creates _ _ _ held, made, bytes]
  have write : takeTurn format images fingerprint
      (relay.move creation (.writing created.1 0 (byte :: rest)) created.2)
        ⟨creation, rest.length⟩ =
      relay.move creation (.writing created.1 (byte :: rest).length [])
        (created.2.write created.1 0 (byte :: rest)) := by
    have writing : (relay.move creation (.writing created.1 0 (byte :: rest)) created.2).stages
        creation = .writing created.1 0 (byte :: rest) := Function.update_self ..
    rw [takeTurn_writes _ _ _ writing]
    simp [Relay.move]
  refine ⟨(created.2.write created.1 0 (byte :: rest)).rename, ?_, ?_⟩
  · have written : (created.2.write created.1 0 (byte :: rest)).temporary = some created.1 := named
    rw [Disk.onDisk_rename _ _ written, ← format.decode_encode registry, bytes]
    congr 1
    simp [Disk.write, Disk.fill, emptied, Patch.write]
  · unfold Runs.run
    simp only [List.foldl_cons, List.foldl_nil, create, write]
    rw [takeTurn_renames _ _ _ (Function.update_self ..)]
    simp [Relay.move]

theorem encode_prettyJson (registry : Registry) :
    ∃ byte rest, prettyJson.encode registry = byte :: rest := by
  apply List.exists_cons_of_ne_nil
  intro empty
  have shorter := JsonText.length_le_utf8 (prettyText registry.entries)
  rw [show JsonText.utf8 (prettyText registry.entries) = [] from empty] at shorter
  cases held : registry.entries with
  | nil => simp [held, prettyText] at shorter
  | cons entry entries => simp [held, prettyText] at shorter

/-- Two creations both read the registry before either writes its own, and the image of the one
that is renamed first is forgotten. -/
theorem not_allRemembered_shared :
    ¬∀ (format : Format) (images : Nat → List Char) (fingerprint : List Char) (start : Disk)
      (turns : List Turn), AllRemembered format images fingerprint start turns := by
  intro all
  let holds creation := added prettyJson twoImages "source-a".toList creation none
  obtain ⟨_, first, firstBytes⟩ := encode_prettyJson (holds 0)
  obtain ⟨_, second, secondBytes⟩ := encode_prettyJson (holds 1)
  let both := ((opened noRegistry).move 0 (.holding (holds 0)) noRegistry).move 1
    (.holding (holds 1)) noRegistry
  obtain ⟨disk, -, firstRun⟩ :=
    writes_alone prettyJson twoImages "source-a".toList 0 both rfl firstBytes
  obtain ⟨disk', reads, secondRun⟩ :=
    writes_alone prettyJson twoImages "source-a".toList 1 (both.move 0 .recorded disk) rfl
      secondBytes
  have ended : afterTurns prettyJson twoImages "source-a".toList noRegistry
      ([⟨0, 0⟩, ⟨1, 0⟩] ++ [⟨0, 0⟩, ⟨0, first.length⟩, ⟨0, 0⟩] ++
        [⟨1, 0⟩, ⟨1, second.length⟩, ⟨1, 0⟩]) =
      (both.move 0 .recorded disk).move 1 .recorded disk' := by
    unfold afterTurns
    rw [Runs.run_append, Runs.run_append, ← secondRun, ← firstRun]
    rfl
  have idle : ∀ creation, ¬(((both.move 0 .recorded disk).move 1 .recorded disk').stages
      creation).Busy := by
    intro creation
    by_cases second : creation = 1
    · simp [Relay.move, second, Stage.Busy]
    · by_cases first : creation = 0
      · simp [Relay.move, first, Stage.Busy]
      · simp [Relay.move, both, opened, first, second, Stage.Busy]
  have remembered := (all _ _ _ _ _).2 (by rw [ended]; exact idle) 0 (by rw [ended]; rfl)
  rw [ended] at remembered
  have forgotten : (holds 1).get (twoImages 0) = none := by decide
  simp [Disk.Remembers, Disk.current, Relay.move, reads, forgotten] at remembered

end Supercov.DockerProxy
