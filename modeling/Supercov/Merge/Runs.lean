import Supercov.Merge.Currency

/-!
# Merging runs

Runs of one suite become one: each one's records under its own shard, without
those of tests whose run is out of date for them and that another of the runs
measured again.  Reading and writing JSON is a parameter; taking the store's
lock and publishing what was written is left out.
-/

namespace Supercov.Merge

open Ordered Outcome
open Archive (EvidenceArchiveEntry)

/-- The record of the files a run was recorded with. -/
def sourceInputsPath : String := "source-inputs.json"

structure InputManifest (Code : Type) where
  schemaVersion : Nat
  language : String
  files : FileManifest Code
  deriving DecidableEq

inductive StructuralSource where
  | ownedProbes
  | nativeImport
  | mixed
  deriving DecidableEq, Repr

/-- What a runner declares; its execution model, attribution and limitations are
only compared. -/
structure FrontendRunnerDeclaration (Detail : Type) where
  runner : String
  detail : Detail
  deriving DecidableEq

structure FrontendRunDeclaration (Detail : Type) where
  protocolVersion : Nat
  frontendId : String
  frontendVersion : String
  language : String
  structuralSource : StructuralSource
  runners : List (FrontendRunnerDeclaration Detail)
  structuralLimitations : List String
  deriving DecidableEq

/-- Reading and writing of JSON, as bytes. -/
structure Serde (Code Detail : Type) where
  value : List UInt8 → Option JsonValue
  toVec : JsonValue → List UInt8
  manifest : List UInt8 → Option (InputManifest Code)
  manifestToVec : InputManifest Code → List UInt8
  support : JsonValue → Option (List (String × List String))
  declaration : List UInt8 → Option (FrontendRunDeclaration Detail)
  declarationToVec : FrontendRunDeclaration Detail → List UInt8

structure RunFingerprint where
  source : String
  tests : String
  dependencies : String
  configuration : String
  instrumenter : String
  execution : String
  combined : String
  sourceFiles : Nat
  deriving DecidableEq, Repr

structure RunIntegrity where
  schemaVersion : Nat
  instrumenterVersion : String
  fingerprint : RunFingerprint
  deriving DecidableEq, Repr

structure RunMetadata where
  startedAt : String
  command : List String
  integrity : RunIntegrity
  merged : Option Bool
  recordedBy : Option String
  deriving DecidableEq, Repr

/-- A run of the store, with what reading its archive gives and the files its tests
are written in, where it recorded them. -/
structure StoredRun where
  id : String
  metadata : RunMetadata
  archive : Outcome String (List EvidenceArchiveEntry)
  testFiles : Option (List String)

structure RunInventory where
  runs : List StoredRun
  rejected : List (String × String)

section Records

def isObject : JsonValue → Bool
  | .object _ => true
  | _ => false

def withRunId (runId : String) : JsonValue → JsonValue
  | .object fields => .object (JsonValue.insertField "runId" (.string runId) fields)
  | value => value

mutual

def rewriteScopeRunIds (mergedRunId : String) : JsonValue → JsonValue
  | .array items => .array (rewriteItems mergedRunId items)
  | .object fields => .object (rewriteFields mergedRunId fields)
  | value => value

def rewriteItems (mergedRunId : String) : List JsonValue → List JsonValue
  | [] => []
  | item :: items => rewriteScopeRunIds mergedRunId item :: rewriteItems mergedRunId items

def rewriteFields (mergedRunId : String) : JsonValue.Fields → JsonValue.Fields
  | [] => []
  | (key, value) :: rest =>
    (key, if key = "scope" ∧ isObject value then withRunId mergedRunId value
      else rewriteScopeRunIds mergedRunId value) :: rewriteFields mergedRunId rest

end

/-- The test a record is of: a test's own record names it, and a server's names it in
its scope. -/
def recordTest (value : JsonValue) : Option String :=
  match (value.get "testId").asStr with
  | some test => some test
  | none => ((value.get "scope").get "testId").asStr

def lines (contents : List UInt8) : List (List UInt8) := contents.splitOn Archive.newline

variable {Code Detail : Type} (serde : Serde Code Detail)

/-- A line of `str::lines`: without the carriage return that ends it. -/
def withoutReturn (line : List UInt8) : List UInt8 :=
  if line.getLast? = some 13 then line.dropLast else line

def measuredTest (line : List UInt8) : Option (String × String) :=
  if JsonText.utf8 "\"testId\"".toList <:+: line then
    (serde.value line).bind fun value =>
      (value.get "testId").asStr.bind fun id =>
        (value.get "test").asStr.map fun name => (id, name)
  else none

def measuredTests (archive : List EvidenceArchiveEntry) : List (String × String) :=
  mapOf (archive.flatMap fun entry =>
    if (JsonText.readUtf8 entry.contents).isSome then
      (lines entry.contents).filterMap fun line => measuredTest serde (withoutReturn line)
    else [])

/-- The records that a text's lines hold, and none where one is malformed. -/
def parseLines : List (List UInt8) → Option (List JsonValue)
  | [] => some []
  | line :: rest =>
    if line = [] then parseLines rest
    else (serde.value line).bind fun value => (parseLines rest).map (value :: ·)

def isSuperseded (superseded : Option (List String)) (value : JsonValue) : Bool :=
  superseded.any fun tests => (recordTest value).any fun test => test ∈ tests

/-- The records as lines. -/
def joined (values : List JsonValue) : List UInt8 :=
  [Archive.newline].intercalate (values.map serde.toVec)

/-- An entry's records for the merge, without those of the tests measured again in
another run; none when nothing of the entry is left. -/
def rewrittenContents (contents : List UInt8) (mergedRunId : String)
    (superseded : Option (List String)) : Outcome String (Option (List UInt8)) :=
  if (JsonText.readUtf8 contents).isNone then
    .refused "coverage evidence contains non-UTF-8 data"
  else
    match parseLines serde (lines contents) with
    | none => .refused "cannot merge malformed recognized JSON evidence"
    | some values =>
      let kept := values.filter fun value => !isSuperseded superseded value
      let rewritten := joined serde (kept.map (rewriteScopeRunIds mergedRunId))
      let ending := if contents.getLast? = some Archive.newline ∧ kept ≠ [] then [Archive.newline]
        else []
      if kept ≠ [] ∨ kept.length = values.length then .ok (some (rewritten ++ ending))
      else .ok none

def mergedPath (path : String) (shard : Nat) : String :=
  if startsWith path "server/background/" then
    "server/background/shard-" ++ toString shard ++ "-" ++ lastPart path
  else if startsWith path "server/" then
    "server/shard-" ++ toString shard ++ "/" ++ String.ofList (path.toList.drop 7)
  else "shards/" ++ toString shard ++ "/" ++ path

end Records

section Compatibility

def incompatibleDimensions (first candidate : StoredRun) : List String :=
  let first := first.metadata.integrity
  let candidate := candidate.metadata.integrity
  let held := first.fingerprint
  let given := candidate.fingerprint
  let dimensions :=
    (if candidate.schemaVersion ≠ first.schemaVersion then ["coverage schema"] else []) ++
    (if candidate.instrumenterVersion ≠ first.instrumenterVersion ∨
        given.instrumenter ≠ held.instrumenter then ["instrumenter"] else []) ++
    (if given.source ≠ held.source then ["source"] else []) ++
    (if given.tests ≠ held.tests then ["tests"] else []) ++
    (if given.dependencies ≠ held.dependencies then ["dependencies"] else []) ++
    (if given.configuration ≠ held.configuration then ["configuration"] else [])
  if dimensions = [] ∧ given.combined ≠ held.combined ∧ given.execution = held.execution then
    ["integrity fingerprint"]
  else dimensions

def listed (items : List String) : String :=
  if items.length ≤ 3 then "; ".intercalate items
  else "; ".intercalate (items.take 3) ++ "; and " ++ toString (items.length - 3) ++ " more"

def recordedByAnotherRelease (version : String) (run : StoredRun) : String :=
  match run.metadata.recordedBy with
  | some recorded =>
    if recorded ≠ version then
      "it was recorded by Supercov " ++ recorded ++
        ", which instruments differently from Supercov " ++ version
    else
      "it was recorded by another build of Supercov " ++ version ++
        ", which instruments differently from this one"
  | none =>
    let started := run.metadata.startedAt.toList
    "it was recorded" ++
      (if 10 ≤ started.length then " on " ++ String.ofList (started.take 10) else "") ++
      " by a Supercov older than 4.7.0, which instruments differently from Supercov " ++ version

variable {Code Detail : Type} (serde : Serde Code Detail)

def entryAt (path : String) (archive : List EvidenceArchiveEntry) : Option EvidenceArchiveEntry :=
  archive.find? fun entry => entry.path = path

def measuredLanguage (run : StoredRun) : Outcome String (Option String) :=
  match run.archive with
  | .ok archive =>
    match entryAt "frontend.json" archive with
    | some entry => .ok ((serde.declaration entry.contents).map FrontendRunDeclaration.language)
    | none => .crashed
  | _ => .ok none

/-- A run whose dimensions say that another build or release instrumented it. -/
def refuseInstrumented (version : String) (first input : StoredRun) :
    Outcome String PUnit := do
  let firstLanguage ← measuredLanguage serde first
  let language ← measuredLanguage serde input
  match firstLanguage, language with
  | some firstLanguage, some language =>
    refuseIf (firstLanguage ≠ language)
      ("Cannot merge run " ++ input.id ++ ": it measured " ++ language ++ ", and run " ++
        first.id ++ " measured " ++ firstLanguage ++
        "; runs of different languages are not merged")
  | _, _ => pure ⟨⟩
  let older := ([first, input].find? fun run =>
    run.metadata.recordedBy ≠ some version).getD input
  .refused ("Cannot merge run " ++ older.id ++ ": " ++ recordedByAnotherRelease version older ++
    ". Measure it again to merge it.")

/-- Tests, configuration and source may differ; nothing else. -/
def checkCompatible (version : String) (first input : StoredRun) : Outcome String PUnit := do
  let dimensions := incompatibleDimensions first input
  if "instrumenter" ∈ dimensions ∨ "coverage schema" ∈ dimensions then
    refuseInstrumented serde version first input
  else
    let dimensions :=
      if input.metadata.integrity.fingerprint.sourceFiles ≠
          first.metadata.integrity.fingerprint.sourceFiles ∧ "source" ∉ dimensions then
        dimensions ++ ["source files"]
      else dimensions
    refuseIf (∃ dimension ∈ dimensions, dimension ∉ ["tests", "configuration", "source"])
      ("Cannot merge incompatible run " ++ input.id ++ ": differing domains: " ++
        ", ".intercalate dimensions)

end Compatibility

section Latest

variable {Code Detail : Type} [DecidableEq Code] (serde : Serde Code Detail)

structure Input where
  run : StoredRun
  archive : List EvidenceArchiveEntry

/-- The record of the files a run was recorded with, where its archive has one; a
malformed one panics. -/
def recordedFiles (archive : List EvidenceArchiveEntry) :
    Outcome String (Option (InputManifest Code)) :=
  match entryAt sourceInputsPath archive with
  | none => .ok none
  | some entry =>
    match serde.manifest entry.contents with
    | some manifest => .ok (some manifest)
    | none => .crashed

def latestOf (inputs : List Input) : Nat :=
  (inputs.zipIdx.foldl (fun best input =>
    match best with
    | none => some input
    | some held =>
      if held.1.run.metadata.startedAt ≤ input.1.run.metadata.startedAt then some input
      else some held) none).elim 0 Prod.snd

/-- Whether the runs' tests, configuration, source or recorded files differ. -/
def differ (inputs : List Input) (files : List (Option (InputManifest Code))) : Bool :=
  match inputs with
  | [] => false
  | first :: _ =>
    let fingerprint (input : Input) := input.run.metadata.integrity.fingerprint
    (inputs.any fun input =>
      (fingerprint input).tests ≠ (fingerprint first).tests ||
        (fingerprint input).configuration ≠ (fingerprint first).configuration ||
        (fingerprint input).source ≠ (fingerprint first).source) ||
      files.any fun recorded =>
        recorded.map InputManifest.files ≠ (files.headD none).map InputManifest.files

/-- The latest run's record, with what the checkout holds of the files that only
other runs recorded. -/
def withCheckoutFiles (readers : Readers Code) (text : String → Option String)
    (latest : InputManifest Code) (files : List (Option (InputManifest Code))) :
    InputManifest Code :=
  files.reduceOption.foldl (fun into recorded =>
    recorded.files.foldl (fun into file =>
      if (into.files.lookup file.1).isSome then into
      else
        match text file.1 with
        | some text =>
          { into with
            files := put file.1
              { sha256 := readers.sha256 text, bytes := text.utf8ByteSize, code := none }
              into.files }
        | none => into) into) latest

/-- What runs that differ are judged by. -/
structure Grown (Code : Type) where
  latest : Nat
  files : InputManifest Code
  across : List String
  superseded : List (Option (List String))

/-- What the runs are judged by: the checkout's texts, what other parts read from
them, every run known, and whether changes are accepted. -/
structure Setting (Code : Type) where
  readers : Readers Code
  text : String → Option String
  known : List StoredRun
  allowChanged : Bool

def ranOf (input : Input) : Ran :=
  Ran.fromEntries serde.value serde.support input.archive (input.run.metadata.merged == some true)

/-- What one of the runs is judged by, the latest being of these files. -/
def judgingOf (setting : Setting Code) (input latest : Input) (recorded into : FileManifest Code) :
    Judging Code :=
  { readers := setting.readers
    tests := setOf (setting.known.filterMap StoredRun.testFiles).flatten
    label := " ".intercalate input.run.metadata.command
    recorded := recorded
    now := into
    text := setting.text
    own := input.run.testFiles
    ran := ranOf serde input
    reference := (ranOf serde latest).playwright
    allowChanged := setting.allowChanged }

def Judgment.reachedTests (judgment : Judgment) : List String :=
  setOf (judgment.reached.flatMap Prod.snd)

/-- What a judgment lets through of one run, and the tests it leaves out; refused
where a test was not measured again, or the run is out of date. -/
def admitRun (input latest : Input) (others : List Input) (judgment : Judgment) :
    Outcome String (List String × Option (List String)) := do
  let reached := judgment.reachedTests
  let own := measuredTests serde input.archive
  let again := others.flatMap fun other => (measuredTests serde other.archive).map Prod.fst
  let files := judgment.reached.map Prod.fst
  let missing := (reached.filter fun test => test ∉ again).map fun test =>
    (own.lookup test).getD test
  refuseIf (missing ≠ [])
    ("Cannot merge run " ++ input.run.id ++ " with run " ++ latest.run.id ++ ": " ++
      listed files ++ " changed, and " ++ toString missing.length ++ " of its tests reached " ++
      (if files.length = 1 then "it" else "them") ++
      " through a server that served them and were not measured again: " ++ listed missing ++
      ". Measure them again (`supercov runs " ++ input.run.id ++
      " tests affected --names`), then merge.")
  let across := judgment.reached.map fun entry =>
    entry.1 ++ " (the " ++ toString entry.2.length ++ " test(s) of `" ++
      " ".intercalate input.run.metadata.command ++ "` that reached it were measured again)"
  refuseIf (judgment.outdated ≠ [])
    ("Cannot merge run " ++ input.run.id ++ " with run " ++ latest.run.id ++ ": " ++
      listed judgment.outdated ++ ". " ++
      (if judgment.ownTests then "Its own tests changed; measure them again."
        else if judgment.settled then "Measure it again."
        else "Measure it again, or pass --allow-changed if the change alters nothing its tests ran."))
  return (across ++ judgment.across, if judgment.reached = [] then none else some reached)

/-- Without a record of the files, the domains are all there is to say. -/
def unrecorded (inputs : List Input) (files : List (Option (InputManifest Code)))
    (input : Input) : String :=
  let dimensions :=
    match inputs.find? fun other => other.run.id ≠ input.run.id with
    | some other => incompatibleDimensions other.run input.run
    | none => []
  let dimensions := if files.any Option.isSome then dimensions ++ ["recorded files"] else dimensions
  "Cannot merge incompatible run " ++ input.run.id ++ ": differing domains: " ++
    ", ".intercalate dimensions

/-- One of the runs against the latest. -/
def judgeRun (setting : Setting Code) (inputs : List Input)
    (files : List (Option (InputManifest Code))) (latest : Nat × Input)
    (into : InputManifest Code) (input : Input × Nat) :
    Outcome String (List String × Option (List String)) :=
  if input.2 = latest.1 then .ok ([], none)
  else
    match (files[input.2]?).join with
    | none => .refused (unrecorded inputs files input.1)
    | some recorded =>
      admitRun serde input.1 latest.2 (inputs.eraseIdx input.2)
        (judge (judgingOf serde setting input.1 latest.2 recorded.files into.files))

/-- Which of the runs the others can be added to, where their tests or test
configuration differ, and what of them is out of date. -/
def judgedAgainstLatest (setting : Setting Code) (inputs : List Input) :
    Outcome String (Option (Grown Code)) := do
  let files ← collect (fun input => recordedFiles serde input.archive) inputs
  if !differ inputs files then return none
  else
    let index := latestOf inputs
    match inputs[index]?, (files[index]?).join with
    | some latest, some recorded => do
      let into := withCheckoutFiles setting.readers setting.text recorded files
      let judged ← collect (judgeRun serde setting inputs files (index, latest) into)
        inputs.zipIdx
      return some {
        latest := index
        files := into
        across := acrossFiles (judged.flatMap Prod.fst)
        superseded := judged.map Prod.snd
      }
    | some latest, none => .refused (unrecorded inputs files latest)
    | none, _ => .crashed

end Latest

section Denominators

variable {Code Detail : Type} [DecidableEq Detail] (serde : Serde Code Detail)

def unrunWorker : String := "rust-worker-not-run#"

/-- The unrun-Worker notes of a manifest. -/
def unrunNotes (manifest : JsonValue) : List String :=
  setOf ((((manifest.get "limitations").asArray.getD []).filterMap fun limitation =>
    (limitation.get "id").asStr).filter fun id => startsWith id unrunWorker)

/-- A manifest without the notes that not every run shares. -/
def withoutUnshared (shared : List String) (manifest : JsonValue) : JsonValue :=
  match manifest, (manifest.get "limitations").asArray with
  | .object fields, some limitations =>
    let kept := limitations.filter fun limitation =>
      match (limitation.get "id").asStr with
      | some id => !startsWith id unrunWorker || id ∈ shared
      | none => true
    if kept = [] then .object (JsonValue.removeField "limitations" fields)
    else .object (JsonValue.insertField "limitations" (.array kept) fields)
  | _, _ => manifest

/-- Each manifest without the unrun-Worker notes no run shares, and those every run
shares. -/
def settleUnrunWorkers (manifests : List (List UInt8)) : List (List UInt8) × List String :=
  let parsed := manifests.map serde.value
  let notes := parsed.reduceOption.map unrunNotes
  let shared := (notes.drop 1).foldl (fun shared next => shared.filter (· ∈ next)) (notes.headD [])
  if notes.all (· = shared) then (manifests, shared)
  else
    (manifests.zipWith (fun raw parsed =>
      match parsed with
      | some manifest => serde.toVec (withoutUnshared shared manifest)
      | none => raw) parsed, shared)

def measuredOf (manifest : List UInt8) : Outcome String JsonValue :=
  match serde.value manifest with
  | some (.object fields) => .ok (.object (JsonValue.removeField "scope" fields))
  | _ => .crashed

/-- The manifest of the merge: every run's is the same, scopes apart where the tests
grew. -/
def mergedManifest (manifests : List (List UInt8)) (latest : Option Nat) :
    Outcome String (List UInt8) := do
  let first := manifests.headD []
  match latest with
  | some latest => do
    let measured ← collect (measuredOf serde) manifests
    refuseIf (∃ candidate ∈ measured, candidate.same (measured.headD .null) = false)
      "Cannot merge runs with different coverage denominators"
    return manifests.getD latest []
  | none => do
    refuseIf (∃ candidate ∈ manifests, candidate ≠ first)
      "Cannot merge runs with different coverage denominators"
    return first

def addRunner (runners : List (String × FrontendRunnerDeclaration Detail))
    (runner : FrontendRunnerDeclaration Detail) :
    Outcome String (List (String × FrontendRunnerDeclaration Detail)) :=
  match runners.lookup runner.runner with
  | some existing =>
    if existing = runner then .ok runners
    else .refused ("Cannot merge incompatible declarations for runner " ++ runner.runner)
  | none => .ok (put runner.runner runner runners)

def addDeclaration (first : FrontendRunDeclaration Detail)
    (runners : List (String × FrontendRunnerDeclaration Detail))
    (declaration : FrontendRunDeclaration Detail) :
    Outcome String (List (String × FrontendRunnerDeclaration Detail)) := do
  refuseIf ({ declaration with runners := first.runners } ≠ first)
    "Cannot merge runs with different frontend declarations"
  declaration.runners.foldlM addRunner runners

def declarationOf (shared : List String) (input : Input) :
    Outcome String (FrontendRunDeclaration Detail) :=
  match entryAt "frontend.json" input.archive with
  | none => .crashed
  | some entry =>
    match serde.declaration entry.contents with
    | none => .refused "Cannot merge invalid frontend declaration"
    | some declaration =>
      .ok { declaration with
        structuralLimitations := declaration.structuralLimitations.filter fun id =>
          !startsWith id unrunWorker || id ∈ shared }

def mergedDeclaration (declarations : List (FrontendRunDeclaration Detail)) :
    Outcome String (FrontendRunDeclaration Detail) :=
  match declarations with
  | [] => .crashed
  | first :: _ => do
    let runners ← declarations.foldlM (addDeclaration first) []
    return { first with runners := runners.map Prod.snd }

end Denominators

section Merge

variable {Code Detail : Type} [DecidableEq Code] [DecidableEq Detail] (serde : Serde Code Detail)

def wholeRunPaths : List String := ["coverage-model.json", "frontend.json", "manifest.json"]

/-- An entry of these bytes, of which a vector holds at most `isize::MAX`. -/
def makeEntry (path : String) (contents : List UInt8) : Outcome String EvidenceArchiveEntry :=
  if fits : contents.length < 2 ^ 63 then
    .ok { path := path, contents := contents, length_lt := fits }
  else .crashed

/-- What an entry of a run becomes: the record of files is one for the whole merge,
the latest run's. -/
def mergedContents (mergedRunId : String) (grown : Option (Grown Code)) (shard : Nat)
    (entry : EvidenceArchiveEntry) : Outcome String (Option (List UInt8)) :=
  let superseded := grown.bind fun grown => (grown.superseded[shard]?).join
  match grown.filter fun _ => entry.path = sourceInputsPath with
  | some grown => .ok (some (serde.manifestToVec grown.files))
  | none => rewrittenContents serde entry.contents mergedRunId superseded

def mergedEntry (mergedRunId : String) (grown : Option (Grown Code)) (shard : Nat)
    (entry : EvidenceArchiveEntry) : Outcome String (Option EvidenceArchiveEntry) := do
  let contents ← mergedContents serde mergedRunId grown shard entry
  match contents with
  | none => return none
  | some contents => do
    let merged ← makeEntry (mergedPath entry.path shard) contents
    return some merged

def mergedShard (mergedRunId : String) (grown : Option (Grown Code)) (input : Input × Nat) :
    Outcome String (List EvidenceArchiveEntry) := do
  let entries ← collect (mergedEntry serde mergedRunId grown input.2)
    (input.1.archive.filter fun entry => entry.path ∉ wholeRunPaths)
  return entries.reduceOption

def contentsAt (path : String) (input : Input) : Outcome String (List UInt8) :=
  match entryAt path input.archive with
  | some entry => .ok entry.contents
  | none => .crashed

/-- The entries of the merge of these runs. -/
def mergedEntries (setting : Setting Code) (mergedRunId : String) (inputs : List Input) :
    Outcome String (List EvidenceArchiveEntry) := do
  let grown ← judgedAgainstLatest serde setting inputs
  let manifests ← collect (contentsAt "manifest.json") inputs
  let (settled, shared) := settleUnrunWorkers serde manifests
  let manifest ← mergedManifest serde settled (grown.map Grown.latest)
  let models ← collect (contentsAt "coverage-model.json") inputs
  refuseIf (∃ candidate ∈ models, candidate ≠ models.headD [])
    "Cannot merge runs with different coverage models"
  let declarations ← collect (declarationOf serde shared) inputs
  let declaration ← mergedDeclaration declarations
  let model ← makeEntry "coverage-model.json" (models.headD [])
  let frontend ← makeEntry "frontend.json" (serde.declarationToVec declaration)
  let manifest ← makeEntry "manifest.json" manifest
  let shards ← collect (mergedShard serde mergedRunId grown) inputs.zipIdx
  return [model, frontend, manifest] ++ shards.flatten

def findRun (inventory : RunInventory) (id : String) : Outcome String StoredRun :=
  match inventory.runs.find? fun run => run.id = id with
  | some run => .ok run
  | none =>
    match inventory.rejected.lookup id with
    | some reason => .refused ("Cannot merge coverage run " ++ id ++ ": " ++ reason)
    | none => .refused ("Cannot merge coverage run " ++ id ++ ": no such local run")

def readInput (run : StoredRun) : Outcome String Input :=
  match run.archive with
  | .ok archive => .ok { run := run, archive := archive }
  | .refused error => .refused ("Cannot merge coverage run " ++ run.id ++ ": " ++ error)
  | .crashed => .crashed

/-- The runs that a merge of these ids reads. -/
def readInputs (version : String) (inventory : RunInventory) (runIds : List String) :
    Outcome String (List Input) := do
  refuseIf (runIds.length < 2) "Usage: supercov merge <run-id> <run-id> [...]"
  refuseIf (¬ runIds.Nodup) "Each merged run must be unique"
  let runs ← collect (findRun inventory) runIds
  match runs with
  | [] => .crashed
  | first :: others => do
    forEach (checkCompatible serde version first) others
    collect readInput runs

def writeMerged (gzip : Archive.Gzip) (entries : List EvidenceArchiveEntry) :
    Outcome String Archive.Published :=
  match Archive.writeArchive gzip entries with
  | .ok published => .ok published
  | .refused _ => .refused "Could not write merged evidence"
  | .crashed => .crashed

/-- The archive of the merge of the runs of these ids: its entries and its file. -/
def mergeCoverageRuns (gzip : Archive.Gzip) (version : String) (inventory : RunInventory)
    (readers : Readers Code) (text : String → Option String) (runIds : List String)
    (mergedRunId : String) (allowChanged : Bool) :
    Outcome String (List EvidenceArchiveEntry × Archive.Published) := do
  let inputs ← readInputs serde version inventory runIds
  let setting : Setting Code :=
    { readers := readers, text := text, known := inventory.runs, allowChanged := allowChanged }
  let entries ← mergedEntries serde setting mergedRunId inputs
  let published ← writeMerged gzip entries
  return (entries, published)

end Merge

end Supercov.Merge
