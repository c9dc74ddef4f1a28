import Mathlib.Data.List.Destutter
import Supercov.Library.JsonText
import Supercov.Affected.Changes

/-!
# Which tests a change could have reached

Each test of a run has a record of the units it ran.  Against the changes of a checkout a
test is affected where its record, its own file or a file it loads says so; where its
record is not all it ran, by what the run as a whole covered; and otherwise unaffected.

What is read of the checkout (its files, what its test files import, the tests of other
runs) is given.  The entries stand in the order of the run, before they are ranked.
-/

namespace Supercov.Affected

open Supercov.Units

structure TestSelector where
  file : File
  name : Text
  deriving DecidableEq

structure Execution where
  test : TestSelector
  passed : Bool
  /-- Per file, the innermost unit of every probe this test fired. -/
  files : List (File × List Nat)
  attribution : String

structure Executions where
  tests : List Execution
  /-- Per file, the units that hold a probe of their own. -/
  probed : List (File × List Nat)
  /-- Per file, the units the run reached. -/
  covered : List (File × List Nat)

structure RunRecord (Digest : Type) where
  manifest : List (File × Fingerprint Digest)
  executions : Executions

/-- The files a set of entry files loads, and the first import that could not be followed. -/
structure Loads where
  files : List File
  unfollowed : Option Text

structure SupportReach where
  files : List (File × List Text)
  names : List (Text × Text)

/-- What is read of a checkout, and of the run beside its record. -/
structure Checkout (Digest : Type) where
  /-- The captured files as they are now. -/
  now : File → Option (Fingerprint Digest)
  source : File → Option Text
  /-- The files of every stored run's tests. -/
  knownTests : List File
  measured : Option (List File)
  /-- All that the file gained since the view is functions that no code names. -/
  onlyAdded : Code Digest → File → Bool
  loads : File → Option Loads
  /-- Some known test file imports the file. -/
  places : File → Bool
  support : Option SupportReach

/-- Only where everything a test ran is recorded does an absence say that it did not run. -/
def coverageIsComplete (attribution : String) : Bool :=
  attribution = "exact" ∨ attribution = "by-time" ∨ attribution = ""

section Names

def parts (isMark : UInt8 → Bool) : Text → List Text
  | [] => [[]]
  | byte :: rest =>
    match parts isMark rest with
    | [] => [[byte]]
    | part :: others => if isMark byte then [] :: part :: others else (byte :: part) :: others

def lastPart (mark : UInt8) (text : Text) : Text :=
  (text.reverse.takeWhile (· ≠ mark)).reverse

def firstPart (mark : UInt8) (text : Text) : Text :=
  text.takeWhile (· ≠ mark)

def slash : UInt8 := 47

def dot : UInt8 := 46

def toAsciiLowercase (text : Text) : Text :=
  text.map fun byte => if 65 ≤ byte ∧ byte ≤ 90 then byte + 32 else byte

def startsWith (text start : Text) : Bool :=
  start.isPrefixOf text

def endsWith (text ending : Text) : Bool :=
  ending.isSuffixOf text

def holds (text part : Text) : Bool :=
  text.tails.any part.isPrefixOf

def besideTheTests (file : File) : Bool :=
  let lower := toAsciiLowercase file
  firstPart slash lower ∈ [utf8 "test", utf8 "tests", utf8 "__tests__"] ||
    (parts (· ∈ [slash, 95, dot, 45]) lower).any (· ∈ [utf8 "test", utf8 "spec"])

def dependencyFile (file : File) : Bool :=
  lastPart slash file ∈
    [utf8 "package.json", utf8 "package-lock.json", utf8 "npm-shrinkwrap.json",
      utf8 "pnpm-lock.yaml", utf8 "yarn.lock", utf8 "bun.lock", utf8 "bun.lockb"]

/-- Linters and formatters do not change what the code does when it runs. -/
def formattingOnly (name : Text) : Bool :=
  let stem := if startsWith name [dot] then name.drop 1 else name
  startsWith stem (utf8 "eslint") || startsWith stem (utf8 "prettier")

def configurationFile (file : File) : Bool :=
  let name := toAsciiLowercase (lastPart slash file)
  !formattingOnly name &&
    (name = utf8 ".npmrc" || name = utf8 "bunfig.toml" ||
      startsWith name (utf8 "tsconfig") && endsWith name (utf8 ".json") ||
      holds name (utf8 ".config.") || startsWith name (utf8 ".babelrc."))

/-- Whether a text holds a word as a whole identifier.  `before` is the character before the
text, and the first `skipped` characters are those of an occurrence already seen. -/
def namesWord (alphanumeric : Char → Bool) (word : List Char) :
    Option Char → Nat → List Char → Bool
  | _, _, [] => false
  | _, skipped + 1, c :: rest => namesWord alphanumeric word (some c) skipped rest
  | before, 0, c :: rest =>
    let part (c : Option Char) := c.any fun c => alphanumeric c || c = '_'
    if word.isPrefixOf (c :: rest) then
      !part before && !part ((c :: rest).drop word.length).head? ||
        namesWord alphanumeric word (some c) (word.length - 1) rest
    else namesWord alphanumeric word (some c) 0 rest

end Names

structure ChangedCode where
  file : File
  declaration : Text
  own : List (Nat × Nat)
  now : Option (Nat × Nat)

structure Entry where
  test : TestSelector
  reasons : List Text
  /-- Named where the record is not all that the test ran. -/
  attribution : Option String
  changedCode : List ChangedCode

inductive Bucket where
  | affected | undetermined | unaffected
  deriving DecidableEq

structure ChangedFile where
  file : File
  change : Text
  detail : Option Text

structure TestsReport where
  affected : List Entry
  undetermined : List Entry
  unaffected : List Entry
  changedFiles : List ChangedFile

/-- A declaration's own lines: its span without the spans of those nested in it. -/
def ownLines {Digest : Type} (code : Code Digest) (unit : CodeUnit Digest) (index : Nat) :
    List (Nat × Nat) :=
  let children := ((code.units.filter (·.parent = some index)).map fun child =>
    (child.line, child.endLine)).insertionSort fun span other => spanLe span other
  let (out, next) := children.foldl
    (fun (out, next) (start, stop) =>
      (if next < start then out ++ [(next, start - 1)] else out, max next (stop + 1)))
    ([], unit.line)
  if next ≤ unit.endLine then out ++ [(next, unit.endLine)] else out

section Judged

variable {Digest : Type} [DecidableEq Digest] (alphanumeric : Char → Bool)
  (run : RunRecord Digest) (checkout : Checkout Digest)

def changes : List (File × FileChange Digest) :=
  run.manifest.filterMap fun entry =>
    (fileChange (run.manifest.lookup entry.1) (checkout.now entry.1)
      (run.executions.probed.lookup entry.1)).map (entry.1, ·)

def changedFiles : List ChangedFile :=
  (changes run checkout).filterMap fun (file, change) =>
    match change with
    | .same | .added => none
    | .commentsOnly => some ⟨file, utf8 "formatting", none⟩
    | .removed => some ⟨file, utf8 "removed", none⟩
    | .bytes => some ⟨file, utf8 "changed", none⟩
    | .code before after diff narrow =>
      some ⟨file, if narrow then utf8 "bodies" else utf8 "declarations",
        some (describe before after diff)⟩

def codeOf (file : File) : Option (Code Digest) :=
  (run.manifest.lookup file).bind (·.code)

/-- What the run as a whole says of one change: its reach bounds that of a test whose own is
not known. -/
def boundReason : File × FileChange Digest → Option (Option Text)
  | (_, .same) | (_, .commentsOnly) | (_, .added) => some none
  | (file, .removed) => some (some (file ++ utf8 " removed (the run covered code in it)"))
  | (file, .bytes) => some (some (file ++ utf8 " changed (the run covered code in it)"))
  | (file, .code before _ diff _) => do
    -- Unit by unit: a function no test ran sits in the same file as the ones they did.
    let reached ← reach (codeOf run file) ((run.executions.covered.lookup file).getD [])
    let hit := pick before (diff.changed.filter (· ∈ reached))
    return if hit.isEmpty then none
      else some (file ++ utf8 ": " ++ named hit ++ utf8 " changed (the run covered it)")

def beyondTheRun : Option (List Text) := do
  let each ← (changes run checkout).mapM (boundReason run)
  return each.reduceOption

section Helpers

/-- The changed files that tests load and nothing probes, each with what is said of it. -/
def helpers : List (File × Text) :=
  let knownTests := checkout.knownTests ++ run.executions.tests.map (·.test.file)
  let helper (file : File) : Bool :=
    match checkout.measured with
    | some measured => decide (file ∉ measured)
    | none => besideTheTests file
  (changes run checkout).filterMap fun (file, change) =>
    if file ∉ knownTests ∧ helper file ∧ ¬ configurationFile file ∧ ¬ dependencyFile file then
      match change with
      | .same | .commentsOnly | .added => none
      -- A change that only adds functions reaches no test written before.
      | .code before after diff _ =>
        if checkout.onlyAdded before file then none
        else some (file, file ++ utf8 " changed: " ++ describe before after diff)
      | .removed => some (file, file ++ utf8 " removed")
      | .bytes => some (file, file ++ utf8 " changed")
    else none

def followed (record : Execution) : Option (List File) :=
  match checkout.loads record.test.file with
  | some loads => if loads.unfollowed.isNone then some loads.files else none
  | none => none

/-- Whether a process that loaded the file served the test, where the run recorded that. -/
def servedBy (record : Execution) (file : File) : Option Bool := do
  let support ← checkout.support
  let tests ← support.files.lookup file
  return tests.any fun test => support.names.lookup test = some record.test.name

def helperReason (record : Execution) : File × Text → Option Text
  | (file, what) =>
    let imported := (followed checkout record).any fun files => decide (file ∈ files)
    match servedBy checkout record file, imported with
    | some served, false =>
      if served then some (what ++ utf8 " (a server that served this test loaded it)") else none
    | _, _ =>
      if imported then some (what ++ utf8 " (this test's file loads it)")
      else if (followed checkout record).isNone || !checkout.places file then
        some (what ++ utf8 " (a file tests may load)")
      else none

end Helpers

section Named

/-- The names a test file may use to reach a file of the JVM: its top-level classes and its
own name. -/
def namesOf (file : File) (before : Code Digest) : Option (List Text) := do
  let stem := firstPart dot (lastPart slash file)
  let top ← before.units.mapM fun unit =>
    match unit.parent with
    | none => some true
    | some parent => (before.units[parent]?).map fun holder => decide (holder.path = [])
  let names := (((before.units.zip top).filter (·.2)).map fun unit => lastPart dot unit.1.path).filter
    fun name => 2 < name.length
  let own := if 2 < stem.length ∧
      stem ∉ [utf8 "mod", utf8 "lib", utf8 "main", utf8 "index", utf8 "__init__"] then [stem] else []
  return ((names ++ own).insertionSort fun text other => textLe text other).dedup

/-- For each JVM file whose declarations changed, the names a test file may use to reach it. -/
def namedByTests : Option (List (File × List Text)) := do
  let each ← (changes run checkout).mapM fun (file, change) =>
    match change with
    | .code before _ _ false =>
      if [".java", ".kt", ".kts", ".groovy", ".scala"].any fun extension =>
          endsWith file (utf8 extension) then
        (namesOf file before).map fun names => some (file, names)
      else some none
    | _ => some none
  return each.reduceOption

def namedReason (record : Execution) : File × List Text → Option Text
  | (file, names) =>
    -- What it ran there already decided.
    if file ∈ record.files.map Prod.fst ∨ file = record.test.file then none
    else do
      let text ← (checkout.source record.test.file).bind JsonText.readUtf8
      let name ← names.find? fun name =>
        (JsonText.readUtf8 name).any fun word => namesWord alphanumeric word none 0 text
      return file ++ utf8 ": declarations changed, and the test file names " ++ name ++
        utf8 " (code that runs once per process is credited to the first test to reach it)"

end Named

def ownReasons (record : Execution) : List Text :=
  (if record.passed then [] else [utf8 "did not pass in the run"]) ++
    match (changes run checkout).lookup record.test.file with
    | none | some .same | some .commentsOnly | some .added => []
    | some .removed => [utf8 "test file removed"]
    | some .bytes => [utf8 "test file changed"]
    | some (.code before after diff _) =>
      [utf8 "test file changed: " ++ describe before after diff]

/-- What one file of a test's record says, and the changed declarations in it that the test
ran. -/
def ranReasons : File × List Nat → Option (List Text × List ChangedCode)
  | (file, units) => do
    let ran ← reach (codeOf run file) units
    match (changes run checkout).lookup file with
    | none | some .same | some .commentsOnly | some .added => return ([], [])
    | some .removed => return ([file ++ utf8 " removed (this test ran code in it)"], [])
    | some .bytes => return ([file ++ utf8 " changed (this test ran code in it)"], [])
    | some (.code before after diff true) =>
      let indices := diff.changed.filter (· ∈ ran)
      let hit := pick before indices
      let changedCode := indices.filterMap fun index => (before.units[index]?).map fun unit =>
        { file := file
          declaration := unit.path
          own := ownLines before unit index
          now := (after.byPath unit.path).map fun now => (now.line, now.endLine) }
      return (if hit.isEmpty then []
        else [file ++ utf8 ": " ++ named hit ++ utf8 " changed (this test ran it)"], changedCode)
    | some (.code before after diff false) =>
      return ([file ++ utf8 ": " ++ describe before after diff ++
        utf8 " changed (this test ran code in this file)"], [])

/-- Where one test goes, and what is said of it. -/
def judge (bound : List Text) (byTests : List (File × List Text)) (record : Execution) :
    Option (Bucket × Entry) := do
  let ran ← record.files.mapM (ranReasons run checkout)
  let reasons := ownReasons run checkout record ++ ran.flatMap Prod.fst ++
    (helpers run checkout).filterMap (helperReason checkout record) ++
    byTests.filterMap (namedReason alphanumeric checkout record)
  if coverageIsComplete record.attribution then
    return (if reasons.isEmpty then .unaffected else .affected,
      { test := record.test, reasons := reasons, attribution := none,
        changedCode := ran.flatMap Prod.snd })
  else if reasons.isEmpty then
    -- The run's bound is what stands in for a record this test does not have.
    let reasons := (bound.insertionSort fun text other => textLe text other).destutter (· ≠ ·)
    return (if reasons.isEmpty then .unaffected else .undetermined,
      { test := record.test, reasons := reasons, attribution := some record.attribution,
        changedCode := [] })
  else
    return (.affected,
      { test := record.test, reasons := reasons, attribution := some record.attribution,
        changedCode := [] })

def judged : Option (List (Bucket × Entry)) := do
  let bound ← beyondTheRun run checkout
  let byTests ← namedByTests run checkout
  run.executions.tests.mapM (judge alphanumeric run checkout bound byTests)

def affectedTests : Option TestsReport := do
  let judged ← judged alphanumeric run checkout
  let inBucket (bucket : Bucket) := (judged.filter (·.1 = bucket)).map Prod.snd
  return {
    affected := inBucket .affected
    undetermined := inBucket .undetermined
    unaffected := inBucket .unaffected
    changedFiles := changedFiles run checkout }

end Judged

end Supercov.Affected
