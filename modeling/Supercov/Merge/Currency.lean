import Supercov.Library.JsonValue
import Supercov.Library.Ordered
import Supercov.Archive.Framing

/-!
# Whether a run is still a record of a checkout

Each file that differs from what a run was recorded with is judged by what it
is and what the run's tests did with it.  What the parsers say of a file and
its imports, and the digest of a text, are parameters.
-/

namespace Supercov.Merge

open Ordered

def playwrightConfiguration : String := "playwright-configuration.json"
def supportReachPath : String := "support-reach.json"

structure FileFingerprint (Code : Type) where
  sha256 : String
  bytes : Nat
  code : Option Code
  deriving DecidableEq

abbrev FileManifest (Code : Type) := List (String × FileFingerprint Code)

/-- The files a set of entry files loads, and the first import not followed. -/
structure Loads where
  files : List String
  unfollowed : Option String

/-- What other parts of the engine read from texts and paths. -/
structure Readers (Code : Type) where
  sha256 : String → String
  loads : List String → Loads
  namedBy : String → List String
  onlyAdded : Code → String → String → Option (List String)
  describe : Code → Code → String

section Paths

def contains (text part : String) : Bool := decide (part.toList <:+: text.toList)

def lastPart (path : String) : String := String.ofList ((path.toList.splitOn '/').getLastD [])

def lower (text : String) : String := String.ofList (text.toList.map Char.toLower)

def startsWith (text start : String) : Bool := start.toList.isPrefixOf text.toList

def endsWith (text ending : String) : Bool := ending.toList.isSuffixOf text.toList

def readsImports (file : String) : Bool :=
  [".py", ".rb", ".ts", ".tsx", ".mts", ".cts", ".js", ".jsx", ".mjs", ".cjs"].any (endsWith file)

def configurationRunner (file : String) : Option String :=
  let name := lower (lastPart file)
  if !contains name ".config." && !contains name ".workspace." then none
  else
    let stem := String.ofList ((name.toList.splitOn '.').headD [])
    if stem = "playwright" ∨ stem = "playwright-ct" then some "playwright"
    else if stem ∈ ["vitest", "jest", "ava"] then some stem
    else none

/-- Linters and formatters do not change what the code does. -/
def formattingOnly (name : String) : Bool :=
  let stem := if startsWith name "." then String.ofList (name.toList.drop 1) else name
  startsWith stem "eslint" || startsWith stem "prettier"

def configurationFile (file : String) : Bool :=
  let name := lower (lastPart file)
  if formattingOnly name then false
  else
    name == ".npmrc" || name == "bunfig.toml" ||
      (startsWith name "tsconfig" && endsWith name ".json") ||
      contains name ".config." || startsWith name ".babelrc."

def besideTheTests (file : String) : Bool :=
  let lowered := lower file
  let top := String.ofList ((lowered.toList.splitOn '/').headD [])
  let parts := lowered.toList.splitOnP fun letter => letter ∈ ['/', '_', '.', '-']
  top ∈ ["test", "tests", "__tests__"] ||
    parts.any fun part => String.ofList part ∈ ["test", "spec"]

def dependencyFile (file : String) : Bool :=
  lastPart file ∈ ["package.json", "package-lock.json", "npm-shrinkwrap.json", "pnpm-lock.yaml",
    "yarn.lock", "bun.lock", "bun.lockb"]

end Paths

section Ran

/-- What a run's archive says about how it ran, beyond its files. -/
structure Ran where
  runners : Option (List String)
  playwright : Option JsonValue
  measured : Option (List String)
  support : Option (List (String × List String))

def Ran.default : Ran := { runners := none, playwright := none, measured := none, support := none }

/-- Which of the entries that say so a path is, in a run or a merge of runs. -/
def Ran.wanted (path : String) (merged : Bool) : Option String :=
  let name := if merged then lastPart path else path
  [playwrightConfiguration, "frontend.json", "manifest.json", supportReachPath].find? (· = name)

def extendReach (reach other : List (String × List String)) : List (String × List String) :=
  other.foldl (fun reach entry =>
    put entry.1 (setOf (((reach.lookup entry.1).getD []) ++ entry.2)) reach) reach

def measuredFiles (manifest : JsonValue) : Option (List String) :=
  ((manifest.get "scope").get "entries").asArray.map fun entries =>
    setOf ((entries.filter fun entry => (entry.get "status").asStr == some "included").filterMap
      fun entry => (entry.get "file").asStr)

def declaredRunners (runners : List JsonValue) : List String :=
  (runners.filterMap fun runner => (runner.get "runner").asStr).filter fun runner =>
    runner ∉ ["command", "background"]

def Ran.withEntry (fromSlice : List UInt8 → Option JsonValue)
    (supportReach : JsonValue → Option (List (String × List String))) (merged : Bool) (ran : Ran)
    (entry : Archive.EvidenceArchiveEntry) : Ran :=
  match Ran.wanted entry.path merged, fromSlice entry.contents with
  | some name, some value =>
    if name = supportReachPath then
      match supportReach value with
      | some reach => { ran with support := some (extendReach (ran.support.getD []) reach) }
      | none => ran
    else if name = playwrightConfiguration then { ran with playwright := some value }
    else if name = "manifest.json" then { ran with measured := measuredFiles value }
    else
      match (value.get "runners").asArray with
      | some runners =>
        { ran with runners := some (setOf (ran.runners.getD [] ++ declaredRunners runners)) }
      | none => ran
  | _, _ => ran

def Ran.fromEntries (fromSlice : List UInt8 → Option JsonValue)
    (supportReach : JsonValue → Option (List (String × List String)))
    (entries : List Archive.EvidenceArchiveEntry) (merged : Bool) : Ran :=
  entries.foldl (Ran.withEntry fromSlice supportReach merged) .default

end Ran

section Playwright

def fieldOf (key : String) : JsonValue → Option JsonValue
  | .object fields => fields.lookup key
  | _ => none

def pick (value : JsonValue) (keys : List String) : JsonValue.Fields :=
  keys.filterMap fun key => (fieldOf key value).map fun held => (key, held)

def sameField (key : String) (value other : JsonValue) : Bool :=
  match fieldOf key value, fieldOf key other with
  | some held, some kept => held.same kept
  | none, none => true
  | _, _ => false

def configKeys : List String := ["globalSetup", "globalTeardown", "webServer", "use", "testDir"]
def projectKeys : List String := ["name", "use", "testDir", "dependencies", "teardown"]

/-- The settings that decide what a test does. -/
def playwrightShape (configuration : JsonValue) : JsonValue :=
  let projects := ((configuration.get "projects").asArray.getD []).map fun project =>
    JsonValue.object (pick project projectKeys)
  .object (JsonValue.insertField "projects" (.array projects) (pick configuration configKeys))

def shapedProjects (shape : JsonValue) : List (String × JsonValue) :=
  mapOf (((shape.get "projects").asArray.getD []).map fun project =>
    (((project.get "name").asStr).getD "", project))

def playwrightDifferences (run reference : JsonValue) : List String :=
  let run := playwrightShape run
  let reference := playwrightShape reference
  let now := shapedProjects reference
  (configKeys.filter fun key => !sameField key run reference) ++
    (shapedProjects run).flatMap fun project =>
      let label := if project.1 = "" then "" else "project " ++ project.1 ++ ": "
      match now.lookup project.1 with
      | none => [label ++ "removed"]
      | some current =>
        (["use", "testDir", "dependencies", "teardown"].filter fun key =>
          !sameField key project.2 current).map fun key => label ++ key

end Playwright

section Judge

variable {Code : Type}

/-- The verdict on one run. -/
structure Judgment where
  outdated : List String
  ownTests : Bool
  settled : Bool
  across : List String
  reached : List (String × List String)
  deriving DecidableEq, Repr

def Judgment.default : Judgment :=
  { outdated := [], ownTests := false, settled := false, across := [], reached := [] }

/-- What one run is judged by: the checkout's known test files, the run's label and
files, the files of the later run, the texts of the checkout, the run's own test
files and how it and the later one ran. -/
structure Judging (Code : Type) where
  readers : Readers Code
  tests : List String
  label : String
  recorded : FileManifest Code
  now : FileManifest Code
  text : String → Option String
  own : Option (List String)
  ran : Ran
  reference : Option JsonValue
  allowChanged : Bool

def Judging.places (judging : Judging Code) (file : String) : Bool :=
  file ∈ (judging.readers.loads (judging.tests.filter readsImports)).files

def Judging.configurations (judging : Judging Code) : List String :=
  setOf ((judging.recorded ++ judging.now).map Prod.fst |>.filter configurationFile)

/-- What the run's tests load, where their imports can be read. -/
def Judging.loads (judging : Judging Code) : Option Loads :=
  judging.own.bind fun own =>
    if own = [] || !own.all readsImports then none
    else
      some (judging.readers.loads (own ++ judging.configurations.flatMap fun configuration =>
        match configurationRunner configuration, judging.ran.runners with
        | some runner, some runners =>
          if runner ∈ runners then configuration :: judging.readers.namedBy configuration else []
        | _, _ => []))

/-- The files that are not as they were, and the configurations that are new. -/
def Judging.changed (judging : Judging Code) : List String :=
  setOf (((judging.recorded.filter fun was =>
      match judging.now.lookup was.1 with
      | some is => is.sha256 ≠ was.2.sha256
      | none => true).map Prod.fst) ++
    (judging.now.map Prod.fst).filter fun file =>
      (judging.recorded.lookup file).isNone && configurationFile file)

def Judging.refuse (judging : Judging Code) (judgment : Judgment) (file what : String) : Judgment :=
  if judging.allowChanged then
    { judgment with across := judgment.across ++ [file ++ " (accepted)"] }
  else { judgment with outdated := judgment.outdated ++ [what] }

def Judging.judgeConfiguration (judging : Judging Code) (judgment : Judgment) (file : String) :
    Judgment :=
  match configurationRunner file, judging.ran.runners with
  | some runner, some runners =>
    if runner ∉ runners then
      { judgment with across := judgment.across ++ [file ++ " (" ++ runner ++ " settings; `" ++
        judging.label ++ "` ran under " ++ ", ".intercalate runners ++ ")"] }
    else if runner = "playwright" then
      match judging.ran.playwright, judging.reference with
      | some «then», some reference =>
        let differences := playwrightDifferences «then» reference
        if differences = [] then
          { judgment with across := judgment.across ++
            [file ++ " (only settings that schedule tests)"] }
        else
          judging.refuse judgment file (file ++ ": " ++ ", ".intercalate differences ++ " changed")
      | _, _ => judging.refuse judgment file (file ++ " has changed")
    else judging.refuse judgment file (file ++ " has changed")
  | _, _ => judging.refuse judgment file (file ++ " has changed")

/-- Whether the run measured the file; where it does not say, any file not beside
the tests may be. -/
def Judging.measured (judging : Judging Code) (file : String) : Bool :=
  match judging.ran.measured with
  | some measured => file ∈ measured
  | none => !besideTheTests file

/-- A file tests may load: a helper, a fixture, source outside what is measured. -/
def Judging.judgeHelper (judging : Judging Code) (judgment : Judgment) (file : String) : Judgment :=
  let unloaded :=
    match judging.loads with
    | some loads => loads.unfollowed = none && judging.places file && file ∉ loads.files
    | none => false
  if unloaded then
    { judgment with across := judgment.across ++
      [file ++ " (`" ++ judging.label ++ "` does not load it)"] }
  else
    match judging.now.lookup file with
    | none => judging.refuse judgment file (file ++ " is gone")
    | some is =>
      let before := (judging.recorded.lookup file).bind FileFingerprint.code
      let source := (judging.text file).filter fun source =>
        judging.readers.sha256 source = is.sha256
      let added := before.bind fun before => source.bind fun source =>
        judging.readers.onlyAdded before file source
      match added with
      | some added =>
        { judgment with across := judgment.across ++
          [file ++ " (only added " ++ ", ".intercalate added ++ ")"] }
      | none =>
        judging.refuse judgment file
          (match before, is.code with
          | some before, some after =>
            file ++ " changed: " ++ judging.readers.describe before after
          | _, _ => file ++ " has changed")

/-- The tests that a process serving them reached the file for, where the tests
themselves do not load it. -/
def Judging.served (judging : Judging Code) (file : String) : Option (List String) :=
  match judging.ran.support.bind (List.lookup file) with
  | some tests =>
    if judging.loads.any fun loads => file ∈ loads.files then none else some tests
  | none => none

/-- One file that changed. -/
def Judging.judgeFile (judging : Judging Code) (judgment : Judgment) (file : String) : Judgment :=
  let gone := (judging.now.lookup file).isNone
  let moved := if gone then "is gone" else "has changed"
  if judging.own.any fun own => file ∈ own then
    { judgment with
      ownTests := true
      settled := true
      outdated := judgment.outdated ++ [file ++ ", a file of its own tests, " ++ moved] }
  else if file ∈ judging.tests && judging.own.isSome then judgment
  else if dependencyFile file then
    { judgment with outdated := judgment.outdated ++ [file ++ " has changed"] }
  else if configurationFile file then judging.judgeConfiguration judgment file
  else if judging.measured file then
    { judgment with
      settled := true
      outdated := judgment.outdated ++ [file ++ ", which it measured, " ++ moved] }
  else
    match judging.served file with
    | some tests =>
      if tests = [] then
        { judgment with across := judgment.across ++
          [file ++ " (no test of `" ++ judging.label ++ "` was served by what loaded it)"] }
      else { judgment with reached := put file tests judgment.reached }
    | none => judging.judgeHelper judgment file

/-- What the files a run was recorded with say against those of the later run. -/
def judge (judging : Judging Code) : Judgment :=
  judging.changed.foldl judging.judgeFile .default

end Judge

section Across

def splitItem (item : String) : String × String :=
  let letters := item.toList
  match letters.tails.findIdx? fun rest => " (".toList.isPrefixOf rest with
  | some position =>
    let why := (letters.drop (position + 2)).reverse.dropWhile (· = ')')
    (String.ofList (letters.take position), String.ofList why.reverse)
  | none => (item, "")

/-- What several judgments let through, one entry a file. -/
def acrossFiles (items : List String) : List String :=
  let files := items.foldl (fun files item =>
    let (file, why) := splitItem item
    let whys := (files.lookup file).getD []
    put file (if why ≠ "" ∧ why ∉ whys then whys ++ [why] else whys) files)
    ([] : List (String × List String))
  files.map fun entry =>
    if entry.2 = [] then entry.1 else entry.1 ++ " (" ++ "; ".intercalate entry.2 ++ ")"

end Across

end Supercov.Merge
