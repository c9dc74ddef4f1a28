import Supercov.Affected.Tests
import Supercov.Library.Ordered
import Supercov.Units.Lookup

/-!
# What a run's tests executed

Each test of a run's view is credited with the units that its hits are in.  Tests of one file
and one name are one record: the units are those of any of them, the record is complete
where all of theirs are, and it has passed where one of them has.
-/

namespace Supercov.Affected

open Supercov.Units

/-- A probe, where the run's frontend saw it. -/
structure Point where
  id : Text
  file : File
  line : Nat
  column : Nat

structure TestRecord where
  file : Option File
  name : Text
  outcome : String
  attribution : String
  /-- The probes that the test fired. -/
  hits : List Text

structure View where
  points : List Point
  tests : List TestRecord

structure InputManifest (Digest : Type) where
  language : String
  files : List (File × Fingerprint Digest)

section Columns

def charLines : List Char → List (List Char × Bool)
  | [] => [([], false)]
  | c :: rest =>
    if c = '\n' then ([], true) :: charLines rest
    else
      match charLines rest with
      | [] => [([c], false)]
      | (line, ended) :: lines => (c :: line, ended) :: lines

/-- The text of a line, counted from one, as `str::lines` would yield it. -/
def lineText (source : List Char) (line : Nat) : Option (List Char) :=
  if line = 0 then none
  else
    match (charLines source)[line - 1]? with
    | some (text, true) => some (if text.getLast? = some '\r' then text.dropLast else text)
    | some (text, false) => if text = [] then none else some text
    | none => none

/-- The byte a column of UTF-16 units is, both from one. -/
def byteFrom (column : Nat) : Nat → Nat → List Char → Option Nat
  | units, byte, [] => if units = column - 1 then some (byte + 1) else none
  | units, byte, c :: rest =>
    if units = column - 1 then some (byte + 1)
    else byteFrom column (units + if c.toNat < 0x10000 then 1 else 2) (byte + c.utf8Size) rest

def byteColumn (source : List Char) (line column : Nat) : Option Nat := do
  let text ← lineText source line
  if column = 0 then none else byteFrom column 0 0 text

end Columns

section Recorded

variable {Digest : Type} (manifest : InputManifest Digest)
  (sources : Option (List (File × List Char)))

/-- The unit that holds a point, if there is one to tell.  Without the sources that a
JavaScript column needs there is no record at all. -/
def unitOf (point : Point) : Option (Option (File × Nat)) :=
  match (manifest.files.lookup point.file).bind (·.code) with
  | none => some none
  | some code =>
    if manifest.language = "javascript" then do
      let sources ← sources
      let source ← sources.lookup point.file
      match byteColumn source point.line point.column with
      | none => some none
      | some column =>
        let unit ← code.unitAt point.line column
        return some (point.file, unit)
    else do
      let unit ← code.unitAt point.line (point.column + 1)
      return some (point.file, unit)

def locate (points : List Point) : Option (List (Text × File × Nat)) := do
  let units ← points.mapM (unitOf manifest sources)
  return ((points.zip units).filterMap fun (point, unit) => unit.map (point.id, ·)).reverse

def isCodeUnit (place : File × Nat) : Bool :=
  match (manifest.files.lookup place.1).bind (·.code) with
  | some code => (code.units[place.2]?).any (·.isCode)
  | none => false

variable (located : List (Text × File × Nat))

def addUnit (files : List (File × List Nat)) (place : File × Nat) : List (File × List Nat) :=
  if files.any (·.1 = place.1) then
    files.map fun (file, units) => (file, if file = place.1 then units ++ [place.2] else units)
  else files ++ [(place.1, [place.2])]

def inOrder (files : List (File × List Nat)) : List (File × List Nat) :=
  (files.map fun (file, units) => (file, Ordered.setOf units)).insertionSort
    fun entry other => textLe entry.1 other.1

def reached (test : TestRecord) : List (File × Nat) :=
  test.hits.filterMap fun hit => located.lookup hit

def emptyExecution (test : TestSelector) : Execution where
  test := test
  passed := false
  files := []
  attribution := "exact"

/-- One name can be recorded more than once. -/
def noteTest (record : Execution) (test : TestRecord) : Execution where
  test := record.test
  passed := record.passed || test.outcome = "passed"
  files := (reached located test).foldl addUnit record.files
  attribution :=
    -- A single incomplete appearance makes the whole record's files a lower bound.
    if !coverageIsComplete record.attribution then record.attribution
    else if !coverageIsComplete test.attribution then test.attribution
    else record.attribution

def recordTest (records : List Execution) (test : TestRecord) : List Execution :=
  match test.file with
  | none => records
  | some file =>
    let selector : TestSelector := { file, name := test.name }
    if records.any (·.test = selector) then
      records.map fun record => if record.test = selector then noteTest located record test else record
    else records ++ [noteTest located (emptyExecution selector) test]

def selectorLe (first second : TestSelector) : Bool :=
  if first.file = second.file then textLe first.name second.name else textLe first.file second.file

/-- Each test's execution, placed in the declarations of the run's own manifest. -/
def executions (view : View) : Option Executions := do
  let located ← locate manifest sources view.points
  let places := located.reverse.map Prod.snd
  let records := (view.tests.foldl (recordTest located) []).insertionSort fun record other =>
    selectorLe record.test other.test
  return {
    tests := records.map fun record => { record with files := inOrder record.files }
    probed := inOrder ((places.filter (isCodeUnit manifest)).foldl addUnit [])
    covered := inOrder ((view.tests.flatMap (reached located)).foldl addUnit []) }

end Recorded

end Supercov.Affected
