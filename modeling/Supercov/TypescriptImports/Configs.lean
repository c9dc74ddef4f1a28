import Supercov.Discovery.Jsonc
import Supercov.Library.JsonValue
import Supercov.Library.Visited

/-!
# The configurations that decide type imports

Whether a file's imports for types are erased is read from its nearest configuration and those it
extends; the fingerprint of a run names the configurations a change of which may decide otherwise.
-/

namespace Supercov.TypescriptImports

/-- The parts of a path: where it came from a text, it may hold empty ones and dots. -/
abbrev Path := List (List Char)

/-- What a file system answers.  A directory is resolved before what is in it, and reading follows
links as resolving does. -/
structure Disk where
  canonicalize : Path → Option Path
  readToString : Path → Option (List Char)
  canonicalize_append : ∀ {path own}, canonicalize path = some own → ∀ rest,
    canonicalize (path ++ rest) = canonicalize (own ++ rest)
  readToString_canonical : ∀ {path own}, canonicalize path = some own →
    readToString path = readToString own

/-- A link is followed, as when a path is resolved. -/
def Disk.has (disk : Disk) (path : Path) : Bool := (disk.canonicalize path).isSome

/-- The parts that name something, of an absolute path or of one below `path`. -/
def join (path : Path) (text : List Char) : Path :=
  let parts := (text.splitOnP (· = '/')).filter fun part => part ≠ [] ∧ part ≠ ['.']
  if text.head? = some '/' then parts else path ++ parts

/-- Parts at the end of a path that do not name its file. -/
def isTrailing (part : List Char) : Bool := part = [] || part = ['.']

/-- `json` is put behind a file's name that has no extension. -/
def setExtension (path : Path) : Path :=
  match path.reverse.dropWhile isTrailing with
  | [] => path
  | name :: before =>
    if name = ['.', '.'] ∨ '.' ∈ name.tail then path
    else before.reverse ++ [name ++ ".json".toList]

/-- The configuration that another, at `path`, names to be extended. -/
def parentPath (path : Path) (parent : List Char) : Path :=
  setExtension (path.dropLast ++ parent.splitOnP (· = '/'))

/-- A field of an object; `null` is a value. -/
def field (key : String) : JsonValue → Option JsonValue
  | .object fields => fields.lookup key
  | _ => none

section Reading

variable (parse : List Char → Option JsonValue) (disk : Disk) (root : Path)

def json (path : Path) : Option JsonValue := do
  let text ← disk.readToString path
  parse (Discovery.stripTrailingCommas (Discovery.stripJsoncComments text))

abbrev Options := JsonValue.Fields

def extend (result : Options) (other : Options) : Options :=
  other.foldl (fun result (key, value) => JsonValue.insertField key value result) result

/-- What a walk gives up with, or a stack that is used up. -/
def known {Value : Type} : Option Value → Outcome Unit Value
  | some value => .ok value
  | none => .refused ()

def parents (config : JsonValue) : Option (List String) :=
  match field "extends" config with
  | none => some []
  | some (.string parent) => some [parent]
  | some (.array items) => items.mapM JsonValue.asStr
  | some _ => none

def isRelative (parent : String) : Bool := parent.toList.head? = some '.'

/-- `seen` holds the configurations that extend this one: each is taken out when it is done, and
where one fails, all fail. -/
def options : Nat → Path → List Path → Outcome Unit Options
  | 0, _, _ => .crashed
  | stack + 1, path, seen => do
    let path ← known (disk.canonicalize path)
    if ¬root <+: path then .refused () else
    if path ∈ seen ∨ 32 < (path :: seen).length then .refused () else
    let config ← known (json parse disk path)
    let parents ← known (parents config)
    let result ← parents.foldlM (fun result parent => do
      if ¬isRelative parent then .refused () else
      let inherited ← options stack (parentPath path parent.toList) (path :: seen)
      return extend result inherited) []
    match field "compilerOptions" config with
    | none => return result
    | some (.object fields) => return extend result fields
    | some _ => .refused ()

def parentStrings (config : JsonValue) : List String :=
  match field "extends" config with
  | some (.string parent) => [parent]
  | some (.array items) => items.filterMap JsonValue.asStr
  | _ => []

/-- The configurations that one at `path` extends by a relative name. -/
def bases (path : Path) (config : JsonValue) : List Path :=
  ((parentStrings config).filter isRelative).map fun parent => parentPath path parent.toList

def add : Nat → Path → Finset Path → Outcome Unit (Finset Path)
  | 0, _, _ => .crashed
  | stack + 1, path, paths =>
    match disk.canonicalize path with
    | none => .ok paths
    | some path =>
      if ¬root <+: path ∨ 256 < paths.card ∨ path ∈ paths then .ok paths
      else
        match json parse disk path with
        | none => .ok (insert path paths)
        | some config =>
          (bases path config).foldlM (fun paths parent => add stack parent paths)
            (insert path paths)

end Reading

def ancestors (path : Path) : List Path := path.inits.reverse.tail

/-- Where a file's configuration may be, the nearest first. -/
def tsconfigs (root : Path) (file : List Char) : List Path :=
  ((ancestors (join root file)).takeWhile fun dir => root <+: dir).map
    (· ++ ["tsconfig.json".toList])

section Deciding

variable (parse : List Char → Option JsonValue) (stack : Nat) (disk : Disk) (given : Path)

def rootPath : Path := (disk.canonicalize given).getD given

def configPaths (files : List (List Char)) : Outcome Unit (Finset Path) := do
  let root := rootPath disk given
  let configs := files.flatMap fun file => (tsconfigs root file).filter disk.has
  let paths ← configs.foldlM (fun paths config => add parse disk root stack config paths) ∅
  return (paths.filter (root <+: ·)).image fun path => given ++ path.drop root.length

def erases (options : Options) : Bool :=
  (["verbatimModuleSyntax", "preserveValueImports", "emitDecoratorMetadata"].all fun key =>
    (options.lookup key).all fun value => value.asBool = some false) &&
    (options.lookup "importsNotUsedAsValues").all fun value => value.asStr = some "remove"

def elidesTypeImports (file : List Char) : Outcome Unit Bool :=
  let root := rootPath disk given
  match (tsconfigs root file).find? disk.has with
  | none => .ok false
  | some config =>
    match options parse disk root stack config [] with
    | .ok options => .ok (erases options)
    | .refused _ => .ok false
    | .crashed => .crashed

end Deciding

end Supercov.TypescriptImports
