import Supercov.Library.Text
import Supercov.Library.Visited

/-!
# Which files a test file loads

A file's imports are read once, and each is followed to the first-party file it names.  What cannot
be read or found leaves the answer open, and says why.
-/

namespace Supercov.TestLoads

abbrev Name := List Char

section Paths

/-- A path as its components; a dot names the directory itself and is left out. -/
structure Path where
  rooted : Bool
  parts : List Name
  deriving DecidableEq

namespace Path

def ofText (text : Name) : Path where
  rooted := text.head? = some '/'
  parts := (text.splitOnP (· = '/')).filter fun part => part ≠ [] ∧ part ≠ ['.']

def join (path : Path) (text : Name) : Path :=
  let other := ofText text
  if other.rooted then other else { path with parts := path.parts ++ other.parts }

def parent (path : Path) : Path :=
  if path.parts = [] then ofText [] else { path with parts := path.parts.dropLast }

def ancestors (path : Path) : List Path :=
  path.parts.inits.reverse.map fun parts => { path with parts }

/-- A file's name up to its last dot, where that does not begin it. -/
def fileStem (name : Name) : Name :=
  match name.reverse.dropWhile (· ≠ '.') with
  | [] | [_] => name
  | _ :: before => before.reverse

def withExtension (extension : Name) (path : Path) : Path :=
  match path.parts.reverse with
  | [] => path
  | name :: before =>
    if name = ['.', '.'] then path
    else { path with parts := before.reverse ++ [fileStem name ++ '.' :: extension] }

/-- Steps back over what came before; one that climbs out refuses. -/
def normalParts : List Name → List Name → Option (List Name)
  | before, [] => some before.reverse
  | before, part :: rest =>
    if part = ['.', '.'] then
      match before with
      | [] => none
      | _ :: before => normalParts before rest
    else
      normalParts (part :: before) rest

def normal (path : Path) : Option Name :=
  if path.rooted then none
  else (normalParts [] path.parts).map fun parts => ['/'].intercalate parts

end Path

end Paths

inductive Specifier where
  | literal (text : Name)
  | computed

inductive PythonImport where
  | module (module : Name) (level : Nat) (names : List Name)
  | computed (why : Name)

inductive RubyRequire where
  | relative (path : Name)
  | feature (name : Name)
  | computed (why : Name)

/-- A checkout: its files, what reading one gives, the packages installed beside and above it, the
parsers, and what its manifest and configuration name. -/
structure Project where
  files : Finset Name
  readToString : Name → Option (List Char)
  installed : Name → Bool
  parse : Name → List Char → Option (List Specifier)
  pythonImports : List Char → Option (List PythonImport)
  rubyRequires : List Char → Option (List RubyRequire)
  packages : List Name
  aliases : List (Name × List Name)
  subpaths : List (Name × List Name)

inductive Resolved where
  | file (name : Name)
  | outside
  | unknown
  deriving DecidableEq

def extensions : List Name :=
  [".ts", ".tsx", ".mts", ".cts", ".js", ".jsx", ".mjs", ".cjs", ".json"].map String.toList

def endsWith (name : Name) (suffix : String) : Bool := suffix.toList.isSuffixOf name

def startsWith (name : Name) (front : String) : Bool := front.toList.isPrefixOf name

def readsImports (file : Name) : Bool :=
  endsWith file ".py" || endsWith file ".rb" ||
    (extensions.take 8).any fun extension => extension.isSuffixOf file

def builtins : List Name :=
  ["assert", "async_hooks", "buffer", "child_process", "cluster", "console", "constants", "crypto",
    "dgram", "diagnostics_channel", "dns", "domain", "events", "fs", "http", "http2", "https",
    "inspector", "module", "net", "os", "path", "perf_hooks", "process", "punycode", "querystring",
    "readline", "repl", "stream", "string_decoder", "timers", "tls", "tty", "url", "util", "v8",
    "vm", "worker_threads", "zlib", "test"].map String.toList

def replaceStar (rest text : Name) : Name :=
  match Text.splitOnce '*' text with
  | none => text
  | some (before, after) => before ++ rest ++ after

/-- What a pattern with at most one star leaves of a text. -/
def between (front back text : Name) : Option Name :=
  (front.isPrefixOf? text).bind fun rest => back.isSuffixOf? rest

def packageName (specifier : Name) : Name :=
  match specifier.splitOnP (· = '/') with
  | first :: second :: _ => if first.head? = some '@' then first ++ '/' :: second else first
  | first :: _ => first
  | [] => []

namespace Project

variable (project : Project)

def existing (path : Path) : Option Name := path.normal.filter (· ∈ project.files)

/-- The source a JavaScript name may stand for. -/
def typescriptOf (path : Name) : List Name :=
  [(".js", [".ts", ".tsx"]), (".jsx", [".tsx", ".tsx"]), (".mjs", [".mts", ".mts"]),
      (".cjs", [".cts", ".cts"])].flatMap fun (javascript, typescript) =>
    match javascript.toList.isSuffixOf? path with
    | none => []
    | some stem => typescript.map fun extension => stem ++ extension.toList

def file (path : Path) : Resolved :=
  match path.normal with
  | none => .unknown
  | some path =>
    if "node_modules".toList ∈ path.splitOnP (· = '/') then .outside
    else
      let directory := if path = [] then [] else path ++ ['/']
      let candidates := [path] ++ typescriptOf path ++ extensions.map (path ++ ·) ++
        extensions.map fun extension => directory ++ "index".toList ++ extension
      match candidates.find? (· ∈ project.files) with
      | some found => .file found
      | none => .unknown

def subpathTargets (specifier : Name) : Option (List Name) :=
  (project.subpaths.lookup specifier).or <|
    project.subpaths.findSome? fun (pattern, targets) => do
      let (front, back) ← Text.splitOnce '*' pattern
      let rest ← between front back specifier
      return targets.map (replaceStar rest)

def firstTarget : List Name → Resolved
  | [] => .unknown
  | target :: targets =>
    if !startsWith target "./" then .outside
    else
      match project.file (Path.ofText target) with
      | .file found => .file found
      | _ => firstTarget targets

def subpath (specifier : Name) : Resolved :=
  match project.subpathTargets specifier with
  | none => .unknown
  | some targets => project.firstTarget targets

def aliasRest (pattern specifier : Name) : Option Name :=
  match Text.splitOnce '*' pattern with
  | some (front, back) => between front back specifier
  | none => if specifier = pattern then some [] else none

def aliased (specifier : Name) : Option Name :=
  project.aliases.findSome? fun (pattern, targets) =>
    (aliasRest pattern specifier).bind fun rest =>
      targets.findSome? fun target =>
        match project.file (Path.ofText (replaceStar rest target)) with
        | .file found => some found
        | _ => none

/-- A specifier without its query or fragment; the sign it begins with is its own. -/
def withoutQuery : Name → Name
  | [] => []
  | first :: rest => first :: rest.takeWhile fun c => c ≠ '?' ∧ c ≠ '#'

def resolve (importer specifier : Name) : Resolved :=
  let specifier := withoutQuery specifier
  if startsWith specifier "./" || startsWith specifier "../" || specifier = ['.'] ||
      specifier = ['.', '.'] then
    project.file ((Path.ofText importer).parent.join specifier)
  else if startsWith specifier "/" then .unknown
  else if startsWith specifier "node:" then .outside
  else if startsWith specifier "#" then project.subpath specifier
  else
    match project.aliased specifier with
    | some found => .file found
    | none =>
      let package := packageName specifier
      if package ∈ builtins ∨ package ∈ project.packages ∨ project.installed package then .outside
      else .unknown

/-- The packages and the module that the parts of a name lead to from a base. -/
def pythonModule : Path → List Name → List Name → Bool → List Name × Path × Bool
  | package, [], found, resolved => (found, package, resolved)
  | package, part :: rest, found, resolved =>
    let package := package.join part
    match project.existing (package.join "__init__.py".toList) with
    | some init => pythonModule package rest (found ++ [init]) rest.isEmpty
    | none =>
      match project.existing (package.withExtension "py".toList) with
      | some module => if rest.isEmpty then (found ++ [module], package, true)
        else (found, package, resolved)
      | none => (found, package, resolved)

def pythonBases (importer : Name) (level : Nat) : List Path :=
  let directory := (Path.ofText importer).parent
  if 0 < level then [Path.parent^[level - 1] directory]
  else directory.ancestors ++ [Path.ofText "src".toList]

def pythonResolve (importer module : Name) (level : Nat) (names : List Name) : List Name :=
  let parts := (module.splitOnP (· = '.')).filter (· ≠ [])
  let found := (pythonBases importer level).findSome? fun base =>
    let (found, package, resolved) := project.pythonModule base parts [] parts.isEmpty
    if resolved then
      some (found ++ names.filterMap fun name =>
        let submodule := package.join name
        (project.existing (submodule.withExtension "py".toList)).or
          (project.existing (submodule.join "__init__.py".toList)))
    else
      none
  found.getD []

/-- A text without `.rb` at its end. -/
def withoutRb (name : Name) : Name := (".rb".toList.isSuffixOf? name).getD name

def rubyFeature (name : Name) : Option Name :=
  ["lib", "spec", "test", ""].findSome? fun base =>
    project.existing ((Path.ofText base.toList).join (withoutRb name ++ ".rb".toList))

end Project

/-- What an import adds to the files to follow, and why it leaves the answer open. -/
structure Effect where
  files : List Name
  why : Option (List Char)

namespace Project

variable (project : Project)

def specifierEffect (file : Name) : Specifier → Effect
  | .computed => ⟨[], some (file ++ " imports a computed path".toList)⟩
  | .literal specifier =>
    match project.resolve file specifier with
    | .file next => ⟨[next], none⟩
    | .outside => ⟨[], none⟩
    | .unknown =>
      ⟨[], some (file ++ " imports '".toList ++ specifier ++ "', which Supercov cannot find".toList)⟩

def pythonEffect (file : Name) : PythonImport → Effect
  | .computed why => ⟨[], some (file ++ ' ' :: why)⟩
  | .module module level names => ⟨project.pythonResolve file module level names, none⟩

def rubyEffect (file : Name) : RubyRequire → Effect
  | .relative path =>
    let path := withoutRb path
    match project.existing ((Path.ofText file).parent.join (path ++ ".rb".toList)) with
    | some next => ⟨[next], none⟩
    | none =>
      ⟨[], some (file ++ " requires '".toList ++ path ++ "', which Supercov cannot find".toList)⟩
  | .feature name => ⟨(project.rubyFeature name).toList, none⟩
  | .computed why => ⟨[], some (file ++ ' ' :: why)⟩

/-- pytest's `conftest.py` beside a file and above it. -/
def conftests (file : Name) : List Name :=
  (Path.ofText file).ancestors.tail.filterMap fun directory =>
    project.existing (directory.join "conftest.py".toList)

/-- What `.rspec` requires before every spec. -/
def rspecRequires (file : Name) : List Name :=
  if endsWith file "_spec.rb" then
    match project.readToString ".rspec".toList with
    | none => []
    | some options =>
      let words := Text.words options
      (words.zip words.tail).filterMap (fun (option, name) =>
        if option = "--require".toList ∨ option = "-r".toList then project.rubyFeature name
        else none) ++
      words.filterMap fun word =>
        ("--require=".toList.isPrefixOf? word).bind project.rubyFeature
  else
    []

end Project

/-- What was read before, of each language's files. -/
structure Caches where
  parsed : Name → Option (Option (List Specifier))
  python : Name → Option (Option (List PythonImport))
  ruby : Name → Option (Option (List RubyRequire))

def Caches.new : Caches where
  parsed := fun _ => none
  python := fun _ => none
  ruby := fun _ => none

section Reading

variable {Import : Type}

/-- What a table knows of a file, or else what reading gives, and the table with that in it. -/
def lookUp (read : Name → Option (List Import)) (file : Name)
    (table : Name → Option (Option (List Import))) :
    Option (List Import) × (Name → Option (Option (List Import))) :=
  match table file with
  | some known => (known, table)
  | none => (read file, Function.update table file (some (read file)))

/-- A file that could not be read leaves the answer open. -/
def effects (file : Name) (effect : Import → Effect) : Option (List Import) → List Effect
  | none => [⟨[], some (file ++ " could not be read".toList)⟩]
  | some imports => imports.map effect

end Reading

namespace Project

variable (project : Project)

def readSpecifiers (file : Name) : Option (List Specifier) :=
  (project.readToString file).bind (project.parse file)

def readPython (file : Name) : Option (List PythonImport) :=
  (project.readToString file).bind project.pythonImports

def readRuby (file : Name) : Option (List RubyRequire) :=
  (project.readToString file).bind project.rubyRequires

def fileEffects (file : Name) (caches : Caches) : List Effect × Caches :=
  if !readsImports file then ([], caches)
  else if endsWith file ".py" then
    let (imports, python) := lookUp project.readPython file caches.python
    (⟨project.conftests file, none⟩ :: effects file (project.pythonEffect file) imports,
      { caches with python })
  else if endsWith file ".rb" then
    let (requires, ruby) := lookUp project.readRuby file caches.ruby
    (⟨project.rspecRequires file, none⟩ :: effects file (project.rubyEffect file) requires,
      { caches with ruby })
  else
    let (specifiers, parsed) := lookUp project.readSpecifiers file caches.parsed
    (effects file (project.specifierEffect file) specifiers, { caches with parsed })

/-- The first reason stays. -/
def followFile (file : Name) (state : Option (List Char) × Caches) :
    List Name × Option (List Char) × Caches :=
  let (found, caches) := project.fileEffects file state.2
  (found.flatMap Effect.files, state.1.or (found.findSome? Effect.why), caches)

/-- `Imports::loads`: the files, why the answer is open, and what is known of files behind it. -/
def loads (fuel : Nat) (entries : List Name) (caches : Caches) :
    Option (Finset Name × Option (List Char) × Caches) :=
  Visited.follow project.followFile fuel entries ∅ (none, caches)

end Project

end Supercov.TestLoads
