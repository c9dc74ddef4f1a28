import Supercov.TestLoads.Imports
import Mathlib.Order.Bounds.Basic

/-!
# What a test file loads is a closure

What is known of a file is what reading it gives, so that a walk finds the same files next of it
whatever was asked before.  The files are those one comes to from the entries, and the answer is
open where one of them leaves it open; the reason given is that of the file met first.
-/

namespace Supercov.TestLoads

namespace Project

variable (project : Project)

section Existing

theorem mem_of_existing {path : Path} {found : Name} (exists_ : project.existing path = some found) :
    found ∈ project.files := by
  obtain ⟨_, member⟩ := Option.filter_eq_some_iff.mp exists_
  exact of_decide_eq_true member

theorem mem_of_file {path : Path} {found : Name} (resolved : project.file path = .file found) :
    found ∈ project.files := by
  unfold file at resolved
  split at resolved
  · cases resolved
  · split at resolved
    · cases resolved
    · dsimp only at resolved
      split at resolved
      · next known =>
        cases resolved
        have member := List.find?_some known
        exact of_decide_eq_true member
      · cases resolved

theorem mem_of_firstTarget {targets : List Name} {found : Name}
    (resolved : project.firstTarget targets = .file found) : found ∈ project.files := by
  induction targets with
  | nil => cases resolved
  | cons target targets ih =>
    unfold firstTarget at resolved
    split at resolved
    · cases resolved
    · split at resolved
      · next known =>
        cases resolved
        exact project.mem_of_file known
      · exact ih resolved

theorem mem_of_aliased {specifier found : Name} (resolved : project.aliased specifier = some found) :
    found ∈ project.files := by
  obtain ⟨⟨pattern, targets⟩, _, inner⟩ := List.exists_of_findSome?_eq_some resolved
  obtain ⟨rest, _, inner⟩ := Option.bind_eq_some_iff.mp inner
  obtain ⟨target, _, inner⟩ := List.exists_of_findSome?_eq_some inner
  split at inner
  · next known =>
    cases inner
    exact project.mem_of_file known
  · cases inner

theorem mem_of_resolve {importer specifier found : Name}
    (resolved : project.resolve importer specifier = .file found) : found ∈ project.files := by
  unfold resolve at resolved
  dsimp only at resolved
  split at resolved
  · exact project.mem_of_file resolved
  split at resolved
  · cases resolved
  split at resolved
  · cases resolved
  split at resolved
  · unfold subpath at resolved
    split at resolved
    · cases resolved
    · exact project.mem_of_firstTarget resolved
  split at resolved
  · next known =>
    cases resolved
    exact project.mem_of_aliased known
  · split at resolved <;> cases resolved

theorem mem_of_pythonModule {package : Path} {parts found : List Name} {resolved : Bool}
    (known : ∀ name ∈ found, name ∈ project.files) :
    ∀ name ∈ (project.pythonModule package parts found resolved).1, name ∈ project.files := by
  induction parts generalizing package found resolved with
  | nil => exact known
  | cons part rest ih =>
    have more {name : Name} (member : name ∈ project.files) :
        ∀ other ∈ found ++ [name], other ∈ project.files := by
      intro other among
      rcases List.mem_append.mp among with earlier | last
      · exact known other earlier
      · exact List.mem_singleton.mp last ▸ member
    unfold pythonModule
    dsimp only
    split
    · next init =>
      exact ih (more (project.mem_of_existing init))
    · split
      · next module =>
        split
        · exact more (project.mem_of_existing module)
        · exact known
      · exact known

theorem mem_of_pythonResolve {importer module : Name} {level : Nat} {names : List Name} :
    ∀ name ∈ project.pythonResolve importer module level names, name ∈ project.files := by
  intro name member
  unfold pythonResolve at member
  dsimp only at member
  cases found : (pythonBases importer level).findSome? _ with
  | none =>
    rw [found] at member
    cases member
  | some names' =>
    rw [found] at member
    obtain ⟨base, _, inner⟩ := List.exists_of_findSome?_eq_some found
    split at inner
    · cases inner
      rcases List.mem_append.mp member with packages | submodules
      · exact project.mem_of_pythonModule (fun _ member => absurd member List.not_mem_nil) name packages
      · obtain ⟨_, _, known⟩ := List.mem_filterMap.mp submodules
        rcases Option.or_eq_some_iff.mp known with known | ⟨_, known⟩
        · exact project.mem_of_existing known
        · exact project.mem_of_existing known
    · cases inner

theorem mem_of_rubyFeature {name found : Name} (known : project.rubyFeature name = some found) :
    found ∈ project.files := by
  obtain ⟨base, _, inner⟩ := List.exists_of_findSome?_eq_some known
  exact project.mem_of_existing inner

theorem mem_of_conftests {file name : Name} (member : name ∈ project.conftests file) :
    name ∈ project.files := by
  obtain ⟨_, _, known⟩ := List.mem_filterMap.mp member
  exact project.mem_of_existing known

theorem mem_of_rspecRequires {file name : Name} (member : name ∈ project.rspecRequires file) :
    name ∈ project.files := by
  unfold rspecRequires at member
  split at member
  · split at member
    · cases member
    · rcases List.mem_append.mp member with pair | word
      · obtain ⟨⟨option, word⟩, _, known⟩ := List.mem_filterMap.mp pair
        dsimp only at known
        split at known
        · exact project.mem_of_rubyFeature known
        · cases known
      · obtain ⟨_, _, known⟩ := List.mem_filterMap.mp word
        obtain ⟨_, _, known⟩ := Option.bind_eq_some_iff.mp known
        exact project.mem_of_rubyFeature known
  · cases member

end Existing

section Effects

def Within (effect : Effect) : Prop := ∀ name ∈ effect.files, name ∈ project.files

theorem within_specifierEffect (file : Name) (specifier : Specifier) :
    project.Within (project.specifierEffect file specifier) := by
  cases specifier with
  | computed => exact fun _ member => absurd member List.not_mem_nil
  | literal text =>
    intro name member
    unfold specifierEffect at member
    dsimp only at member
    split at member
    · next known =>
      cases List.mem_singleton.mp member
      exact project.mem_of_resolve known
    · cases member
    · cases member

theorem within_pythonEffect (file : Name) (found : PythonImport) :
    project.Within (project.pythonEffect file found) := by
  cases found with
  | computed why => exact fun _ member => absurd member List.not_mem_nil
  | module module level names => exact project.mem_of_pythonResolve

theorem within_rubyEffect (file : Name) (required : RubyRequire) :
    project.Within (project.rubyEffect file required) := by
  cases required with
  | computed why => exact fun _ member => absurd member List.not_mem_nil
  | feature feature =>
    intro name member
    exact project.mem_of_rubyFeature (Option.mem_toList.mp member)
  | relative path =>
    intro name member
    unfold rubyEffect at member
    dsimp only at member
    split at member
    · next known =>
      cases List.mem_singleton.mp member
      exact project.mem_of_existing known
    · cases member

theorem within_effects {Import : Type} (file : Name) {effect : Import → Effect}
    (within : ∀ found, project.Within (effect found)) (imports : Option (List Import)) :
    ∀ found ∈ effects file effect imports, project.Within found := by
  intro found member
  cases imports with
  | none =>
    cases List.mem_singleton.mp member
    exact fun _ member => absurd member List.not_mem_nil
  | some imports =>
    obtain ⟨_, _, rfl⟩ := List.mem_map.mp member
    exact within _

theorem within_fileEffects (file : Name) (caches : Caches) :
    ∀ found ∈ (project.fileEffects file caches).1, project.Within found := by
  unfold fileEffects
  split
  · exact fun _ member => absurd member List.not_mem_nil
  split
  · intro found member
    rcases List.mem_cons.mp member with rfl | member
    · exact fun _ => project.mem_of_conftests
    · exact project.within_effects file (project.within_pythonEffect file) _ found member
  split
  · intro found member
    rcases List.mem_cons.mp member with rfl | member
    · exact fun _ => project.mem_of_rspecRequires
    · exact project.within_effects file (project.within_rubyEffect file) _ found member
  · exact project.within_effects file (project.within_specifierEffect file) _

end Effects

section Caches

/-- A table that knows of each file no other than what reading it gives. -/
def Agrees {Import : Type} (read : Name → Option (List Import))
    (table : Name → Option (Option (List Import))) : Prop :=
  ∀ file known, table file = some known → known = read file

theorem agrees_new {Import : Type} (read : Name → Option (List Import)) :
    Agrees read fun _ => none := nofun

theorem lookUp_fst {Import : Type} {read : Name → Option (List Import)}
    {table : Name → Option (Option (List Import))} (agrees : Agrees read table) (file : Name) :
    (lookUp read file table).1 = read file := by
  unfold lookUp
  cases known : table file with
  | none => rfl
  | some imports => exact agrees file imports known

theorem agrees_lookUp {Import : Type} {read : Name → Option (List Import)}
    {table : Name → Option (Option (List Import))} (agrees : Agrees read table) (file : Name) :
    Agrees read (lookUp read file table).2 := by
  unfold lookUp
  cases known : table file with
  | some imports => exact agrees
  | none =>
    intro other imports found
    by_cases same : other = file
    · subst same
      simp only [Function.update_self, Option.some.injEq] at found
      exact found.symm
    · simp only [Function.update_of_ne same] at found
      exact agrees other imports found

/-- What is cached of each language's files is what reading them gives. -/
structure Fresh (caches : Caches) : Prop where
  parsed : Agrees project.readSpecifiers caches.parsed
  python : Agrees project.readPython caches.python
  ruby : Agrees project.readRuby caches.ruby

theorem fresh_new : project.Fresh Caches.new := ⟨agrees_new _, agrees_new _, agrees_new _⟩

def effectsOf (file : Name) : List Effect := (project.fileEffects file Caches.new).1

theorem fileEffects_fst {caches : Caches} (fresh : project.Fresh caches) (file : Name) :
    (project.fileEffects file caches).1 = project.effectsOf file := by
  have start := project.fresh_new
  unfold effectsOf fileEffects
  dsimp only
  rw [lookUp_fst fresh.parsed, lookUp_fst fresh.python, lookUp_fst fresh.ruby,
    lookUp_fst start.parsed, lookUp_fst start.python, lookUp_fst start.ruby]
  split
  · rfl
  split
  · rfl
  split <;> rfl

theorem fresh_fileEffects {caches : Caches} (fresh : project.Fresh caches) (file : Name) :
    project.Fresh (project.fileEffects file caches).2 := by
  unfold fileEffects
  split
  · exact fresh
  split
  · exact { fresh with python := agrees_lookUp fresh.python file }
  split
  · exact { fresh with ruby := agrees_lookUp fresh.ruby file }
  · exact { fresh with parsed := agrees_lookUp fresh.parsed file }

end Caches

section Loads

def next (file : Name) : List Name := (project.effectsOf file).flatMap Effect.files

/-- Imports that were not read, or one of which is unclear. -/
def LeaveOpen {Import : Type} (unclear : Import → Prop) (imports : Option (List Import)) : Prop :=
  ∀ found, imports = some found → ∃ single ∈ found, unclear single

/-- The file could not be read or parsed, or imports what is computed or cannot be found; a Python
module or a Ruby feature that is not the project's is a package's. -/
def Opens (file : Name) : Prop :=
  readsImports file ∧
    if endsWith file ".py" then
      LeaveOpen (fun found => ∃ why, found = .computed why) (project.readPython file)
    else if endsWith file ".rb" then
      LeaveOpen (fun required => (∃ why, required = .computed why) ∨ ∃ path, required = .relative path ∧
          project.existing ((Path.ofText file).parent.join (withoutRb path ++ ".rb".toList)) = none)
        (project.readRuby file)
    else
      LeaveOpen (fun specifier => specifier = .computed ∨
          ∃ text, specifier = .literal text ∧ project.resolve file text = .unknown)
        (project.readSpecifiers file)

theorem leaveOpen_iff {Import : Type} {unclear : Import → Prop} {effect : Import → Effect}
    (means : ∀ found, (effect found).why.isSome ↔ unclear found) (file : Name)
    (imports : Option (List Import)) :
    (∃ found ∈ effects file effect imports, found.why.isSome) ↔ LeaveOpen unclear imports := by
  cases imports with
  | none =>
    apply iff_of_true
    · exact ⟨_, List.mem_cons_self, rfl⟩
    · nofun
  | some imports =>
    unfold effects LeaveOpen
    simp only [List.mem_map, exists_exists_and_eq_and, means, Option.some.injEq, forall_eq']

theorem specifierEffect_why (file : Name) (specifier : Specifier) :
    (project.specifierEffect file specifier).why.isSome ↔ specifier = .computed ∨
      ∃ text, specifier = .literal text ∧ project.resolve file text = .unknown := by
  cases specifier with
  | computed => simp [specifierEffect]
  | literal text =>
    unfold specifierEffect
    dsimp only
    split <;> simp_all

theorem pythonEffect_why (file : Name) (found : PythonImport) :
    (project.pythonEffect file found).why.isSome ↔ ∃ why, found = .computed why := by
  cases found <;> simp [pythonEffect]

theorem rubyEffect_why (file : Name) (required : RubyRequire) :
    (project.rubyEffect file required).why.isSome ↔ (∃ why, required = .computed why) ∨
      ∃ path, required = .relative path ∧
        project.existing ((Path.ofText file).parent.join (withoutRb path ++ ".rb".toList)) = none := by
  cases required with
  | computed why => simp [rubyEffect]
  | feature name => simp [rubyEffect]
  | relative path =>
    unfold rubyEffect
    dsimp only
    split <;> simp_all

theorem opens_iff (file : Name) :
    (∃ effect ∈ project.effectsOf file, effect.why.isSome) ↔ project.Opens file := by
  have start := project.fresh_new
  unfold effectsOf fileEffects Opens
  dsimp only
  rw [lookUp_fst start.parsed, lookUp_fst start.python, lookUp_fst start.ruby]
  cases readsImports file with
  | false => simp
  | true =>
    simp only [Bool.not_true, Bool.false_eq_true, if_false, true_and]
    split
    · rw [← leaveOpen_iff (project.pythonEffect_why file) file]
      simp
    split
    · rw [← leaveOpen_iff (project.rubyEffect_why file) file]
      simp
    · rw [← leaveOpen_iff (project.specifierEffect_why file) file]

theorem next_mem {file other : Name} (leads : other ∈ project.next file) :
    other ∈ project.files := by
  obtain ⟨effect, member, among⟩ := List.mem_flatMap.mp leads
  exact project.within_fileEffects file Caches.new effect member other among

theorem finds_followFile :
    Visited.Finds project.followFile project.next fun state => project.Fresh state.2 := by
  intro file state fresh
  refine ⟨?_, project.fresh_fileEffects fresh file⟩
  show ((project.fileEffects file state.2).1).flatMap Effect.files = project.next file
  rw [project.fileEffects_fst fresh]
  rfl

theorem followFile_why (file : Name) (state : Option (List Char) × Caches)
    (fresh : project.Fresh state.2) :
    (project.followFile file state).2.1.isSome ↔ state.1.isSome ∨ project.Opens file := by
  show (state.1.or ((project.fileEffects file state.2).1.findSome? Effect.why)).isSome ↔ _
  rw [project.fileEffects_fst fresh, Option.isSome_or, Bool.or_eq_true, List.isSome_findSome?,
    List.any_eq_true, project.opens_iff]

inductive Asked : Caches → Prop where
  | new : Asked Caches.new
  | loads {fuel : Nat} {entries : List Name} {caches after : Caches} {files : Finset Name}
      {why : Option (List Char)} (before : Asked caches)
      (answered : project.loads fuel entries caches = some (files, why, after)) : Asked after

theorem loads_reached {fuel : Nat} {entries : List Name} {caches after : Caches}
    {files : Finset Name} {why : Option (List Char)} (fresh : project.Fresh caches)
    (answered : project.loads fuel entries caches = some (files, why, after)) :
    (∀ file, file ∈ files ↔ Visited.Reached project.next entries file) ∧ project.Fresh after ∧
      (why.isSome ↔ ∃ file ∈ files, project.Opens file) := by
  have learns (file : Name) (state : Option (List Char) × Caches) (known : project.Fresh state.2) :
      (project.followFile file state).2.1.isSome = true ↔
        (fun state : Option (List Char) × Caches => state.1.isSome = true) state ∨
          project.Opens file := project.followFile_why file state known
  have met := @Visited.follow_reached Name _ _ project.followFile project.next
    (fun state => project.Fresh state.2) project.finds_followFile (fun state => state.1.isSome)
    project.Opens learns fuel entries ∅ (none, caches)
    (fun _ member => absurd member (Finset.notMem_empty _))
    (fun _ member => absurd member (Finset.notMem_empty _)) fresh files (why, after) answered
  simpa using met

theorem fresh_asked {caches : Caches} (asked : project.Asked caches) : project.Fresh caches := by
  induction asked with
  | new => exact project.fresh_new
  | loads _ answered inductionHypothesis =>
    exact (project.loads_reached inductionHypothesis answered).2.1

theorem loads_ends {caches : Caches} (fresh : project.Fresh caches) (entries : List Name) :
    ∃ fuel files why after, project.loads fuel entries caches = some (files, why, after) := by
  obtain ⟨fuel, ⟨files, why, after⟩, answered⟩ := @Visited.follow_ends Name _ _
    project.followFile project.next (fun state => project.Fresh state.2) project.finds_followFile
    (project.files ∪ entries.toFinset)
    (fun _ _ other leads => Finset.mem_union_left _ (project.next_mem leads)) entries
    (fun _ member => Finset.mem_union_right _ (List.mem_toFinset.mpr member)) ∅
    (Finset.empty_subset _) (none, caches) fresh
  exact ⟨fuel, files, why, after, answered⟩

theorem loads_fresh {caches others : Caches} (fresh : project.Fresh caches)
    (fresh' : project.Fresh others) {fuel : Nat} {entries : List Name} {files : Finset Name}
    {why : Option (List Char)} {after : Caches}
    (answered : project.loads fuel entries caches = some (files, why, after)) :
    ∃ after', project.loads fuel entries others = some (files, why, after') := by
  have steps (file : Name) (state other : Option (List Char) × Caches)
      (alike : state.1 = other.1 ∧ project.Fresh state.2 ∧ project.Fresh other.2) :
      (project.followFile file state).1 = (project.followFile file other).1 ∧
        (project.followFile file state).2.1 = (project.followFile file other).2.1 ∧
        project.Fresh (project.followFile file state).2.2 ∧
        project.Fresh (project.followFile file other).2.2 := by
    obtain ⟨said, known, known'⟩ := alike
    refine ⟨?_, ?_, project.fresh_fileEffects known file, project.fresh_fileEffects known' file⟩
    · exact (project.finds_followFile file state known).1.trans
        (project.finds_followFile file other known').1.symm
    · show state.1.or ((project.fileEffects file state.2).1.findSome? Effect.why) =
        other.1.or ((project.fileEffects file other.2).1.findSome? Effect.why)
      rw [said, project.fileEffects_fst known, project.fileEffects_fst known']
  have alike : (none : Option (List Char)) = none ∧ project.Fresh caches ∧ project.Fresh others :=
    ⟨rfl, fresh, fresh'⟩
  obtain ⟨⟨why', after'⟩, again, same, _⟩ := @Visited.follow_alike Name _ _ project.followFile
    (fun state other => state.1 = other.1 ∧ project.Fresh state.2 ∧ project.Fresh other.2) steps
    fuel entries ∅ (none, caches) (none, others) alike files (why, after) answered
  cases same
  exact ⟨after', again⟩

end Loads

end Project

structure Imports (project : Project) where
  caches : Caches
  asked : project.Asked caches

namespace Imports

variable {project : Project}

def LoadsTo (imports : Imports project) (entries : List Name) (files : Finset Name)
    (why : Option (List Char)) : Prop :=
  ∃ fuel after, project.loads fuel entries imports.caches = some (files, why, after)

theorem loadsTo_unique {imports : Imports project} {entries : List Name} {files files' : Finset Name}
    {why why' : Option (List Char)} (first : imports.LoadsTo entries files why)
    (second : imports.LoadsTo entries files' why') : files' = files ∧ why' = why := by
  obtain ⟨fuel, after, answered⟩ := first
  obtain ⟨fuel', after', answered'⟩ := second
  have longer := Visited.follow_mono (Nat.le_max_left fuel fuel') answered
  have longer' := Visited.follow_mono (Nat.le_max_right fuel fuel') answered'
  have same := Option.some.inj (longer'.symm.trans longer)
  cases same
  exact ⟨rfl, rfl⟩

theorem mem_loadsTo {imports : Imports project} {entries : List Name} {files : Finset Name}
    {why : Option (List Char)} (answered : imports.LoadsTo entries files why) (file : Name) :
    file ∈ files ↔ Visited.Reached project.next entries file := by
  obtain ⟨_, _, answered⟩ := answered
  exact (project.loads_reached (project.fresh_asked imports.asked) answered).1 file

theorem isSome_loadsTo {imports : Imports project} {entries : List Name} {files : Finset Name}
    {why : Option (List Char)} (answered : imports.LoadsTo entries files why) :
    why.isSome ↔ ∃ file ∈ files, project.Opens file := by
  obtain ⟨_, _, answered⟩ := answered
  exact (project.loads_reached (project.fresh_asked imports.asked) answered).2.2

theorem exists_loadsTo (imports : Imports project) (entries : List Name) :
    ∃ files why, imports.LoadsTo entries files why := by
  obtain ⟨fuel, files, why, after, answered⟩ :=
    project.loads_ends (project.fresh_asked imports.asked) entries
  exact ⟨files, why, fuel, after, answered⟩

/-- The sets that hold the entries and what the imports of each of their files resolve to. -/
def Closed (project : Project) (entries : List Name) : Set (Set Name) :=
  {files | (∀ entry ∈ entries, entry ∈ files) ∧
    ∀ file ∈ files, ∀ other ∈ project.next file, other ∈ files}

theorem isLeast_reached (entries : List Name) :
    IsLeast (Closed project entries) {file | Visited.Reached project.next entries file} := by
  refine ⟨⟨fun _ => .start, fun _ here _ leads => Visited.Reached.step here leads⟩, ?_⟩
  rintro files ⟨begins, steps⟩ file reached
  exact reached.within (· ∈ files) begins steps

theorem reached_append {entries others : List Name} {file : Name} :
    Visited.Reached project.next (entries ++ others) file ↔
      Visited.Reached project.next entries file ∨ Visited.Reached project.next others file := by
  constructor
  · intro reached
    refine reached.within (fun file => Visited.Reached project.next entries file ∨
      Visited.Reached project.next others file) ?_ ?_
    · intro start first
      exact (List.mem_append.mp first).imp .start .start
    · intro known here other leads
      exact here.imp (·.step leads) (·.step leads)
  · rintro (reached | reached)
    · exact reached.mono (List.subset_append_left _ _)
    · exact reached.mono (List.subset_append_right _ _)

/-- An answer comes for all entries; its files are a closure, and it is open where one of them
leaves it open.  What was asked before changes nothing, and the order of the entries no more than
which reason is given. -/
theorem loads_closure (imports : Imports project) (entries : List Name) :
    ∃ files why, imports.LoadsTo entries files why ∧
      (∀ files' why', imports.LoadsTo entries files' why' → files' = files ∧ why' = why) ∧
      IsLeast (Closed project entries) files ∧
      (why.isSome ↔ ∃ file ∈ files, project.Opens file) ∧
      (∀ others files' why', imports.LoadsTo others files' why' →
        ∃ why'', imports.LoadsTo (entries ++ others) (files ∪ files') why'') ∧
      (∀ other : Imports project, other.LoadsTo entries files why) ∧
      ∀ (other : Imports project) (others : List Name), (∀ file, file ∈ others ↔ file ∈ entries) →
        ∃ why', other.LoadsTo others files why' ∧ (why'.isSome ↔ why.isSome) := by
  obtain ⟨files, why, answered⟩ := imports.exists_loadsTo entries
  refine ⟨files, why, answered, fun _ _ => loadsTo_unique answered, ?_, isSome_loadsTo answered,
    ?_, ?_, ?_⟩
  · have same : (files : Set Name) = {file | Visited.Reached project.next entries file} :=
      Set.ext fun file => mem_loadsTo answered file
    rw [same]
    exact isLeast_reached entries
  · intro others files' why' answered'
    obtain ⟨both, why'', together⟩ := imports.exists_loadsTo (entries ++ others)
    have union : both = files ∪ files' := by
      apply Finset.ext
      intro file
      rw [Finset.mem_union, mem_loadsTo together, mem_loadsTo answered, mem_loadsTo answered',
        reached_append]
    exact ⟨why'', union ▸ together⟩
  · intro other
    obtain ⟨fuel, after, answered⟩ := answered
    obtain ⟨after', again⟩ := project.loads_fresh (project.fresh_asked imports.asked)
      (project.fresh_asked other.asked) answered
    exact ⟨fuel, after', again⟩
  · intro other others members
    obtain ⟨files', why', answered'⟩ := other.exists_loadsTo others
    have same : files' = files := by
      apply Finset.ext
      intro file
      rw [mem_loadsTo answered', mem_loadsTo answered]
      exact ⟨.mono fun entry => (members entry).mp, .mono fun entry => (members entry).mpr⟩
    rw [same] at answered'
    exact ⟨why', answered', (isSome_loadsTo answered').trans (isSome_loadsTo answered).symm⟩

/-- Two files that each import what is computed. -/
def computing : Project where
  files := {"a.js".toList, "b.js".toList}
  readToString := fun name =>
    if name ∈ ["a.js".toList, "b.js".toList] then some "import(name);".toList else none
  installed := fun _ => false
  parse := fun _ _ => some [.computed]
  pythonImports := fun _ => none
  rubyRequires := fun _ => none
  packages := []
  aliases := []
  subpaths := []

def unasked : Imports computing := ⟨Caches.new, .new⟩

/-- The reason given is that of the entry that comes first. -/
theorem loads_first_reason :
    (∃ files, unasked.LoadsTo ["a.js".toList, "b.js".toList] files
      (some "a.js imports a computed path".toList)) ∧
    ∃ files, unasked.LoadsTo ["b.js".toList, "a.js".toList] files
      (some "b.js imports a computed path".toList) :=
  ⟨⟨_, 2, _, rfl⟩, ⟨_, 2, _, rfl⟩⟩

end Imports

end Supercov.TestLoads
