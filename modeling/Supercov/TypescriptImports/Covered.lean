import Supercov.TypescriptImports.Configs
import Mathlib.Data.List.Find

/-!
# What the fingerprint covers

The two walks over the configurations end on every graph of them.  Configurations that are named
and have the same contents decide alike where no name of one is led elsewhere by a link and there
are no more of them than the fingerprint takes.
-/

namespace Supercov.TypescriptImports

open Visited (Reached Few visit visitAll)

section Graph

variable (parse : List Char → Option JsonValue) (disk : Disk) (root : Path)

def lead (path : Path) : Option Path := (disk.canonicalize path).filter (root <+: ·)

/-- The configurations that the one at `path` extends. -/
def nexts (path : Path) : List Path :=
  match json parse disk path with
  | none => []
  | some config => (bases path config).filterMap (lead disk root)

def starts (files : List (List Char)) : List Path :=
  (files.flatMap fun file => (tsconfigs root file).filter disk.has).filterMap (lead disk root)

variable {parse disk root}

theorem lead_eq_some_iff {path own : Path} :
    lead disk root path = some own ↔ disk.canonicalize path = some own ∧ root <+: own := by
  rw [lead, Option.filter_eq_some_iff, decide_eq_true_iff]

theorem canonicalize_canonical {path own : Path} (found : disk.canonicalize path = some own) :
    disk.canonicalize own = some own := by
  have same := disk.canonicalize_append found []
  rw [List.append_nil, List.append_nil] at same
  exact same.symm.trans found

theorem has_of_lead {path own : Path} (leads : lead disk root path = some own) :
    disk.has path = true :=
  Option.isSome_of_eq_some (lead_eq_some_iff.mp leads).1

theorem lead_of_reached {files : List (List Char)} {path : Path}
    (reached : Reached (nexts parse disk root) (starts disk root files) path) :
    lead disk root path = some path := by
  have canonical {from_ own : Path} (leads : lead disk root from_ = some own) :
      lead disk root own = some own := by
    obtain ⟨found, within⟩ := lead_eq_some_iff.mp leads
    exact lead_eq_some_iff.mpr ⟨canonicalize_canonical found, within⟩
  refine reached.within (fun path => lead disk root path = some path) ?_ ?_
  · intro start first
    obtain ⟨config, -, leads⟩ := List.mem_filterMap.mp first
    exact canonical leads
  · intro path _ other leads
    unfold nexts at leads
    cases held : json parse disk path with
    | none => exact absurd (held ▸ leads) List.not_mem_nil
    | some config =>
      rw [held] at leads
      obtain ⟨base, -, leads⟩ := List.mem_filterMap.mp leads
      exact canonical leads

end Graph

section Walk

variable {parse : List Char → Option JsonValue} {disk : Disk} {root : Path}

theorem add_of_unled {stack : Nat} {path : Path} (unled : lead disk root path = none)
    (paths : Finset Path) : add parse disk root (stack + 1) path paths = .ok paths := by
  rw [add]
  cases found : disk.canonicalize path with
  | none => rfl
  | some own =>
    have outside : ¬root <+: own := fun within =>
      absurd (lead_eq_some_iff.mpr ⟨found, within⟩) (by rw [unled]; nofun)
    exact if_pos (Or.inl outside)

theorem addAll_of_visitAll {stack : Nat}
    (each : ∀ path own paths after, lead disk root path = some own →
      visit 256 (nexts parse disk root) stack own paths = .ok after →
        add parse disk root (stack + 1) path paths = .ok after)
    {configs : List Path} {paths after : Finset Path}
    (visited : visitAll 256 (nexts parse disk root) stack (configs.filterMap (lead disk root)) paths =
      .ok after) :
    configs.foldlM (fun paths config => add parse disk root (stack + 1) config paths) paths =
      .ok after := by
  induction configs generalizing paths with
  | nil => exact visited
  | cons config configs inductionHypothesis =>
    rw [List.foldlM_cons]
    cases led : lead disk root config with
    | none =>
      rw [List.filterMap_cons_none led] at visited
      rw [add_of_unled led, Outcome.ok_bind]
      exact inductionHypothesis visited
    | some place =>
      rw [List.filterMap_cons_some led, visitAll, List.foldlM_cons] at visited
      obtain ⟨between, first, rest⟩ := Outcome.bind_eq_ok.mp visited
      rw [each config place paths between led first, Outcome.ok_bind]
      exact inductionHypothesis rest

theorem add_of_visit (stack : Nat) (path own : Path) (paths after : Finset Path)
    (leads : lead disk root path = some own)
    (visited : visit 256 (nexts parse disk root) stack own paths = .ok after) :
    add parse disk root (stack + 1) path paths = .ok after := by
  induction stack generalizing path own paths after with
  | zero => cases visited
  | succ stack inductionHypothesis =>
    obtain ⟨found, within⟩ := lead_eq_some_iff.mp leads
    rw [visit] at visited
    rw [add, found]
    dsimp only
    by_cases stops : 256 < paths.card ∨ own ∈ paths
    · rw [if_pos stops] at visited
      rw [if_pos (Or.inr stops), visited]
    · rw [if_neg stops] at visited
      rw [if_neg (not_or.mpr ⟨not_not.mpr within, stops⟩)]
      unfold nexts at visited
      cases held : json parse disk own with
      | none =>
        rw [held] at visited
        exact visited
      | some config =>
        rw [held] at visited
        exact addAll_of_visitAll inductionHypothesis visited

end Walk

section Named

variable {parse : List Char → Option JsonValue} {stack : Nat} {disk : Disk} {given : Path}
  {files : List (List Char)}

/-- The configurations that decide for the files, each reached by links and names alone. -/
def Decides (parse : List Char → Option JsonValue) (disk : Disk) (given : Path)
    (files : List (List Char)) : Path → Prop :=
  Reached (nexts parse disk (rootPath disk given)) (starts disk (rootPath disk given) files)

/-- There are no more of them than are named. -/
def FewDecide (parse : List Char → Option JsonValue) (disk : Disk) (given : Path)
    (files : List (List Char)) : Prop :=
  Few 256 (nexts parse disk (rootPath disk given)) (starts disk (rootPath disk given) files)

theorem within_of_decides {path : Path} (decides : Decides parse disk given files path) :
    rootPath disk given <+: path :=
  (lead_eq_some_iff.mp (lead_of_reached decides)).2

def named (given root path : Path) : Path := given ++ path.drop root.length

theorem named_injective {root path other : Path} (within : root <+: path) (within' : root <+: other)
    (same : named given root path = named given root other) : path = other := by
  obtain ⟨rest, rfl⟩ := within
  obtain ⟨rest', rfl⟩ := within'
  have rests := List.append_cancel_left same
  rw [List.drop_left, List.drop_left] at rests
  rw [rests]

theorem configPaths_decides (parse : List Char → Option JsonValue) (disk : Disk) (given : Path)
    (deep : 259 ≤ stack) (files : List (List Char)) :
    ∃ paths : Finset Path, configPaths parse stack disk given files =
        .ok (paths.image (named given (rootPath disk given))) ∧
      (∀ path ∈ paths, Decides parse disk given files path) ∧
      (FewDecide parse disk given files →
        ∀ path, Decides parse disk given files path → path ∈ paths) := by
  obtain ⟨stack, rfl⟩ := Nat.exists_eq_add_of_le' (show 1 ≤ stack by omega)
  obtain ⟨paths, visited, sound, complete⟩ := Visited.visitAll_reached 256
    (nexts parse disk (rootPath disk given)) (show 256 + 2 ≤ stack by omega)
    (starts disk (rootPath disk given) files)
  refine ⟨paths, ?_, sound, complete⟩
  have all : paths.filter (rootPath disk given <+: ·) = paths :=
    Finset.filter_true_of_mem fun path member => within_of_decides (sound path member)
  unfold configPaths
  dsimp only
  rw [addAll_of_visitAll (add_of_visit stack) visited, Outcome.ok_bind, all]
  rfl

theorem readToString_named {path : Path} (decides : Decides parse disk given files path) :
    disk.readToString (named given (rootPath disk given) path) = disk.readToString path := by
  obtain ⟨rest, rfl⟩ := within_of_decides decides
  have own := (lead_eq_some_iff.mp (lead_of_reached decides)).1
  unfold named rootPath at *
  rw [List.drop_left]
  cases found : disk.canonicalize given with
  | none => rfl
  | some root =>
    rw [found, Option.getD_some] at own
    exact disk.readToString_canonical ((disk.canonicalize_append found rest).trans own)

end Named

section Ends

variable {parse : List Char → Option JsonValue} {disk : Disk} {root : Path}

theorem known_yields {Value : Type} (value : Option Value) :
    (known value).Yields fun _ => True := by
  cases value <;> trivial

theorem options_yields (parse : List Char → Option JsonValue) (disk : Disk) (root : Path) (stack : Nat) (path : Path) (seen : List Path) (few : seen.length ≤ 32)
    (deep : 33 ≤ stack + seen.length) :
    (options parse disk root stack path seen).Yields fun _ => True := by
  induction stack generalizing path seen with
  | zero => omega
  | succ stack inductionHypothesis =>
    rw [options]
    apply (known_yields _).bind
    intro own _
    split_ifs with within stops
    · trivial
    · apply (known_yields _).bind
      intro config _
      apply (known_yields _).bind
      intro parents _
      have room : (own :: seen).length ≤ 32 := Nat.le_of_not_lt fun many => stops (Or.inr many)
      apply Outcome.Yields.bind (P := fun _ => True)
      · refine Outcome.Yields.foldlM trivial fun result _ parent _ => ?_
        split_ifs
        · apply (inductionHypothesis _ _ room _).bind
          · exact fun _ _ => trivial
          · rw [List.length_cons]
            omega
        · trivial
      · intro result _
        split <;> trivial
    · trivial

end Ends

section Steps

variable {parse : List Char → Option JsonValue} {disk : Disk} {root : Path} {stack : Nat}
  {path own : Path} {seen : List Path}

theorem options_of_unled (unled : lead disk root path = none) :
    options parse disk root (stack + 1) path seen = .refused () := by
  rw [options]
  cases found : disk.canonicalize path with
  | none => rfl
  | some own =>
    have outside : ¬root <+: own := fun within =>
      absurd (lead_eq_some_iff.mpr ⟨found, within⟩) (by rw [unled]; nofun)
    exact if_pos outside

/-- The options of a configuration, with those it extends. -/
def optionsOf (parse : List Char → Option JsonValue) (disk : Disk) (root : Path) (stack : Nat)
    (own : Path) (seen : List Path) (config : JsonValue) : Outcome Unit Options := do
  let parents ← known (parents config)
  let result ← parents.foldlM (fun result parent => do
    if ¬isRelative parent then .refused () else
    let inherited ← options parse disk root stack (parentPath own parent.toList) (own :: seen)
    return extend result inherited) []
  match field "compilerOptions" config with
  | none => return result
  | some (.object fields) => return extend result fields
  | some _ => .refused ()

theorem options_of_led (leads : lead disk root path = some own) :
    options parse disk root (stack + 1) path seen =
      if own ∈ seen ∨ 32 < (own :: seen).length then .refused ()
      else known (json parse disk own) >>= optionsOf parse disk root stack own seen := by
  obtain ⟨found, within⟩ := lead_eq_some_iff.mp leads
  rw [options, found]
  exact if_neg (not_not.mpr within)

end Steps

section Alike

variable {parse : List Char → Option JsonValue} {before after : Disk} {root : Path}

theorem filterMap_of_mapM {Item Made : Type} {make : Item → Option Made} {items : List Item}
    {made : List Made} (all : items.mapM make = some made) : items.filterMap make = made := by
  induction items generalizing made with
  | nil => exact Option.some.inj all
  | cons item items inductionHypothesis =>
    rw [List.mapM_cons] at all
    obtain ⟨first, makes, all⟩ := Option.bind_eq_some_iff.mp all
    obtain ⟨others, rest, whole⟩ := Option.bind_eq_some_iff.mp all
    rw [List.filterMap_cons_some makes, inductionHypothesis rest]
    exact Option.some.inj whole

theorem parentStrings_of_parents {config : JsonValue} {names : List String}
    (strings : parents config = some names) : parentStrings config = names := by
  unfold parents at strings
  unfold parentStrings
  split at strings
  · next none =>
    rw [none]
    exact Option.some.inj strings
  · next single =>
    rw [single]
    exact Option.some.inj strings
  · next items several =>
    rw [several]
    exact filterMap_of_mapM strings
  · cases strings

theorem foldlM_congr {Item State : Type} {step step' : State → Item → Outcome Unit State}
    {items : List Item} (same : ∀ state, ∀ item ∈ items, step state item = step' state item)
    (init : State) : items.foldlM step init = items.foldlM step' init := by
  induction items generalizing init with
  | nil => rfl
  | cons item items inductionHypothesis =>
    obtain ⟨first, rest⟩ := forall_and.mp fun state => List.forall_mem_cons.mp (same state)
    rw [List.foldlM_cons, List.foldlM_cons, first]
    congr 1
    funext state
    exact inductionHypothesis rest state

theorem options_alike (decides : Path → Prop)
    (alike : ∀ path, decides path → json parse before path = json parse after path)
    (leadAlike : ∀ path config, decides path → json parse before path = some config →
      ∀ base ∈ bases path config, lead before root base = lead after root base ∧
        ∀ own, lead before root base = some own → decides own)
    (stack : Nat) {path : Path} (seen : List Path)
    (same : lead before root path = lead after root path)
    (among : ∀ own, lead before root path = some own → decides own) :
    options parse before root stack path seen = options parse after root stack path seen := by
  induction stack generalizing path seen with
  | zero => rfl
  | succ stack inductionHypothesis =>
    cases leads : lead before root path with
    | none => rw [options_of_unled leads, options_of_unled (same.symm.trans leads)]
    | some own =>
      have here := among own leads
      rw [options_of_led leads, options_of_led (same.symm.trans leads), ← alike own here]
      congr 1
      cases held : json parse before own with
      | none => rfl
      | some config =>
        change optionsOf parse before root stack own seen config =
          optionsOf parse after root stack own seen config
        unfold optionsOf
        cases strings : parents config with
        | none => rfl
        | some names =>
          simp only [known, Outcome.ok_bind]
          congr 1
          apply foldlM_congr
          intro result parent member
          by_cases relative : isRelative parent
          · have base : parentPath own parent.toList ∈ bases own config := by
              unfold bases
              rw [parentStrings_of_parents strings]
              exact List.mem_map_of_mem (List.mem_filter.mpr ⟨member, relative⟩)
            obtain ⟨same, among⟩ := leadAlike own config here held _ base
            rw [inductionHypothesis (own :: seen) same among]
          · rw [if_pos relative, if_pos relative]

end Alike

section Law

variable {parse : List Char → Option JsonValue} {stack : Nat} {before after : Disk} {given : Path}
  {files : List (List Char)}

/-- In both states a path leads where its own place within the root does, which is no link. -/
def Plain (root : Path) (before after : Disk) (path : Path) : Prop :=
  ∃ own, root <+: own ∧
    (before.canonicalize path = before.canonicalize own ∧
      ∀ place, before.canonicalize own = some place → place = own) ∧
    (after.canonicalize path = after.canonicalize own ∧
      ∀ place, after.canonicalize own = some place → place = own)

/-- No name that is looked at leads elsewhere in the other state but as its plain place is there or
not, and no more configurations decide than are named. -/
structure Told (parse : List Char → Option JsonValue) (before after : Disk) (given : Path)
    (files : List (List Char)) : Prop where
  root : rootPath before given = rootPath after given
  configs : ∀ file ∈ files, ∀ config ∈ tsconfigs (rootPath before given) file,
    before.canonicalize config = after.canonicalize config ∨
      Plain (rootPath before given) before after config
  bases : ∀ path config, Decides parse before given files path →
    json parse before path = some config → ∀ base ∈ bases path config,
      lead before (rootPath before given) base = lead after (rootPath before given) base ∨
        Plain (rootPath before given) before after base
  fewBefore : FewDecide parse before given files
  fewAfter : FewDecide parse after given files

/-- The configurations that are named are the same, and each has the same contents. -/
structure SameConfigs (parse : List Char → Option JsonValue) (stack : Nat) (before after : Disk)
    (given : Path) (files : List (List Char)) : Prop where
  names : configPaths parse stack before given files = configPaths parse stack after given files
  contents : ∀ paths, configPaths parse stack before given files = .ok paths → ∀ path ∈ paths,
    before.readToString path = after.readToString path

theorem decides_of_names {disk disk' : Disk} (deep : 259 ≤ stack)
    (root : rootPath disk given = rootPath disk' given) (few : FewDecide parse disk given files)
    (names : configPaths parse stack disk given files = configPaths parse stack disk' given files)
    {path : Path} (decides : Decides parse disk given files path) :
    Decides parse disk' given files path := by
  obtain ⟨paths, namedPaths, -, complete⟩ :=
    configPaths_decides parse disk given deep files
  obtain ⟨paths', namedPaths', sound', -⟩ :=
    configPaths_decides parse disk' given deep files
  have images := Outcome.ok.inj (namedPaths.symm.trans (names.trans namedPaths'))
  have member := Finset.mem_image_of_mem (named given (rootPath disk given))
    (complete few path decides)
  rw [images, ← root] at member
  obtain ⟨other, member, alike⟩ := Finset.mem_image.mp member
  have within := within_of_decides (sound' other member)
  rw [← root] at within
  rw [← named_injective within (within_of_decides decides) alike]
  exact sound' other member

theorem decides_of_tsconfig {disk : Disk} {file : List Char} (listed : file ∈ files)
    {config own : Path} (among : config ∈ tsconfigs (rootPath disk given) file)
    (leads : lead disk (rootPath disk given) config = some own) :
    Decides parse disk given files own := by
  apply Reached.start
  refine List.mem_filterMap.mpr ⟨config, ?_, leads⟩
  exact List.mem_flatMap.mpr ⟨file, listed, List.mem_filter.mpr ⟨among, has_of_lead leads⟩⟩

theorem decides_of_base {disk : Disk} {path base own : Path} {config : JsonValue}
    (decides : Decides parse disk given files path) (held : json parse disk path = some config)
    (extended : base ∈ bases path config) (leads : lead disk (rootPath disk given) base = some own) :
    Decides parse disk given files own := by
  apply Reached.step decides
  unfold nexts
  rw [held]
  exact List.mem_filterMap.mpr ⟨base, extended, leads⟩

variable (deep : 259 ≤ stack) (told : Told parse before after given files)
  (same : SameConfigs parse stack before after given files)

include deep told same

theorem decides_iff (path : Path) :
    Decides parse before given files path ↔ Decides parse after given files path :=
  ⟨decides_of_names deep told.root told.fewBefore same.names,
    decides_of_names deep told.root.symm told.fewAfter same.names.symm⟩

theorem json_alike {path : Path} (decides : Decides parse before given files path) :
    json parse before path = json parse after path := by
  obtain ⟨paths, namedPaths, -, complete⟩ :=
    configPaths_decides parse before given deep files
  have contents := same.contents _ namedPaths _
    (Finset.mem_image_of_mem _ (complete told.fewBefore path decides))
  rw [readToString_named decides, told.root,
    readToString_named ((decides_iff deep told same path).mp decides)] at contents
  unfold json
  rw [contents]

theorem canonicalize_alike {path : Path} (plain : Plain (rootPath before given) before after path)
    (decides : ∀ own, lead before (rootPath before given) path = some own →
      Decides parse before given files own)
    (decides' : ∀ own, lead after (rootPath after given) path = some own →
      Decides parse after given files own) :
    before.canonicalize path = after.canonicalize path := by
  obtain ⟨own, within, ⟨leads, itself⟩, ⟨leads', itself'⟩⟩ := plain
  have there {place : Path} (found : before.canonicalize own = some place) :
      after.canonicalize own = some place := by
    obtain rfl := itself place found
    have reached := decides place (lead_eq_some_iff.mpr ⟨leads.trans found, within⟩)
    have reached' := (decides_iff deep told same place).mp reached
    exact (lead_eq_some_iff.mp (lead_of_reached reached')).1
  have back {place : Path} (found : after.canonicalize own = some place) :
      before.canonicalize own = some place := by
    obtain rfl := itself' place found
    have reached := decides' place (lead_eq_some_iff.mpr ⟨leads'.trans found, told.root ▸ within⟩)
    have reached' := (decides_iff deep told same place).mpr reached
    exact (lead_eq_some_iff.mp (lead_of_reached reached')).1
  rw [leads, leads']
  exact Option.ext fun place => ⟨there, back⟩

theorem tsconfig_alike {file : List Char} (listed : file ∈ files) {config : Path}
    (among : config ∈ tsconfigs (rootPath before given) file) :
    before.canonicalize config = after.canonicalize config := by
  rcases told.configs file listed config among with alike | plain
  · exact alike
  · apply canonicalize_alike deep told same plain
    · exact fun own => decides_of_tsconfig listed among
    · exact fun own => decides_of_tsconfig listed (told.root ▸ among)

theorem base_alike {path : Path} (decides : Decides parse before given files path)
    {config : JsonValue} (held : json parse before path = some config) {base : Path}
    (extended : base ∈ bases path config) :
    lead before (rootPath before given) base = lead after (rootPath before given) base := by
  rcases told.bases path config decides held base extended with alike | plain
  · exact alike
  · have decides' := (decides_iff deep told same path).mp decides
    have held' := (json_alike deep told same decides).symm.trans held
    unfold lead
    rw [canonicalize_alike deep told same plain
      (fun own => decides_of_base decides held extended)
      (fun own => decides_of_base decides' held' extended)]

theorem elidesTypeImports_alike {file : List Char} (listed : file ∈ files) :
    elidesTypeImports parse stack before given file =
      elidesTypeImports parse stack after given file := by
  have found : (tsconfigs (rootPath before given) file).find? before.has =
      (tsconfigs (rootPath after given) file).find? after.has := by
    rw [← told.root]
    apply List.find?_congr
    intro config among
    unfold Disk.has
    rw [tsconfig_alike deep told same listed among]
  unfold elidesTypeImports
  dsimp only
  rw [← found]
  cases nearest : (tsconfigs (rootPath before given) file).find? before.has with
  | none => rfl
  | some config =>
    have among := List.mem_of_find?_eq_some nearest
    have alike : options parse before (rootPath before given) stack config [] =
        options parse after (rootPath before given) stack config [] := by
      apply options_alike (Decides parse before given files)
      · exact fun path decides => json_alike deep told same decides
      · exact fun path config decides held base extended =>
          ⟨base_alike deep told same decides held extended,
            fun own => decides_of_base decides held extended⟩
      · unfold lead
        rw [tsconfig_alike deep told same listed among]
      · exact fun own => decides_of_tsconfig listed among
    dsimp only
    rw [alike, told.root]

end Law

section Covered

variable (parse : List Char → Option JsonValue) (stack : Nat) (before after : Disk) (given : Path)
  (files : List (List Char))

/-- Where the configurations that are named and their contents are the same, so is every answer. -/
def Covers : Prop :=
  SameConfigs parse stack before after given files → ∀ file ∈ files,
    elidesTypeImports parse stack before given file = elidesTypeImports parse stack after given file

end Covered

section Linked

/-- The entries of a disk: where each path leads.  Below a link, and below what it leads to, there
is nothing. -/
def IsFlat (entries : List (Path × Path)) : Prop :=
  ∀ entry ∈ entries, entry.1 = entry.2 ∨ entries.lookup entry.2 = some entry.2 ∧
    ∀ other ∈ entries, ∀ path ∈ [entry.1, entry.2], path <+: other.1 → path = other.1

instance (entries : List (Path × Path)) : Decidable (IsFlat entries) :=
  inferInstanceAs (Decidable (∀ entry ∈ entries, _))

theorem lookup_append_of_flat {entries : List (Path × Path)} (flat : IsFlat entries)
    {path own : Path} (found : entries.lookup path = some own) (rest : Path) :
    entries.lookup (path ++ rest) = entries.lookup (own ++ rest) := by
  obtain ⟨front, behind, rfl, -⟩ := List.lookup_eq_some_iff.mp found
  rcases flat (path, own) (by simp) with same | ⟨itself, alone⟩
  · rw [show path = own from same]
  · cases rest with
    | nil => rw [List.append_nil, List.append_nil, found, itself]
    | cons part rest =>
      have absent {place : Path} (among : place ∈ [path, own]) :
          (front ++ (path, own) :: behind).lookup (place ++ part :: rest) = none := by
        rw [List.lookup_eq_none_iff]
        intro other member
        rw [bne_iff_ne]
        intro same
        have whole := alone other member place among (same ▸ List.prefix_append _ _)
        rw [← same] at whole
        exact absurd (congrArg List.length whole) (by simp)
      rw [absent (by simp), absent (by simp)]

/-- A disk of few entries, and the texts of its files. -/
def Disk.ofEntries (entries : List (Path × Path)) (texts : List (Path × List Char))
    (flat : IsFlat entries) : Disk where
  canonicalize path := entries.lookup path
  readToString path := (entries.lookup path).bind fun own => texts.lookup own
  canonicalize_append found rest := lookup_append_of_flat flat found rest
  readToString_canonical := by
    intro path own found
    have itself := lookup_append_of_flat flat found []
    rw [List.append_nil, List.append_nil] at itself
    rw [itself]

def project : Path := ["p".toList]
def rootConfig : Path := ["p".toList, "tsconfig.json".toList]
def nestedConfig : Path := ["p".toList, "src".toList, "tsconfig.json".toList]
def outsideConfig : Path := ["o.json".toList]

def texts : List (Path × List Char) :=
  [(rootConfig, "\x7b\x7d".toList), (outsideConfig, "\x7b\x7d".toList)]

def linked : Disk :=
  .ofEntries [(project, project), (rootConfig, rootConfig), (nestedConfig, outsideConfig),
    (outsideConfig, outsideConfig)] texts (by decide)

/-- There is none beside it. -/
def unlinked : Disk :=
  .ofEntries [(project, project), (rootConfig, rootConfig), (outsideConfig, outsideConfig)] texts
    (by decide)

def parseEmpty (text : List Char) : Option JsonValue :=
  if text = "\x7b\x7d".toList then some (.object []) else none

/-- Nor is there a file outside. -/
def alone : Disk :=
  .ofEntries [(project, project), (rootConfig, rootConfig)] texts (by decide)

theorem eq_of_decides {disk : Disk} {files : List (List Char)} {config path : Path}
    (first : starts disk (rootPath disk project) files = [config])
    (last : nexts parseEmpty disk (rootPath disk project) config = [])
    (decides : Decides parseEmpty disk project files path) : path = config := by
  refine decides.within (fun path => path = config) ?_ ?_
  · intro start member
    rw [first] at member
    exact List.mem_singleton.mp member
  · intro node same other leads
    rw [same, last] at leads
    exact absurd leads List.not_mem_nil

theorem fewDecide_of_eq {disk : Disk} {files : List (List Char)} {config : Path}
    (only : ∀ path, Decides parseEmpty disk project files path → path = config) :
    FewDecide parseEmpty disk project files := by
  intro nodes reached
  have within : nodes ⊆ {config} := fun node member =>
    Finset.mem_singleton.mpr (only node (reached node member))
  exact (Finset.card_le_card within).trans (by rw [Finset.card_singleton]; omega)

end Linked

end Supercov.TypescriptImports
