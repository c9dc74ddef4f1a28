import Supercov.Units.Nested

/-!
# No change is lost

What a program can observe of a file is made of the texts of its units.  Where two views
have the same units in the same order, each with the same text, they are views of one
program.
-/

namespace Supercov.Units

section Built

theorem dedup_sublist (items : List Item) : (dedup items).Sublist items := by
  induction items with
  | nil => exact .slnil
  | cons item rest ih =>
    unfold dedup
    split
    · exact .cons_cons item (List.nil_sublist rest)
    · next later others found =>
      rw [found] at ih
      split
      · exact .cons_cons item ((List.sublist_cons_self later others).trans ih)
      · exact .cons_cons item ih

theorem declarationsOf_spec (source : Text) (declarations : List Item) :
    (declarationsOf source declarations).Pairwise (fun item later => item.start ≤ later.start) ∧
      ∀ item ∈ declarationsOf source declarations, item.start < item.stop ∧ item.stop ≤ source.length := by
  have : Std.Total fun item other => itemLe item other = true := by
    constructor
    intro item other
    simp only [itemLe, decide_eq_true_eq]
    omega
  have : IsTrans Item fun item other => itemLe item other = true := by
    constructor
    intro item other last
    simp only [itemLe, decide_eq_true_eq]
    omega
  unfold declarationsOf
  constructor
  · refine ((List.pairwise_insertionSort (fun item other => itemLe item other = true) _).imp ?_).sublist
      (dedup_sublist _)
    intro item later le
    simp only [itemLe, decide_eq_true_eq] at le
    omega
  · intro item member
    have member := (List.mem_insertionSort _).mp ((dedup_sublist _).subset member)
    simpa using (List.mem_filter.mp member).2

theorem nested_nest (separator : Text) {items : List Item} {top : Nat × Built}
    {below : List (Nat × Built)} {names : List (Nat × Text)} {index : Nat}
    (ascending : items.Pairwise fun item later => item.start ≤ later.start)
    (some : ∀ item ∈ items, item.start < item.stop)
    (after : ∀ item ∈ items, top.2.start ≤ item.start)
    (inside : ∀ item ∈ items, ∃ unit ∈ top :: below, item.start < unit.2.stop) :
    Nested top below index (nest separator top below names index items) := by
  induction items generalizing top below names index with
  | nil => trivial
  | cons item rest ih =>
    obtain ⟨closed, whole, before, last⟩ := popped_spec item.start top below
    have ascending := List.pairwise_cons.mp ascending
    rw [List.forall_mem_cons] at some after inside
    unfold nest Nested
    dsimp only
    generalize (popped item.start top below).1 = holder at *
    generalize (popped item.start top below).2 = outer at *
    rw [whole] at inside
    have starts : item.start < holder.2.stop := by
      rcases last with none | starts
      · obtain ⟨unit, member, lt⟩ := inside.1
        rcases List.mem_append.mp member with ended | member
        · exact absurd (before unit ended) (by omega)
        · rw [none, List.mem_singleton] at member
          exact member ▸ lt
      · exact starts
    refine ⟨rfl, fun inert => by simp [inert], after.1, starts, lt_min some.1 starts,
      min_le_right _ _, ih ascending.2 some.2 ascending.1 ?_⟩
    intro later member
    obtain ⟨unit, among, lt⟩ := inside.2 later member
    refine ⟨unit, List.mem_cons_of_mem _ ?_, lt⟩
    rcases List.mem_append.mp among with ended | among
    · have := before unit ended
      have := ascending.1 later member
      omega
    · exact among

theorem nested_builtOf (source : Text) (outline : Outline) :
    Nested (0, fileUnit source) [] 1 (builtOf source outline).tail := by
  obtain ⟨ascending, fits⟩ := declarationsOf_spec source outline.declarations
  refine nested_nest outline.separator ascending (fun item member => (fits item member).1)
    (fun _ _ => Nat.zero_le _) fun item member => ⟨_, List.mem_singleton_self _, ?_⟩
  obtain ⟨some, within⟩ := fits item member
  exact some.trans_le within

theorem stacked_fileUnit (source : Text) : Stacked source.length [(0, fileUnit source)] 1 where
  descending := List.pairwise_singleton _ _
  given := by simp
  inert := List.pairwise_singleton _ _
  within := by simp [fileUnit]
  whole := ⟨_, List.mem_singleton_self _, rfl, rfl⟩

def liveOf (built : List Built) (texts : List Text) : List Text :=
  ((built.zip texts).filter fun unit => !unit.1.inert).map Prod.snd

theorem liveTexts_of_mapM {kept : Kept} (earlier : List Built) {rest : List Built} {top : Nat × Built}
    {below : List (Nat × Built)} {texts : List Text}
    (nested : Nested top below earlier.length rest)
    (given : ∀ unit ∈ top :: below, unit.1 < earlier.length)
    (backward : ∀ unit ∈ earlier, ∀ holder, unit.parent = some holder → holder < earlier.length)
    (made : (rest.zipIdx earlier.length).mapM
      (fun unit => unitText kept (earlier ++ rest) unit.2 unit.1) = some texts) :
    liveTexts kept earlier.length rest = some (liveOf rest texts) := by
  induction rest generalizing earlier top below texts with
  | nil =>
    cases made
    rfl
  | cons unit rest ih =>
    obtain ⟨closed, whole, -, -⟩ := popped_spec unit.start top below
    obtain ⟨parent, -, -, -, -, -, nested⟩ := nested
    rw [whole] at given
    have givenHolder := given (popped unit.start top below).1 (by simp)
    rw [List.zipIdx_cons, List.mapM_cons] at made
    obtain ⟨text, own, made⟩ := Option.bind_eq_some_iff.mp made
    obtain ⟨others, rests, same⟩ := Option.bind_eq_some_iff.mp made
    cases same
    have split : earlier ++ unit :: rest = (earlier ++ [unit]) ++ rest := by simp
    have backward' : ∀ unit' ∈ earlier ++ [unit], ∀ holder, unit'.parent = some holder →
        holder < earlier.length := by
      intro unit' member holder parent'
      rcases List.mem_append.mp member with member | member
      · exact backward unit' member holder parent'
      · rw [List.mem_singleton] at member
        subst member
        cases parent.symm.trans parent'
        exact givenHolder
    have children : childrenOf earlier.length (earlier ++ unit :: rest) =
        childrenOf earlier.length rest := by
      rw [split, childrenOf, List.filter_append, List.filter_eq_nil_iff.mpr, List.nil_append, childrenOf]
      intro unit' member own
      exact absurd (backward' unit' member earlier.length (by simpa using own)) (lt_irrefl _)
    have length : (earlier ++ [unit]).length = earlier.length + 1 := by simp
    rw [split, ← length] at rests
    rw [← length] at nested
    have listed := ih (earlier ++ [unit]) nested ?_ ?_ rests
    · rw [length] at listed
      unfold unitText at own
      rw [children] at own
      unfold liveTexts
      rw [listed, Option.bind_eq_bind, Option.bind_some, own]
      cases inert : unit.inert <;> simp [liveOf, inert]
    · rw [length]
      refine List.forall_mem_cons.mpr ⟨Nat.lt_succ_self _, fun open' member => ?_⟩
      exact (given open' (List.mem_append_right _ member)).trans (Nat.lt_succ_self _)
    · rw [length]
      exact fun unit' member holder parent' =>
        (backward' unit' member holder parent').trans (Nat.lt_succ_self _)

end Built

section Structure

theorem UnitKind.clear (kind : UnitKind) : 1 ∉ kind.text ∧ newline ∉ kind.text := by
  cases kind <;> decide +kernel

def IsLine (line : Text) : Prop :=
  ∃ unit : Built, 1 ∉ unit.path ∧ line = structureLine unit

theorem flatten_cons_structureLine (unit : Built) (lines : List Text) :
    (structureLine unit :: lines).flatten =
      unit.kind.text ++ 1 :: (unit.path ++ newline :: lines.flatten) := by
  simp [structureLine]

theorem path_of_flatten {path path' : Text} {lines lines' : List Text} (clear : 1 ∉ path)
    (clear' : 1 ∉ path') (marked : ∀ line ∈ lines, IsLine line) (marked' : ∀ line ∈ lines', IsLine line)
    (same : path ++ newline :: lines.flatten = path' ++ newline :: lines'.flatten) :
    path = path' ∧ lines.flatten = lines'.flatten := by
  have unmarked {path : Text} (clear : 1 ∉ path) : 1 ∉ path ++ [newline] := by
    simp [clear, newline]
  cases lines with
  | nil =>
    cases lines' with
    | nil => exact ⟨by simpa using same, rfl⟩
    | cons line' lines' =>
      obtain ⟨unit', -, rfl⟩ := marked' line' (List.mem_cons_self ..)
      have found : 1 ∈ path ++ [newline] := by
        simp only [List.flatten_nil] at same
        rw [same]
        simp [structureLine]
      exact absurd found (unmarked clear)
  | cons line lines =>
    obtain ⟨unit, -, rfl⟩ := marked line (List.mem_cons_self ..)
    cases lines' with
    | nil =>
      have found : 1 ∈ path' ++ [newline] := by
        simp only [List.flatten_nil] at same
        rw [← same]
        simp [structureLine]
      exact absurd found (unmarked clear')
    | cons line' lines' =>
      obtain ⟨unit', -, rfl⟩ := marked' line' (List.mem_cons_self ..)
      have shape (path : Text) (unit : Built) (lines : List Text) :
          path ++ newline :: (structureLine unit :: lines).flatten =
            (path ++ newline :: unit.kind.text) ++ 1 :: (unit.path ++ newline :: lines.flatten) := by
        rw [flatten_cons_structureLine]
        simp
      have before {path : Text} (clear : 1 ∉ path) (unit : Built) :
          1 ∉ path ++ newline :: unit.kind.text := by
        simp [clear, newline, unit.kind.clear.1]
      rw [shape, shape] at same
      obtain ⟨heads, tails⟩ := split_unique (before clear unit) (before clear' unit') same
      have reversed := congrArg List.reverse heads
      simp only [List.reverse_append, List.reverse_cons, List.append_assoc, List.singleton_append]
        at reversed
      obtain ⟨kinds, paths⟩ := split_unique (by simpa using unit.kind.clear.2)
        (by simpa using unit'.kind.clear.2) reversed
      refine ⟨List.reverse_injective paths, ?_⟩
      rw [flatten_cons_structureLine, flatten_cons_structureLine, List.reverse_injective kinds, tails]

theorem flatten_injective {lines lines' : List Text} (marked : ∀ line ∈ lines, IsLine line)
    (marked' : ∀ line ∈ lines', IsLine line) (same : lines.flatten = lines'.flatten) :
    lines = lines' := by
  induction lines generalizing lines' with
  | nil =>
    cases lines' with
    | nil => rfl
    | cons line' lines' =>
      obtain ⟨unit', -, rfl⟩ := marked' line' (List.mem_cons_self ..)
      rw [flatten_cons_structureLine] at same
      simp at same
  | cons line lines ih =>
    rw [List.forall_mem_cons] at marked
    obtain ⟨⟨unit, clear, rfl⟩, marked⟩ := marked
    cases lines' with
    | nil =>
      rw [flatten_cons_structureLine] at same
      simp at same
    | cons line' lines' =>
      rw [List.forall_mem_cons] at marked'
      obtain ⟨⟨unit', clear', rfl⟩, marked'⟩ := marked'
      rw [flatten_cons_structureLine, flatten_cons_structureLine] at same
      obtain ⟨kinds, same⟩ := split_unique unit.kind.clear.1 unit'.kind.clear.1 same
      obtain ⟨paths, same⟩ := path_of_flatten clear clear' marked marked' same
      rw [ih marked marked' same, structureLine, structureLine, kinds, paths]

theorem paths_of_structureText {built built' : List Built}
    (clear : ∀ unit ∈ built, 1 ∉ unit.path) (clear' : ∀ unit ∈ built', 1 ∉ unit.path)
    (same : structureText built = structureText built') :
    ∀ unit ∈ built.drop 1, unit.inert = false →
      ∃ unit' ∈ built'.drop 1, unit'.inert = false ∧ unit'.path = unit.path := by
  have marked {built : List Built} (clear : ∀ unit ∈ built, 1 ∉ unit.path) :
      ∀ line ∈ (((built.drop 1).filter fun unit => !unit.inert).map structureLine).insertionSort
        fun text other => textLe text other, IsLine line := by
    intro line member
    obtain ⟨unit, among, rfl⟩ := List.mem_map.mp ((List.mem_insertionSort _).mp member)
    exact ⟨unit, clear unit (List.mem_of_mem_drop (List.mem_filter.mp among).1), rfl⟩
  have lines := flatten_injective (marked clear) (marked clear') same
  intro unit member live
  have line : structureLine unit ∈
      (((built'.drop 1).filter fun unit => !unit.inert).map structureLine).insertionSort
        fun text other => textLe text other := by
    rw [← lines, List.mem_insertionSort]
    exact List.mem_map_of_mem (List.mem_filter.mpr ⟨member, by simp [live]⟩)
  obtain ⟨unit', member', same⟩ := List.mem_map.mp ((List.mem_insertionSort _).mp line)
  obtain ⟨member', live'⟩ := List.mem_filter.mp member'
  refine ⟨unit', member', by simpa using live', ?_⟩
  unfold structureLine at same
  simp only [List.append_assoc, List.cons_append] at same
  obtain ⟨-, same⟩ := split_unique unit'.kind.clear.1 unit.kind.clear.1 same
  exact List.append_cancel_right same

end Structure

section Code

variable {Digest : Type} {digest : Text → Digest} {source source' : Text}
  {outline outline' : Outline} {code code' : Code Digest}

/-- What a view promises to tell of its file: no text has the placeholder of a declaration
in it and no path the mark that ends a kind, no declaration starts in the blank that an
inert one's line ends with, and no two have one path. -/
structure Telling (source : Text) (outline : Outline) (code : Code Digest) : Prop where
  clear : 0 ∉ source
  apart : ∀ kept ∈ keptOf source outline, Apart kept (builtOf source outline)
  marked : ∀ unit ∈ code.units, 1 ∉ unit.path
  distinct : (code.units.map (·.path)).Nodup

def Code.live (code : Code Digest) : List (CodeUnit Digest) :=
  code.units.filter fun unit => !unit.inert

def Code.livePaths (code : Code Digest) : List Text :=
  code.live.map (·.path)

def SameOrder (code code' : Code Digest) : Prop :=
  code.livePaths.filter (· ∈ code'.livePaths) = code'.livePaths.filter (· ∈ code.livePaths)

instance (code code' : Code Digest) : Decidable (SameOrder code code') :=
  inferInstanceAs (Decidable (_ = _))

theorem length_of_mapM {Item Made : Type} {make : Item → Option Made} {items : List Item}
    {made : List Made} (all : items.mapM make = some made) : made.length = items.length := by
  induction items generalizing made with
  | nil =>
    cases all
    rfl
  | cons item items ih =>
    rw [List.mapM_cons] at all
    obtain ⟨first, -, all⟩ := Option.bind_eq_some_iff.mp all
    obtain ⟨rest, others, same⟩ := Option.bind_eq_some_iff.mp all
    cases same
    simp [ih others]

theorem build_spec (made : build digest source outline = some code) (clear : 0 ∉ source)
    (apart : ∀ kept ∈ keptOf source outline, Apart kept (builtOf source outline)) :
    ∃ text others semantic,
      code.live.map (·.digest) = (text :: others).map digest ∧
      Fills 0 [text] others semantic ∧
      code.semantic = digest semantic ∧
      code.structural = digest (structureText (builtOf source outline)) ∧
      code.units.map (fun unit => (unit.path, unit.inert)) =
        (builtOf source outline).map fun unit => (unit.path, unit.inert) := by
  obtain ⟨kept, keptMade, made⟩ := Option.bind_eq_some_iff.mp made
  obtain ⟨texts, textsMade, made⟩ := Option.bind_eq_some_iff.mp made
  obtain ⟨semantic, observed, same⟩ := Option.bind_eq_some_iff.mp made
  cases same
  have placed := keptOf_placed clear keptMade
  have apart := apart kept keptMade
  have nested := nested_builtOf source outline
  have lengths : texts.length = (builtOf source outline).length := by
    simpa using length_of_mapM textsMade
  obtain ⟨rest, built⟩ : ∃ rest, builtOf source outline = fileUnit source :: rest := ⟨_, rfl⟩
  rw [built] at nested apart textsMade observed lengths
  rw [List.zipIdx_cons, List.mapM_cons] at textsMade
  obtain ⟨text, own, textsMade⟩ := Option.bind_eq_some_iff.mp textsMade
  obtain ⟨others, othersMade, same⟩ := Option.bind_eq_some_iff.mp textsMade
  cases same
  have listed := liveTexts_of_mapM [fileUnit source] nested (by simp) (by simp [fileUnit]) othersMade
  have children : childrenOf 0 (fileUnit source :: rest) = childrenOf 0 rest := by
    rw [childrenOf_cons, if_neg (by simp [fileUnit])]
  unfold unitText at own
  rw [children] at own
  have filling : Filling kept rest 1 [(0, fileUnit source)] 0 [text] (liveOf rest others) semantic := by
    constructor
    · have start : kept.place (fileUnit source).start = 0 := placed.first
      rw [start] at own
      rw [live, List.filter_cons_of_pos (by simp [fileUnit]), List.filter_nil]
      simp [remainders, own]
    · exact listed
    · simpa [fileUnit] using observed
  have between : Between kept rest [(0, fileUnit source)] 0 := by
    constructor
    · simp [fileUnit]
    · intros
      exact Nat.zero_le _
  refine ⟨text, liveOf rest others, semantic, ?_,
    filling.fills placed nested (stacked_fileUnit source) (List.pairwise_cons.mp apart).2 between,
    rfl, rfl, ?_⟩
  · simp only [Code.live, built, List.zip_cons_cons, List.map_cons]
    rw [List.filter_cons_of_pos rfl, List.map_cons, List.filter_map, List.map_map, liveOf,
      List.map_map]
    rfl
  · have firsts : ((builtOf source outline).zip (text :: others)).map Prod.fst =
        builtOf source outline := List.map_fst_zip (by rw [built, lengths])
    conv_rhs => rw [← firsts, List.map_map]
    rw [List.map_map]
    rfl

theorem livePaths_built (units : code.units.map (fun unit => (unit.path, unit.inert)) =
      (builtOf source outline).map fun unit => (unit.path, unit.inert)) :
    code.livePaths = ((builtOf source outline).filter fun unit => !unit.inert).map (·.path) := by
  have same := congrArg
    (fun units : List (Text × Bool) => (units.filter fun unit => !unit.2).map Prod.fst) units
  simpa only [Code.livePaths, Code.live, List.filter_map, List.map_map, Function.comp_def] using same

theorem livePaths_subset
    (units : code.units.map (fun unit => (unit.path, unit.inert)) =
      (builtOf source outline).map fun unit => (unit.path, unit.inert))
    (units' : code'.units.map (fun unit => (unit.path, unit.inert)) =
      (builtOf source' outline').map fun unit => (unit.path, unit.inert))
    (marked : ∀ unit ∈ code.units, 1 ∉ unit.path) (marked' : ∀ unit ∈ code'.units, 1 ∉ unit.path)
    (same : structureText (builtOf source outline) = structureText (builtOf source' outline')) :
    code.livePaths ⊆ code'.livePaths := by
  have clear {source : Text} {outline : Outline} {code : Code Digest}
      (units : code.units.map (fun unit => (unit.path, unit.inert)) =
        (builtOf source outline).map fun unit => (unit.path, unit.inert))
      (marked : ∀ unit ∈ code.units, 1 ∉ unit.path) :
      ∀ unit ∈ builtOf source outline, 1 ∉ unit.path := by
    intro unit member
    have among : (unit.path, unit.inert) ∈ code.units.map fun unit => (unit.path, unit.inert) :=
      units ▸ List.mem_map_of_mem member
    obtain ⟨unit', member', same⟩ := List.mem_map.mp among
    exact (Prod.mk.inj same).1 ▸ marked unit' member'
  intro path member
  rw [livePaths_built units] at member
  rw [livePaths_built units']
  obtain ⟨unit, among, rfl⟩ := List.mem_map.mp member
  obtain ⟨among, live⟩ := List.mem_filter.mp among
  rcases List.mem_cons.mp among with rfl | among
  · exact List.mem_map.mpr ⟨fileUnit source', List.mem_filter.mpr ⟨List.mem_cons_self .., rfl⟩, rfl⟩
  · obtain ⟨unit', member', live', path⟩ := paths_of_structureText (clear units marked)
      (clear units' marked') same unit among (by simpa using live)
    exact List.mem_map.mpr ⟨unit',
      List.mem_filter.mpr ⟨List.mem_of_mem_drop member', by simp [live']⟩, path⟩

theorem indices_eq_nil {condition : CodeUnit Digest → Bool} :
    code.indices condition = [] ↔ ∀ unit ∈ code.units, condition unit = false := by
  unfold Code.indices
  rw [List.map_eq_nil_iff, List.filter_eq_nil_iff]
  constructor
  · intro none unit member
    obtain ⟨index, within, rfl⟩ := List.getElem_of_mem member
    have among : (code.units[index], index) ∈ code.units.zipIdx := by
      simp [List.mem_zipIdx_iff_getElem?, within]
    simpa using none _ among
  · intro none unit member
    simp [none unit.1 (List.fst_mem_of_mem_zipIdx member)]

theorem byPath_of_mem (distinct : (code.units.map (·.path)).Nodup) {unit : CodeUnit Digest}
    (member : unit ∈ code.units) : code.byPath unit.path = some unit := by
  unfold Code.byPath
  cases found : code.units.reverse.find? (·.path = unit.path) with
  | none =>
    have none := List.find?_eq_none.mp found unit (List.mem_reverse.mpr member)
    simp at none
  | some unit' =>
    have path : unit'.path = unit.path := by simpa using List.find?_some found
    have member' := List.mem_reverse.mp (List.mem_of_find?_eq_some found)
    rw [List.inj_on_of_nodup_map distinct member' member path]

end Code

section Compared

variable {Digest : Type} [DecidableEq Digest] {digest : Text → Digest} {source source' : Text}
  {outline outline' : Outline} {code code' : Code Digest}

/-- Nothing moved. -/
def Diff.Empty (diff : Diff) : Prop :=
  diff.changed = [] ∧ diff.removed = [] ∧ diff.added = [] ∧ diff.structural = false

instance (diff : Diff) : Decidable diff.Empty :=
  inferInstanceAs (Decidable (_ ∧ _))

theorem digest_of_path (distinct : (code'.units.map (·.path)).Nodup)
    (unchanged : (code.diff code').changed = []) {unit unit' : CodeUnit Digest}
    (member : unit ∈ code.units) (member' : unit' ∈ code'.units) (path : unit.path = unit'.path) :
    unit.digest = unit'.digest := by
  have same := indices_eq_nil.mp
    (show code.indices (fun unit => (code'.byPath unit.path).any (·.digest ≠ unit.digest)) = []
      from unchanged) unit member
  rw [path, byPath_of_mem distinct member'] at same
  have same : unit'.digest = unit.digest := by simpa using same
  exact same.symm

/-- A change of what a program can observe is a change of the declarations, where those
that the views share stand in one order. -/
theorem diff_of_semantic_ne (injective : Function.Injective digest)
    (old : build digest source outline = some code)
    (new : build digest source' outline' = some code')
    (telling : Telling source outline code) (telling' : Telling source' outline' code')
    (order : SameOrder code code') (changed : code.semantic ≠ code'.semantic) :
    ¬ (code.diff code').Empty ∧
      ∀ probed, (code.diff code').narrow code probed → (code.diff code').changed ≠ [] := by
  have moved : ¬ (code.diff code').Empty := by
    rintro ⟨unchanged, -, -, structural⟩
    obtain ⟨text, others, semantic, digests, fills, same, shape, units⟩ :=
      build_spec old telling.clear telling.apart
    obtain ⟨text', others', semantic', digests', fills', same', shape', units'⟩ :=
      build_spec new telling'.clear telling'.apart
    have shapes : structureText (builtOf source outline) = structureText (builtOf source' outline') := by
      apply injective
      rw [← shape, ← shape']
      simpa [Code.diff] using structural
    have subset := livePaths_subset units units' telling.marked telling'.marked shapes
    have subset' := livePaths_subset units' units telling'.marked telling.marked shapes.symm
    have paths : code.livePaths = code'.livePaths := by
      have order := order
      unfold SameOrder at order
      rwa [List.filter_eq_self.mpr fun path member => by simpa using subset member,
        List.filter_eq_self.mpr fun path member => by simpa using subset' member] at order
    have length : code.live.length = code'.live.length := by
      simpa [Code.livePaths] using congrArg List.length paths
    have texts : code.live.map (·.digest) = code'.live.map (·.digest) := by
      refine List.ext_getElem (by simpa using length) fun index within within' => ?_
      simp only [List.length_map] at within within'
      simp only [List.getElem_map]
      refine digest_of_path telling'.distinct unchanged
        (List.mem_filter.mp (List.getElem_mem within)).1
        (List.mem_filter.mp (List.getElem_mem within')).1 ?_
      have := List.getElem_of_eq paths (i := index) (by simpa [Code.livePaths] using within)
      simpa [Code.livePaths] using this
    rw [digests, digests'] at texts
    obtain ⟨rfl, rfl⟩ := List.cons.inj (List.map_injective_iff.mpr injective texts)
    rw [fills.unique fills'] at same
    exact changed (same.trans same'.symm)
  refine ⟨moved, fun probed narrow unchanged => moved ⟨unchanged, ?_⟩⟩
  unfold Diff.narrow at narrow
  simp only [Bool.and_eq_true, Bool.not_eq_eq_eq_not, Bool.not_true, List.isEmpty_iff] at narrow
  exact ⟨narrow.1.2, narrow.1.1.2, narrow.1.1.1⟩

end Compared

def utf8 (text : String) : Text :=
  text.toUTF8.toList

def typed (body : String) : Text :=
  utf8 ("type T=1;\nf=()=>" ++ body ++ "\n")

def typedOutline : Outline where
  comments := []
  strings := []
  declarations :=
    [{ name := utf8 "T", kind := .type, start := 0, stop := 9, inert := true },
      { name := utf8 "f", kind := .function, start := 12, stop := 17, inert := false }]
  separator := utf8 "."

theorem typed_built : ∀ body ∈ ["1", "2"], (build id (typed body) typedOutline).isSome := by
  decide +kernel

theorem typed_first : (build id (typed "1") typedOutline).isSome :=
  typed_built _ (List.mem_cons_self ..)

theorem typed_second : (build id (typed "2") typedOutline).isSome :=
  typed_built _ (List.mem_cons_of_mem _ (List.mem_singleton_self _))

/-- The function's body was edited. -/
theorem diff_of_semantic_ne_body :
    ¬ ((Option.get _ typed_first).diff (Option.get _ typed_second)).Empty ∧
      ∀ probed, ((Option.get _ typed_first).diff (Option.get _ typed_second)).narrow
        (Option.get _ typed_first) probed →
          ((Option.get _ typed_first).diff (Option.get _ typed_second)).changed ≠ [] :=
  diff_of_semantic_ne Function.injective_id (Option.some_get typed_first).symm
    (Option.some_get typed_second).symm
    ⟨by decide +kernel, by decide +kernel, by decide +kernel, by decide +kernel⟩
    ⟨by decide +kernel, by decide +kernel, by decide +kernel, by decide +kernel⟩
    (by decide +kernel) (by decide +kernel)

def classOutline (first second : String) : Outline where
  comments := []
  strings := []
  declarations :=
    [{ name := utf8 "C", kind := .classDeclaration, start := 0, stop := 50, inert := false },
      { name := utf8 first, kind := .method, start := 12, stop := 29, inert := false },
      { name := utf8 second, kind := .method, start := 32, stop := 49, inert := false }]
  separator := utf8 "."

theorem classes_built :
    (build id (utf8 "class C \x7b\n  a() \x7b return 1; \x7d\n  b() \x7b return 2; \x7d\n\x7d\n")
      (classOutline "a" "b")).isSome ∧
    (build id (utf8 "class C \x7b\n  b() \x7b return 2; \x7d\n  a() \x7b return 1; \x7d\n\x7d\n")
      (classOutline "b" "a")).isSome := by
  decide +kernel

theorem ordered_built : (build id (utf8 "class C \x7b\n  a() \x7b return 1; \x7d\n  b() \x7b return 2; \x7d\n\x7d\n")
    (classOutline "a" "b")).isSome :=
  classes_built.1

theorem reordered_built : (build id (utf8 "class C \x7b\n  b() \x7b return 2; \x7d\n  a() \x7b return 1; \x7d\n\x7d\n")
    (classOutline "b" "a")).isSome :=
  classes_built.2

/-- The two methods change places, and no unit differs. -/
theorem reordered_unchanged : ∃ code code',
    build id (utf8 "class C \x7b\n  a() \x7b return 1; \x7d\n  b() \x7b return 2; \x7d\n\x7d\n")
      (classOutline "a" "b") = some code ∧
    build id (utf8 "class C \x7b\n  b() \x7b return 2; \x7d\n  a() \x7b return 1; \x7d\n\x7d\n")
      (classOutline "b" "a") = some code' ∧
    code.semantic ≠ code'.semantic ∧ (code.diff code').Empty :=
  ⟨_, _, (Option.some_get ordered_built).symm, (Option.some_get reordered_built).symm,
    by decide +kernel, by decide +kernel⟩

end Supercov.Units
