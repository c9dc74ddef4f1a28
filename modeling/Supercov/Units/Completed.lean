import Supercov.Units.Sliced

/-!
# A file is built

A unit's text leaves out the inert declarations right within it, each with the end of its
line where nothing else follows on that.  The unit is built without an error where what it
leaves out does not end behind the unit itself; and every other slice of a file is in order.
-/

namespace Supercov.Units

structure Outline.Bounded (source : Text) (outline : Outline) : Prop where
  comments : ∀ comment ∈ outline.comments, Boundary source comment.1 ∧ Boundary source comment.2
  declarations : ∀ item ∈ outline.declarations, Boundary source item.start ∧ Boundary source item.stop

/-- A unit ends at `stop`: none of the inert declarations met in it is erased past that. -/
def Contained (kept : Kept) (stop : Nat) : Nat → List Built → Prop
  | _, [] => True
  | cursor, child :: children =>
    if kept.place child.start < cursor then Contained kept stop cursor children
    else if child.inert then
      lineEndAfter kept.text (kept.place child.stop) ≤ stop ∧
        Contained kept stop (lineEndAfter kept.text (kept.place child.stop)) children
    else Contained kept stop (kept.place child.stop) children

section Texts

variable {source : Text} {outline : Outline} {kept : Kept}

theorem keptOf_faithful (aligned : Aligned source) (bounded : outline.Bounded source) :
    ∃ kept, keptOf source outline = some kept ∧ kept.Faithful source ∧
      kept.places.length = source.length + 1 := by
  obtain ⟨uncommented, erased, faithful, length⟩ := eraseComments_spec aligned bounded.comments
  unfold keptOf
  simp only [erased, Option.bind_eq_bind, Option.bind_some, Option.pure_def]
  refine ⟨_, rfl, ?_, by simpa using length⟩
  generalize List.insertionSort (fun span other : Span => spanLe span other = true) _ = strings
  obtain ⟨faithful', length'⟩ := eraseBlank_faithful faithful.aligned strings
  generalize eraseBlank uncommented.text strings = blank at faithful' length' ⊢
  have given (place : Nat) (within : place ≤ uncommented.text.length) :
      blank.places[place]? = some (blank.places.getD place 0) := by
    have lt : place < blank.places.length := by omega
    rw [List.getD_eq_getElem _ _ lt, List.getElem?_eq_getElem lt]
  refine ⟨⟨?_, ?_⟩, faithful'.aligned, ?_⟩
  · refine List.forall_mem_map.mpr fun place member => ?_
    exact faithful'.ordered.within _
      (List.mem_of_getElem? (given place (faithful.ordered.within place member)))
  · refine List.pairwise_map.mpr (faithful.ordered.ascending.imp_of_mem ?_)
    intro first second _ member le
    have within := faithful.ordered.within second member
    exact place_mono faithful'.ordered.ascending le (by omega)
  · intro offset place found boundary
    rw [List.getElem?_map] at found
    obtain ⟨middle, found', rfl⟩ := Option.map_eq_some_iff.mp found
    have boundary' := faithful.bounded offset middle found' boundary
    exact faithful'.bounded middle _ (given middle boundary'.within) boundary'

theorem isSome_bind_some {Found Made : Type} (found : Option Found) (make : Found → Made) :
    (found.bind fun value => some (make value)).isSome = found.isSome := by
  cases found <;> rfl

theorem slice_of_lt {text : Text} {start stop : Nat} (lt : stop < start) :
    slice text start stop = none := by
  rw [slice, if_neg (by omega)]

theorem ownText_of_lt {stop cursor : Nat} {children : List Built} (past : stop < cursor)
    (inside : ∀ child ∈ children, kept.place child.start ≤ stop) :
    ownText kept stop cursor children = none := by
  induction children with
  | nil => exact slice_of_lt past
  | cons child children ih =>
    rw [List.forall_mem_cons] at inside
    unfold ownText
    dsimp only
    rw [if_pos (by omega)]
    exact ih inside.2

theorem ownText_isSome (aligned : Aligned kept.text) {stop cursor : Nat} {children : List Built}
    (last : Boundary kept.text stop) (from' : Boundary kept.text cursor) (le : cursor ≤ stop)
    (inside : ∀ child ∈ children, Boundary kept.text (kept.place child.start) ∧
      Boundary kept.text (kept.place child.stop) ∧ kept.place child.start ≤ stop ∧
      kept.place child.stop ≤ stop) :
    (ownText kept stop cursor children).isSome ↔ Contained kept stop cursor children := by
  induction children generalizing cursor with
  | nil => simp [ownText, Contained, slice_of_boundary from' last le]
  | cons child children ih =>
    rw [List.forall_mem_cons] at inside
    obtain ⟨⟨starts, ends, le', le''⟩, inside⟩ := inside
    unfold ownText Contained
    dsimp only
    split
    · exact ih from' le inside
    · next ge =>
      rw [slice_of_boundary from' starts (Nat.le_of_not_lt ge)]
      simp only [Option.bind_eq_bind, Option.bind_some, Option.pure_def]
      split
      · have line := ends.lineEndAfter aligned
        rcases Nat.lt_or_ge stop (lineEndAfter kept.text (kept.place child.stop)) with past | within
        · rw [ownText_of_lt past fun child member => (inside child member).2.2.1]
          simp only [Option.bind_none, Option.isSome_none, Bool.false_eq_true, false_iff]
          omega
        · simpa [isSome_bind_some, within] using ih line within inside
      · simpa [isSome_bind_some] using ih ends le'' inside

theorem semanticText_isSome (aligned : Aligned kept.text) {cursor : Nat} {units : List Built}
    (from' : Boundary kept.text cursor)
    (bounded : ∀ unit ∈ units, Boundary kept.text (kept.place unit.start) ∧
      Boundary kept.text (kept.place unit.stop)) : (semanticText kept cursor units).isSome := by
  induction units generalizing cursor with
  | nil => simp [semanticText, slice_of_boundary from' (.length _) from'.within]
  | cons unit units ih =>
    rw [List.forall_mem_cons] at bounded
    unfold semanticText
    dsimp only
    split
    · exact ih from' bounded.2
    · next ge =>
      rw [slice_of_boundary from' bounded.1.1 (Nat.le_of_not_lt ge)]
      simpa [isSome_bind_some] using ih (bounded.1.2.lineEndAfter aligned) bounded.2

theorem bounded_nest {condition : Nat → Prop} (separator : Text) {items : List Item}
    {top : Nat × Built} {below : List (Nat × Built)} {names : List (Nat × Text)} {index : Nat}
    (each : ∀ item ∈ items, condition item.start ∧ condition item.stop)
    (opened : ∀ unit ∈ top :: below, condition unit.2.stop) :
    ∀ unit ∈ nest separator top below names index items, condition unit.start ∧ condition unit.stop := by
  induction items generalizing top below names index with
  | nil => simp [nest]
  | cons item items ih =>
    obtain ⟨closed, whole, -, -⟩ := popped_spec item.start top below
    rw [List.forall_mem_cons] at each
    unfold nest
    dsimp only
    generalize (popped item.start top below).1 = holder at *
    generalize (popped item.start top below).2 = outer at *
    rw [whole] at opened
    have remaining := fun unit member => opened unit (List.mem_append_right closed member)
    have ends : condition (min item.stop holder.2.stop) := by
      rcases Nat.le_total item.stop holder.2.stop with le | le
      · rw [Nat.min_eq_left le]
        exact each.1.2
      · rw [Nat.min_eq_right le]
        exact remaining holder (List.mem_cons_self ..)
    exact List.forall_mem_cons.mpr ⟨⟨each.1.1, ends⟩,
      ih each.2 (List.forall_mem_cons.mpr ⟨ends, remaining⟩)⟩

theorem bounded_builtOf (aligned : Aligned source) (bounded : outline.Bounded source) :
    ∀ unit ∈ builtOf source outline, Boundary source unit.start ∧ Boundary source unit.stop := by
  have last : Boundary source (fileUnit source).stop := .length source
  refine List.forall_mem_cons.mpr ⟨⟨.zero aligned, last⟩, bounded_nest _ (fun item member => ?_) ?_⟩
  · exact bounded.declarations item (List.mem_of_mem_filter
      ((List.mem_insertionSort _).mp ((dedup_sublist _).subset member)))
  · exact List.forall_mem_singleton.mpr last

theorem isSome_mapM {Item Made : Type} {make : Item → Option Made} {items : List Item} :
    (items.mapM make).isSome ↔ ∀ item ∈ items, (make item).isSome := by
  induction items with
  | nil => simp
  | cons item items ih =>
    rw [List.mapM_cons, List.forall_mem_cons, ← ih]
    cases make item <;> cases items.mapM make <;> simp

/-- No inert declaration is erased past the end of the unit that it is right within. -/
def Ending (source : Text) (outline : Outline) : Prop :=
  ∀ kept, keptOf source outline = some kept → ∀ index unit,
    (builtOf source outline)[index]? = some unit →
      Contained kept (kept.place unit.stop) (kept.place unit.start)
        (childrenOf index (builtOf source outline))

/-- A file is built without an error where no inert declaration is erased past the end of
the unit around it, and only there. -/
theorem build_isSome {Digest : Type} (digest : Text → Digest) (text : String) {outline : Outline}
    (bounded : outline.Bounded (encoded text)) :
    (build digest (encoded text) outline).isSome ↔ Ending (encoded text) outline := by
  have aligned := aligned_encoded text
  generalize encoded text = source at *
  obtain ⟨kept, made, faithful, length⟩ := keptOf_faithful aligned bounded
  have units := bounded_builtOf aligned bounded
  have tree := tree_builtOf source outline
  have placed {offset : Nat} (boundary : Boundary source offset) :
      Boundary kept.text (kept.place offset) := by
    have within := boundary.within
    have lt : offset < kept.places.length := by omega
    refine faithful.bounded offset _ ?_ boundary
    rw [Kept.place, List.getD_eq_getElem _ _ lt, List.getElem?_eq_getElem lt]
  have mono {first second : Nat} (le : first ≤ second) (boundary : Boundary source second) :
      kept.place first ≤ kept.place second :=
    place_mono faithful.ordered.ascending le (by have := boundary.within; omega)
  have own {index : Nat} {unit : Built} (found : (builtOf source outline)[index]? = some unit) :
      (unitText kept (builtOf source outline) index unit).isSome ↔
        Contained kept (kept.place unit.stop) (kept.place unit.start)
          (childrenOf index (builtOf source outline)) := by
    have bounds := units unit (List.mem_of_getElem? found)
    have ordered : unit.start ≤ unit.stop := by
      rcases Nat.eq_zero_or_pos index with rfl | positive
      · cases found
        exact Nat.zero_le _
      · exact (tree.inside index _ positive (span_of_built found)).1.le
    refine ownText_isSome faithful.aligned (placed bounds.2) (placed bounds.1)
      (mono ordered bounds.2) fun child member => ?_
    obtain ⟨member, parent⟩ := List.mem_filter.mp member
    have parent : child.parent = some index := by simpa using parent
    obtain ⟨later, found'⟩ := List.getElem?_of_mem member
    have lt := tree.parent_lt (span_of_built found') parent
    obtain ⟨nonempty, _, _, parent', -, found'', -, ends⟩ :=
      tree.inside later _ (Nat.zero_lt_of_lt lt) (span_of_built found')
    cases parent'.symm.trans parent
    cases found''.symm.trans (span_of_built found)
    have bounds' := units child member
    exact ⟨placed bounds'.1, placed bounds'.2, mono (nonempty.le.trans ends) bounds.2,
      mono ends bounds.2⟩
  have semantic : (semanticText kept 0 ((builtOf source outline).filter (·.inert))).isSome := by
    refine semanticText_isSome faithful.aligned (.zero faithful.aligned) fun unit member => ?_
    have bounds := units unit (List.mem_of_mem_filter member)
    exact ⟨placed bounds.1, placed bounds.2⟩
  obtain ⟨observed, semantic⟩ := Option.isSome_iff_exists.mp semantic
  unfold build
  simp only [made, semantic, Option.bind_eq_bind, Option.bind_some, Option.pure_def,
    isSome_bind_some, isSome_mapM]
  constructor
  · intro made' kept' made'' index unit found
    cases made.symm.trans made''
    exact (own found).mp (made' (unit, index) (List.mem_zipIdx_iff_getElem?.mpr found))
  · rintro ending ⟨unit, index⟩ member
    have found := List.mem_zipIdx_iff_getElem?.mp member
    exact (own found).mpr (ending kept made index unit found)

/-- Declarations are within each other or apart, and comments are within them or around them. -/
structure Outline.WellPlaced (source : Text) (outline : Outline) : Prop where
  bounded : outline.Bounded source
  nested : outline.declarations.Pairwise fun item other =>
    item.stop ≤ other.start ∨ other.stop ≤ item.start ∨
      item.start ≤ other.start ∧ other.stop ≤ item.stop ∨
      other.start ≤ item.start ∧ item.stop ≤ other.stop
  uncrossed : ∀ comment ∈ outline.comments, ∀ item ∈ outline.declarations,
    ¬ (comment.1 < item.start ∧ item.start < comment.2) ∧
      ¬ (comment.1 < item.stop ∧ item.stop < comment.2)

theorem boundary_of_ascii (ascii : ∀ byte ∈ source, byte < 128) {offset : Nat}
    (within : offset ≤ source.length) : Boundary source offset := by
  rcases Nat.eq_or_lt_of_le within with rfl | lt
  · exact .length source
  · have found := List.getElem?_eq_getElem lt
    exact .of_low found (ascii _ (List.mem_of_getElem? found))

end Texts

def dotted : String :=
  "declare namespace A.B \x7b\x7d\n"

def dottedOutline : Outline where
  comments := []
  strings := []
  declarations :=
    [{ name := utf8 "A", kind := .namespaceDeclaration, start := 0, stop := 24, inert := true },
      { name := utf8 "B", kind := .namespaceDeclaration, start := 20, stop := 24, inert := false }]
  separator := utf8 "."

theorem dottedOutline_wellPlaced : dottedOutline.WellPlaced (encoded dotted) where
  bounded := by
    have boundary {offset : Nat} (within : offset ≤ 25) : Boundary (encoded dotted) offset :=
      boundary_of_ascii (by decide +kernel) within
    refine ⟨by simp [dottedOutline], ?_⟩
    simp only [dottedOutline, List.forall_mem_cons, List.not_mem_nil, false_implies, implies_true,
      and_true]
    exact ⟨⟨boundary (by decide), boundary (by decide)⟩,
      boundary (by decide), boundary (by decide)⟩
  nested := by decide
  uncrossed := by decide

theorem build_isSome_dotted : (build id (encoded dotted) dottedOutline).isSome ↔
    Ending (encoded dotted) dottedOutline :=
  build_isSome id dotted dottedOutline_wellPlaced.bounded

/-- The inner declaration is erased with its line, past where the outer one ends. -/
theorem build_dotted : dottedOutline.WellPlaced (encoded dotted) ∧
    build id (encoded dotted) dottedOutline = none :=
  ⟨dottedOutline_wellPlaced, by decide +kernel⟩

end Supercov.Units
