import Supercov.Js.Positions

/-!
# The source map of restored comments

The printed text gets its comments back by edits, and each token of the map moves by what the edits
before it insert and remove.
-/

namespace Supercov.Js.Restored

open Measured (total slice)
open Positions

section Restoring

/-- A range of the text and what is put in its place. -/
structure Edit (Item : Type) where
  start : Nat
  stop : Nat
  text : List Item
  ordered : start ≤ stop

/-- The text with its edits; none where one starts behind what is written already, and where a
slice is not one. -/
def restore {Item : Type} (width : Item → Nat) (generated : List Item) :
    Nat → List (Edit Item) → Option (List Item)
  | cursor, [] => slice width generated cursor (total width generated)
  | cursor, edit :: edits =>
    if edit.start < cursor then none
    else do
      let kept ← slice width generated cursor edit.start
      let rest ← restore width generated edit.stop edits
      some (kept ++ edit.text ++ rest)

end Restoring

section Shifting

structure Token where
  dstLine : UInt32
  dstCol : UInt32
  srcLine : UInt32
  srcCol : UInt32
  sourceId : Option UInt32
  nameId : Option UInt32

structure SourceMap where
  file : Option String
  names : List String
  sourceRoot : Option String
  sources : List String
  sourceContents : List (Option String)
  tokens : List Token

variable {Item : Type} (width : Item → Nat)

def Edit.shift (edit : Edit Item) : Int := (total width edit.text : Int) - (edit.stop - edit.start : Nat)

def passed : List (Edit Item) → Int → Nat → List (Edit Item) × Int
  | [], shift, _ => ([], shift)
  | edit :: edits, shift, offset =>
    if offset < edit.stop then (edit :: edits, shift)
    else passed edits (shift + edit.shift width) offset

def shiftToken (generatedLines restoredLines : Utf16LineIndex) (left : List (Edit Char) × Int)
    (token : Token) : Option ((List (Edit Char) × Int) × Token) := do
  let offset ← generatedLines.byteOffset token.dstLine.toNat token.dstCol.toNat
  let left := passed utf8 left.1 left.2 offset
  let (dstLine, dstCol) ← restoredLines.lineCol (offset + left.2).toNat
  some (left, { token with dstLine, dstCol })

def shiftTokens (generatedLines restoredLines : Utf16LineIndex) :
    List (Edit Char) × Int → List Token → Option (List Token)
  | _, [] => some []
  | left, token :: tokens => do
    let (left, moved) ← shiftToken generatedLines restoredLines left token
    let rest ← shiftTokens generatedLines restoredLines left tokens
    some (moved :: rest)

def shiftSourceMap (map : SourceMap) (generated restored : List Char) (edits : List (Edit Char)) :
    Option SourceMap := do
  let generatedLines ← Utf16LineIndex.new generated
  let restoredLines ← Utf16LineIndex.new restored
  let tokens ← shiftTokens generatedLines restoredLines (edits, 0) map.tokens
  some { map with tokens }

end Shifting

/-! ## The same character -/

section Same

def Edit.unplaced (edit : Edit Char) : Edit (Char × Option Nat) :=
  ⟨edit.start, edit.stop, edit.text.map fun c => (c, none), edit.ordered⟩

def placed (text : List Char) : List (Char × Option Nat) :=
  text.zipIdx.map fun entry => (entry.1, some entry.2)

/-- What stood at one place of the generated text stands at another of the restored one: the same
character, or the end of the text. -/
def Moves (generated : List Char) (edits : List (Edit Char)) (place place' : Nat) : Prop :=
  ∃ restored, restore (fun item => utf8 item.1) (placed generated) 0 (edits.map Edit.unplaced) =
      some restored ∧ place' ≤ restored.length ∧
    (place < generated.length → ∃ c, restored[place']? = some (c, some place)) ∧
    (place = generated.length → place' = restored.length)

def Outside {Item : Type} (edits : List (Edit Item)) (offset : Nat) : Prop :=
  ∀ edit ∈ edits, ¬ (edit.start ≤ offset ∧ offset < edit.stop)

def Token.before (generated : List Char) (token : Token) : List Char :=
  walk generated token.dstLine.toNat token.dstCol.toNat

end Same

section Restored

variable {Item : Type} {width : Item → Nat}

theorem passed_add (edits : List (Edit Item)) (shift : Int) (offset : Nat) :
    passed width edits shift offset =
      ((passed width edits 0 offset).1, shift + (passed width edits 0 offset).2) := by
  induction edits generalizing shift with
  | nil => simp [passed]
  | cons edit edits ih =>
    rw [passed, passed]
    split
    · simp
    · rw [ih, ih (0 + edit.shift width)]
      simp [Int.add_assoc]

theorem passed_passed (edits : List (Edit Item)) (shift : Int) {offset later : Nat}
    (le : offset ≤ later) :
    passed width (passed width edits shift offset).1 (passed width edits shift offset).2 later =
      passed width edits shift later := by
  induction edits generalizing shift with
  | nil => rfl
  | cons edit edits ih =>
    rw [passed, passed]
    split
    · rw [passed]
    · next past =>
      rw [if_neg (by omega)]
      exact ih _

/-- By induction on the edits: the place is in what is kept before one, or behind it. -/
theorem moved (positive : ∀ item, 0 < width item) {generated : List Item} (edits : List (Edit Item))
    {cursor : Nat} {restored : List Item}
    (restores : restore width generated cursor edits = some restored)
    {before after : List Item} (whole : generated = before ++ after)
    (behind : cursor ≤ total width before) (outside : Outside edits (total width before)) :
    ∃ before' after', restored = before' ++ after' ∧ after'.head? = after.head? ∧
      (total width before' : Int) + cursor =
        total width before + (passed width edits 0 (total width before)).2 := by
  have before_whole : before <+: generated := ⟨after, whole.symm⟩
  induction edits generalizing cursor restored with
  | nil =>
    rw [restore] at restores
    obtain ⟨front, rest, split, start, stop⟩ := Measured.eq_of_slice restores
    have nothing : rest = [] := by
      by_contra some
      have wide := Measured.total_pos positive some
      have length := congrArg (total width) split
      rw [Measured.total_append, Measured.total_append] at length
      omega
    rw [nothing, List.append_nil] at split
    obtain ⟨more, rfl⟩ := Measured.prefix_of_total_le positive ⟨restored, split.symm⟩ before_whole
      (start ▸ behind)
    rw [whole, List.append_assoc] at split
    refine ⟨more, after, (List.append_cancel_left split).symm, rfl, ?_⟩
    rw [passed, Measured.total_append]
    omega
  | cons edit edits ih =>
    obtain ⟨here, later⟩ := List.forall_mem_cons.mp outside
    rw [restore] at restores
    split at restores
    · cases restores
    · next free =>
      obtain ⟨kept, sliced, restores⟩ := Option.bind_eq_some_iff.mp restores
      obtain ⟨rest, inner, same⟩ := Option.bind_eq_some_iff.mp restores
      cases same
      obtain ⟨front, kept_behind, split, start, stop⟩ := Measured.eq_of_slice sliced
      rw [passed]
      split
      · next ahead =>
        -- the place is in what is kept before this edit
        have early : total width before < edit.start := by
          by_contra reached
          exact here ⟨Nat.le_of_not_lt reached, ahead⟩
        have front_whole : front <+: generated := ⟨kept ++ kept_behind, by rw [split, List.append_assoc]⟩
        obtain ⟨more, rfl⟩ := Measured.prefix_of_total_le positive front_whole before_whole
          (start ▸ behind)
        have parts : more ++ after = kept ++ kept_behind := by
          apply @List.append_cancel_left _ front
          rw [← List.append_assoc, ← whole, split, List.append_assoc]
        rw [Measured.total_append] at early
        have more_parts : more <+: kept ++ kept_behind := ⟨after, parts⟩
        obtain ⟨less, rfl⟩ := Measured.prefix_of_total_le positive more_parts
          (List.prefix_append kept kept_behind) (by omega)
        have after_eq : after = less ++ kept_behind := by
          rw [List.append_assoc] at parts
          exact List.append_cancel_left parts
        have some : less ≠ [] := by
          rintro rfl
          rw [List.append_nil] at stop
          omega
        refine ⟨more, less ++ edit.text ++ rest, by simp [List.append_assoc], ?_, ?_⟩
        · rw [after_eq]
          cases less with
          | nil => exact absurd rfl some
          | cons item less => rfl
        · rw [Measured.total_append]
          omega
      · next ended =>
        obtain ⟨before', after', rfl, head, moves⟩ := ih inner (Nat.le_of_not_lt ended) later
        refine ⟨kept ++ edit.text ++ before', after', by simp [List.append_assoc], head, ?_⟩
        have ordered := edit.ordered
        rw [passed_add, Edit.shift, Measured.total_append, Measured.total_append]
        omega

end Restored

section Placing

variable {Item Other : Type} {width : Item → Nat} (f : Other → Item)

theorem dropTo_map (items : List Other) (offset : Nat) :
    Measured.dropTo width (items.map f) offset =
      (Measured.dropTo (width ∘ f) items offset).map (List.map f) := by
  induction items generalizing offset with
  | nil => cases offset <;> rfl
  | cons item items ih =>
    cases offset with
    | zero => rfl
    | succ offset =>
      rw [List.map_cons, Measured.dropTo, Measured.dropTo]
      dsimp only [Function.comp_apply]
      split
      · exact ih _
      · rfl

theorem takeTo_map (items : List Other) (offset : Nat) :
    Measured.takeTo width (items.map f) offset =
      (Measured.takeTo (width ∘ f) items offset).map (List.map f) := by
  induction items generalizing offset with
  | nil => cases offset <;> rfl
  | cons item items ih =>
    cases offset with
    | zero => rfl
    | succ offset =>
      rw [List.map_cons, Measured.takeTo, Measured.takeTo]
      dsimp only [Function.comp_apply]
      split
      · rw [ih, Option.map_map, Option.map_map]
        rfl
      · rfl

theorem slice_map (items : List Other) (start stop : Nat) :
    slice width (items.map f) start stop = (slice (width ∘ f) items start stop).map (List.map f) := by
  rw [slice, slice]
  split
  · rw [dropTo_map]
    cases Measured.dropTo (width ∘ f) items start with
    | none => rfl
    | some rest => exact takeTo_map f rest _
  · rfl

def Edit.map (edit : Edit Other) : Edit Item := ⟨edit.start, edit.stop, edit.text.map f, edit.ordered⟩

theorem restore_map (items : List Other) (edits : List (Edit Other)) (cursor : Nat) :
    restore width (items.map f) cursor (edits.map (Edit.map f)) =
      (restore (width ∘ f) items cursor edits).map (List.map f) := by
  induction edits generalizing cursor with
  | nil =>
    rw [List.map_nil, restore, restore, slice_map, Measured.total_map]
  | cons edit edits ih =>
    rw [List.map_cons, restore, restore]
    change (if edit.start < cursor then none else _) = _
    split
    · rfl
    · change (slice width (items.map f) cursor edit.start).bind (fun kept =>
        (restore width (items.map f) edit.stop (edits.map (Edit.map f))).bind fun rest =>
          some (kept ++ edit.text.map f ++ rest)) = _
      rw [slice_map, ih]
      cases slice (width ∘ f) items cursor edit.start with
      | none => rfl
      | some kept =>
        cases restore (width ∘ f) items edit.stop edits with
        | none => rfl
        | some rest => simp

end Placing

section Landing

variable {generated restored : List Char} {edits : List (Edit Char)}

theorem map_placed (text : List Char) : (placed text).map Prod.fst = text := by
  rw [placed, List.map_map]
  change text.zipIdx.map Prod.fst = text
  exact List.zipIdx_map_fst 0 text

theorem map_unplaced (edits : List (Edit Char)) :
    (edits.map Edit.unplaced).map (Edit.map Prod.fst) = edits := by
  rw [List.map_map]
  apply (List.map_congr_left fun edit _ => ?_).trans (List.map_id edits)
  rw [Function.comp_apply, Edit.unplaced, Edit.map, List.map_map]
  change Edit.mk edit.start edit.stop (edit.text.map id) edit.ordered = edit
  rw [List.map_id]

theorem restore_placed (restores : restore utf8 generated 0 edits = some restored) :
    ∃ placed', restore (fun item => utf8 item.1) (placed generated) 0 (edits.map Edit.unplaced) =
      some placed' ∧ placed'.map Prod.fst = restored := by
  have same := @restore_map _ _ utf8 (@Prod.fst Char (Option Nat)) (placed generated)
    (edits.map Edit.unplaced) 0
  rw [map_placed, map_unplaced, restores] at same
  exact Option.map_eq_some_iff.mp same.symm

theorem passed_map {Item Other : Type} {width : Item → Nat} (f : Other → Item)
    (edits : List (Edit Other)) (shift : Int) (offset : Nat) :
    (passed (width ∘ f) edits shift offset).2 =
      (passed width (edits.map (Edit.map f)) shift offset).2 := by
  induction edits generalizing shift with
  | nil => rfl
  | cons edit edits ih =>
    have same : (edit.map f).shift width = edit.shift (width ∘ f) := by
      rw [Edit.shift, Edit.shift, Edit.map, Measured.total_map]
    rw [List.map_cons, passed, passed, same]
    by_cases ahead : offset < edit.stop
    · rw [if_pos ahead, if_pos (show offset < (edit.map f).stop from ahead)]
    · rw [if_neg ahead, if_neg (show ¬ offset < (edit.map f).stop from ahead)]
      exact ih _

theorem moves_of_outside (restores : restore utf8 generated 0 edits = some restored)
    {before after : List Char} (whole : generated = before ++ after)
    (outside : Outside edits (total utf8 before)) :
    ∃ before', before' <+: restored ∧ Moves generated edits before.length before'.length ∧
      (total utf8 before + (passed utf8 edits 0 (total utf8 before)).2).toNat =
        total utf8 before' := by
  obtain ⟨placed', restores', rfl⟩ := restore_placed restores
  have fronts : ((placed generated).take before.length).map Prod.fst = before := by
    rw [List.map_take, map_placed, whole, List.take_left']
    rfl
  have wide : total (fun item : Char × Option Nat => utf8 item.1)
      ((placed generated).take before.length) = total utf8 before := by
    conv_rhs => rw [← fronts, Measured.total_map]
    rfl
  have outside' : Outside (edits.map Edit.unplaced) (total utf8 before) := by
    intro edit member
    obtain ⟨edit, among, rfl⟩ := List.mem_map.mp member
    exact outside edit among
  have shift := @passed_map _ _ utf8 (@Prod.fst Char (Option Nat)) (edits.map Edit.unplaced) 0
    (total utf8 before)
  rw [map_unplaced] at shift
  rw [← wide] at outside'
  obtain ⟨before', after', rfl, head, moves⟩ := moved (fun item => utf8_pos item.1) _ restores'
    (List.take_append_drop before.length (placed generated)).symm (Nat.zero_le _) outside'
  refine ⟨before'.map Prod.fst, ?_, ⟨_, restores', ?_, ?_, ?_⟩, ?_⟩
  · rw [List.map_append]
    exact List.prefix_append _ _
  · simp
  · intro within
    refine ⟨generated[before.length], ?_⟩
    rw [List.length_map, List.getElem?_append_right (Nat.le_refl _), Nat.sub_self,
      ← List.head?_eq_getElem?, head, List.head?_drop, placed, List.getElem?_map,
      List.getElem?_zipIdx, List.getElem?_eq_getElem within]
    simp
  · intro ended
    have nothing : (placed generated).drop before.length = [] := by
      apply List.drop_eq_nil_of_le
      rw [placed, List.length_map, List.length_zipIdx]
      exact Nat.le_of_eq ended.symm
    rw [nothing, List.head?_nil, List.head?_eq_none_iff] at head
    rw [head, List.append_nil, List.length_map]
  · rw [wide] at moves
    rw [Measured.total_map, ← shift]
    change _ = total (fun item : Char × Option Nat => utf8 item.1) before'
    change _ = (total utf8 before : Int) + (passed (fun item : Char × Option Nat => utf8 item.1) _ 0 _).2
      at moves
    change ((total utf8 before : Int) +
      (passed (fun item : Char × Option Nat => utf8 item.1) _ 0 _).2).toNat = _
    omega

/-- A token moved to where the character it stood at stands now. -/
def Lands (generated restored : List Char) (edits : List (Edit Char)) (token moved : Token) : Prop :=
  ∃ place, Moves generated edits (token.before generated).length place ∧
    moved = { token with
      dstLine := UInt32.ofNat (position (restored.take place)).1
      dstCol := UInt32.ofNat (position (restored.take place)).2 }

theorem lands_shiftToken (restores : restore utf8 generated 0 edits = some restored)
    {generatedLines restoredLines : Utf16LineIndex}
    (indexed : Utf16LineIndex.new generated = some generatedLines)
    (indexed' : Utf16LineIndex.new restored = some restoredLines) {token : Token}
    {left : List (Edit Char) × Int}
    (same : passed utf8 left.1 left.2 (total utf8 (token.before generated)) =
      passed utf8 edits 0 (total utf8 (token.before generated)))
    (outside : Outside edits (total utf8 (token.before generated))) :
    ∃ moved, shiftToken generatedLines restoredLines left token =
        some (passed utf8 edits 0 (total utf8 (token.before generated)), moved) ∧
      Lands generated restored edits token moved := by
  have offset : generatedLines.byteOffset token.dstLine.toNat token.dstCol.toNat =
      some (total utf8 (token.before generated)) := by
    have found := byteOffset_eq generated token.dstLine.toNat token.dstCol.toNat
    rw [indexed, Option.bind_some] at found
    exact found
  obtain ⟨after, whole⟩ := walk_before generated token.dstLine.toNat token.dstCol.toNat
  obtain ⟨before', ⟨after', rest⟩, moves, shifted⟩ := moves_of_outside restores whole.symm outside
  have place : restoredLines.lineCol (total utf8 before') =
      some (UInt32.ofNat (position before').1, UInt32.ofNat (position before').2) := by
    have found := lineCol_eq before' after'
    rw [rest, indexed', Option.bind_some] at found
    exact found
  have shifted' : ((total utf8 (token.before generated) : Int) +
      (passed utf8 edits 0 (total utf8 (token.before generated))).2).toNat = total utf8 before' :=
    shifted
  have front : restored.take before'.length = before' := by
    rw [← rest, List.take_left']
    rfl
  refine ⟨{ token with
    dstLine := UInt32.ofNat (position before').1, dstCol := UInt32.ofNat (position before').2 }, ?_,
    before'.length, moves, ?_⟩
  · rw [shiftToken, offset]
    simp only [Option.bind_eq_bind, Option.bind_some, same, shifted', place]
  · rw [front]

theorem lands_shiftTokens (restores : restore utf8 generated 0 edits = some restored)
    {generatedLines restoredLines : Utf16LineIndex}
    (indexed : Utf16LineIndex.new generated = some generatedLines)
    (indexed' : Utf16LineIndex.new restored = some restoredLines) (tokens : List Token)
    {left : List (Edit Char) × Int}
    (same : ∀ token ∈ tokens, passed utf8 left.1 left.2 (total utf8 (token.before generated)) =
      passed utf8 edits 0 (total utf8 (token.before generated)))
    (inOrder : tokens.Pairwise fun token later =>
      total utf8 (token.before generated) ≤ total utf8 (later.before generated))
    (outside : ∀ token ∈ tokens, Outside edits (total utf8 (token.before generated))) :
    ∃ moved, shiftTokens generatedLines restoredLines left tokens = some moved ∧
      List.Forall₂ (Lands generated restored edits) tokens moved := by
  induction tokens generalizing left with
  | nil => exact ⟨[], rfl, .nil⟩
  | cons token tokens ih =>
    obtain ⟨here, inOrder⟩ := List.pairwise_cons.mp inOrder
    obtain ⟨outside_here, outside⟩ := List.forall_mem_cons.mp outside
    obtain ⟨moved, shifted, lands⟩ := lands_shiftToken restores indexed indexed'
      (same token List.mem_cons_self) outside_here
    obtain ⟨rest, shifted_rest, lands_rest⟩ :=
      ih (fun later member => passed_passed edits 0 (here later member)) inOrder outside
    refine ⟨moved :: rest, ?_, .cons lands lands_rest⟩
    rw [shiftTokens, shifted]
    simp only [Option.bind_eq_bind, Option.bind_some, shifted_rest]

/-- What the indexes of a text say of the place behind the characters passed. -/
structure Agrees (passed rest : List Char) : Prop where
  lineCol : (Utf16LineIndex.new (passed ++ rest)).bind
    (fun index => index.lineCol (total utf8 passed)) =
      some (UInt32.ofNat (position passed).1, UInt32.ofNat (position passed).2)
  byteOffset : (Utf16LineIndex.new (passed ++ rest)).bind (fun index =>
    index.byteOffset (position passed).1 (position passed).2) = some (total utf8 passed)
  locate : (SourcePositions.new (passed ++ rest)).locate (passed ++ rest) (total utf8 passed) =
    some (position passed)
  utf16Offset : (SourcePositions.new (passed ++ rest)).utf16Offset (passed ++ rest)
    (total utf8 passed) = some (total utf16 passed)

theorem agrees (passed rest : List Char) : Agrees passed rest where
  lineCol := lineCol_eq passed rest
  byteOffset := by rw [byteOffset_eq, walk_position]
  locate := locate_eq passed rest
  utf16Offset := utf16Offset_eq passed rest

/-- Each token moves with the character it stands at, and the indexes are the walk of the text. -/
theorem tokens_move_with_code {generated restored : List Char} {edits : List (Edit Char)}
    {map : SourceMap} (restores : restore utf8 generated 0 edits = some restored)
    (inOrder : map.tokens.Pairwise fun token later =>
      total utf8 (token.before generated) ≤ total utf8 (later.before generated))
    (outside : ∀ token ∈ map.tokens, Outside edits (total utf8 (token.before generated))) :
    (∃ tokens, shiftSourceMap map generated restored edits = some { map with tokens } ∧
      List.Forall₂ (Lands generated restored edits) map.tokens tokens) ∧
    (∀ passed rest, Agrees passed rest) ∧
    ∀ source line column,
      (Utf16LineIndex.new source).bind (fun index => index.byteOffset line column) =
        some (total utf8 (walk source line column)) := by
  refine ⟨?_, agrees, byteOffset_eq⟩
  have fresh : ∀ token ∈ map.tokens,
      passed utf8 (edits, (0 : Int)).1 (edits, (0 : Int)).2 (total utf8 (token.before generated)) =
        passed utf8 edits 0 (total utf8 (token.before generated)) := fun _ _ => rfl
  obtain ⟨tokens, shifted, lands⟩ := lands_shiftTokens restores (new_eq generated) (new_eq restored)
    map.tokens fresh inOrder outside
  refine ⟨tokens, ?_, lands⟩
  rw [shiftSourceMap, new_eq, new_eq]
  simp only [Option.bind_eq_bind, Option.bind_some, shifted]

/-- Of a line with a comment put in front of it. -/
theorem tokens_move_with_code_ahead :
    let token (column : UInt32) : Token := ⟨0, column, 3, column, some 0, none⟩
    let map : SourceMap := ⟨none, [], none, ["app.ts"], [none], [token 0, token 3]⟩
    let edits : List (Edit Char) := [⟨0, 0, ['/', '/', 'é', '\n'], Nat.le_refl 0⟩]
    ∃ tokens, shiftSourceMap map ['😀', ';', 'a'] ['/', '/', 'é', '\n', '😀', ';', 'a'] edits =
        some { map with tokens } ∧
      List.Forall₂ (Lands ['😀', ';', 'a'] ['/', '/', 'é', '\n', '😀', ';', 'a'] edits) map.tokens
        tokens := by
  intro token map edits
  have nowhere (offset : Nat) : Outside edits offset := by
    intro edit member
    rw [List.mem_singleton.mp member]
    exact fun inside => absurd inside.2 (Nat.not_lt_zero _)
  exact (tokens_move_with_code (by decide) (by decide) fun token _ => nowhere _).1

theorem position_feeds (count line : Nat) :
    (List.replicate count '\n').foldl
      (fun place c => if c = '\n' then (place.1 + 1, 0) else (place.1, place.2 + utf16 c)) (line, 0) =
        (line + count, 0) := by
  induction count generalizing line with
  | zero => rfl
  | succ count ih =>
    rw [List.replicate_succ, List.foldl_cons, if_pos rfl, ih, Nat.add_right_comm, Nat.add_assoc]

/-- Behind as many line feeds as 32 bits count, the line is zero again. -/
theorem not_lineCol_position : ¬ ∀ passed rest : List Char,
    ((Utf16LineIndex.new (passed ++ rest)).bind fun index => index.lineCol (total utf8 passed)).map
      (fun place => (place.1.toNat, place.2.toNat)) = some (position passed) := by
  intro claim
  have wraps : ∀ count, count % 2 ^ 32 = count := by
    intro count
    have found := claim (List.replicate count '\n') []
    rw [lineCol_eq, position, position_feeds, Nat.zero_add] at found
    exact congrArg Prod.fst (Option.some.inj found)
  exact absurd (wraps (2 ^ 32)) (by decide)

end Landing

end Supercov.Js.Restored
