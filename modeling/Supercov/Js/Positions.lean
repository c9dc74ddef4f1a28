import Supercov.Library.Measured
import Supercov.Units.Lookup
import Mathlib.Data.List.Forall2
import Mathlib.Data.List.Induction

/-!
# Lines and UTF-16 columns

Where the lines of a text start is kept with it, and for each line that is not ASCII where every
256th UTF-16 unit of it stands, so that a place is found without walking the text from its start.
-/

namespace Supercov.Js.Positions

open Measured (total slice)
open Supercov.Units (partitionPoint)

section Index

abbrev utf8 (c : Char) : Nat := c.utf8Size

def utf16 (c : Char) : Nat := if c.toNat < 65536 then 1 else 2

def isAscii (text : List Char) : Bool := text.all fun c => c.toNat < 128

def charIndices : Nat → List Char → List (Nat × Char)
  | _, [] => []
  | offset, c :: text => (offset, c) :: charIndices (offset + utf8 c) text

def checkpoint : Nat := 256

def lineStarts (source : List Char) : List Nat :=
  0 :: (charIndices 0 source).filterMap fun entry => if entry.2 = '\n' then some (entry.1 + 1) else none

/-- A subtraction of what must not be more. -/
def checkedSub (whole part : Nat) : Option Nat := if part ≤ whole then some (whole - part) else none

/-- A character passed, and before it a checkpoint where the last one is far enough behind. -/
def mark (marks : List (Nat × Nat)) (column offset : Nat) : List (Nat × Nat) :=
  if (marks.getLastD (0, 0)).1 + checkpoint ≤ column then marks ++ [(column, offset)] else marks

def checkpointsOf (line : List Char) : Option (List (Nat × Nat)) :=
  if isAscii line then none
  else
    some ((charIndices 0 line).foldl (fun state entry =>
      (mark state.1 state.2 entry.1, state.2 + utf16 entry.2)) ([(0, 0)], 0)).1

structure Utf16LineIndex where
  source : List Char
  starts : List Nat
  checkpoints : List (Option (List (Nat × Nat)))

def utf16ColToByteFrom (target : Nat) : Nat → Nat → List Char → Nat
  | _, offset, [] => offset
  | column, offset, c :: line =>
    if target ≤ column then offset
    else utf16ColToByteFrom target (column + utf16 c) (offset + utf8 c) line

def utf16ColToByte (line : List Char) (target : Nat) : Nat := utf16ColToByteFrom target 0 0 line

namespace Utf16LineIndex

/-- The index of a text, none where one of its lines would be cut within a character. -/
def new (source : List Char) : Option Utf16LineIndex := do
  let starts := lineStarts source
  let checkpoints ← (List.range starts.length).mapM fun line => do
    let start ← starts[line]?
    let text ← slice utf8 source start (starts[line + 1]?.getD (total utf8 source))
    some (checkpointsOf text)
  some ⟨source, starts, checkpoints⟩

variable (index : Utf16LineIndex)

def lineEnd (line : Nat) : Nat := index.starts[line + 1]?.getD (total utf8 index.source)

def byteOffset (line column : Nat) : Option Nat :=
  match index.starts[line]? with
  | none => some (total utf8 index.source)
  | some start => do
    let stop := index.lineEnd line
    match ← index.checkpoints[line]? with
    | none => do
      let width ← checkedSub stop start
      some (start + min column width)
    | some marks => do
      let last ← checkedSub (partitionPoint (fun mark => mark.1 ≤ column) marks) 1
      let (passed, offset) ← marks[last]?
      let rest ← slice utf8 index.source (start + offset) stop
      let target ← checkedSub column passed
      some (start + offset + utf16ColToByte rest target)

def lineCol (offset : Nat) : Option (UInt32 × UInt32) := do
  let offset := min offset (total utf8 index.source)
  let line ← checkedSub (partitionPoint (fun start => start ≤ offset) index.starts) 1
  let start ← index.starts[line]?
  let within ← checkedSub offset start
  let column ←
    match ← index.checkpoints[line]? with
    | none => some within
    | some marks => do
      let last ← checkedSub (partitionPoint (fun mark => mark.2 ≤ within) marks) 1
      let (passed, before) ← marks[last]?
      let rest ← slice utf8 index.source (start + before) offset
      some (passed + total utf16 rest)
  some (UInt32.ofNat line, UInt32.ofNat column)

end Utf16LineIndex

end Index

section Sources

/-- What is known of a source up to a character. -/
structure Scanned where
  lineStarts : List Nat
  utf16BeforeLine : List Nat
  checkpoints : List (Option (List (Nat × Nat)))
  marks : Option (List (Nat × Nat))
  utf16 : Nat
  column : Nat
  lineStart : Nat

def Scanned.initial : Scanned := ⟨[0], [0], [], none, 0, 0, 0⟩

def Scanned.marksAt (scanned : Scanned) (offset : Nat) (c : Char) : Option (List (Nat × Nat)) :=
  let marks := if ¬ c.toNat < 128 ∧ scanned.marks.isNone then some [(0, 0)] else scanned.marks
  marks.map fun marks =>
    if (marks.getLastD (0, 0)).2 + checkpoint ≤ scanned.column then
      marks ++ [(offset - scanned.lineStart, scanned.column)]
    else marks

def Scanned.pass (scanned : Scanned) (entry : Nat × Char) : Scanned :=
  let marks := scanned.marksAt entry.1 entry.2
  let units := scanned.utf16 + Positions.utf16 entry.2
  if entry.2 = '\n' then
    { lineStarts := scanned.lineStarts ++ [entry.1 + 1]
      utf16BeforeLine := scanned.utf16BeforeLine ++ [units]
      checkpoints := scanned.checkpoints ++ [marks]
      marks := none
      utf16 := units
      column := 0
      lineStart := entry.1 + 1 }
  else { scanned with marks, utf16 := units, column := scanned.column + Positions.utf16 entry.2 }

/-- The index, but for the address, length and sample it knows its source by. -/
structure SourcePositions where
  lineStarts : List Nat
  utf16BeforeLine : List Nat
  checkpoints : List (Option (List (Nat × Nat)))

namespace SourcePositions

def new (source : List Char) : SourcePositions :=
  let scanned := (charIndices 0 source).foldl Scanned.pass .initial
  ⟨scanned.lineStarts, scanned.utf16BeforeLine, scanned.checkpoints ++ [scanned.marks]⟩

/-- Zero-based line, and the UTF-16 units from that line's start. -/
def locate (positions : SourcePositions) (source : List Char) (offset : Nat) : Option (Nat × Nat) := do
  let line ← checkedSub (partitionPoint (fun start => start ≤ offset) positions.lineStarts) 1
  let start ← positions.lineStarts[line]?
  let within ← checkedSub offset start
  let column ←
    match ← positions.checkpoints[line]? with
    | none => some within
    | some marks => do
      let last ← checkedSub (partitionPoint (fun mark => mark.1 ≤ within) marks) 1
      let (before, passed) ← marks[last]?
      let rest ← slice utf8 source (start + before) offset
      some (passed + total utf16 rest)
  some (line, column)

def utf16Offset (positions : SourcePositions) (source : List Char) (offset : Nat) : Option Nat := do
  let (line, column) ← positions.locate source offset
  let before ← positions.utf16BeforeLine[line]?
  some (before + column)

end SourcePositions

end Sources

/-! ## Walking the text -/

section Walking

/-- The line and column behind the characters that were passed. -/
def position (passed : List Char) : Nat × Nat :=
  passed.foldl (fun place c => if c = '\n' then (place.1 + 1, 0) else (place.1, place.2 + utf16 c)) (0, 0)

/-- The characters to pass for a line and a column: none of another line, and all where there is
no such line. -/
def walk : List Char → Nat → Nat → List Char
  | [], _, _ => []
  | c :: text, line + 1, column => c :: walk text (if c = '\n' then line else line + 1) column
  | _ :: _, 0, 0 => []
  | c :: text, 0, column + 1 => if c = '\n' then [c] else c :: walk text 0 (column + 1 - utf16 c)

theorem walk_before (text : List Char) (line column : Nat) : walk text line column <+: text := by
  fun_induction walk text line column with
  | case1 => exact List.prefix_rfl
  | case2 c text line column ih => exact (List.prefix_cons_inj c).mpr ih
  | case3 => exact List.nil_prefix
  | case4 text column => exact (List.prefix_cons_inj '\n').mpr List.nil_prefix
  | case5 c text column other ih => exact (List.prefix_cons_inj c).mpr ih

end Walking

section Lines

def lines : List Char → List (List Char)
  | [] => [[]]
  | c :: text =>
    if c = '\n' then ['\n'] :: lines text
    else (c :: (lines text).headD []) :: (lines text).tail

/-- A line feed only ends a line. -/
def IsLine (line : List Char) : Prop := '\n' ∉ line.dropLast

theorem lines_ne_nil (text : List Char) : lines text ≠ [] := by
  cases text with
  | nil => exact List.cons_ne_nil _ _
  | cons c text =>
    rw [lines]
    split <;> exact List.cons_ne_nil _ _

theorem lines_eq_cons (text : List Char) :
    lines text = (lines text).headD [] :: (lines text).tail := by
  cases same : lines text with
  | nil => exact absurd same (lines_ne_nil text)
  | cons line rest => rfl

theorem flatten_lines (text : List Char) : (lines text).flatten = text := by
  induction text with
  | nil => rfl
  | cons c text ih =>
    rw [lines]
    split
    · next same => rw [List.flatten_cons, ih, same, List.singleton_append]
    · rw [lines_eq_cons, List.flatten_cons] at ih
      rw [List.flatten_cons, List.cons_append, ih]

def front (text : List Char) (line : Nat) : List Char := ((lines text).take line).flatten

theorem length_lines_cons {c : Char} {text : List Char} (other : c ≠ '\n') :
    (lines (c :: text)).length = (lines text).length := by
  rw [lines, if_neg other]
  conv_rhs => rw [lines_eq_cons]
  rfl

theorem front_zero (text : List Char) : front text 0 = [] := rfl

theorem front_newline (text : List Char) (line : Nat) :
    front ('\n' :: text) (line + 1) = '\n' :: front text line := by
  rw [front, lines, if_pos rfl]
  rfl

theorem front_cons {c : Char} {text : List Char} (other : c ≠ '\n') (line : Nat) :
    front (c :: text) (line + 1) = c :: front text (line + 1) := by
  rw [front, front, lines, if_neg other, lines_eq_cons text]
  rfl

theorem getElem?_lines_cons {c : Char} {text : List Char} (other : c ≠ '\n') (line : Nat) :
    (lines (c :: text))[line]? =
      if line = 0 then ((lines text)[0]?).map (c :: ·) else (lines text)[line]? := by
  rw [lines, if_neg other, lines_eq_cons text]
  cases line with
  | zero => rfl
  | succ line => rfl

theorem split_line {text line : List Char} {index : Nat} (found : (lines text)[index]? = some line) :
    text = front text index ++ line ++ ((lines text).drop (index + 1)).flatten := by
  obtain ⟨bound, same⟩ := List.getElem?_eq_some_iff.mp found
  have whole : (lines text).take index ++ line :: (lines text).drop (index + 1) = lines text := by
    rw [← same, ← List.drop_eq_getElem_cons bound, List.take_append_drop]
  conv_lhs => rw [← flatten_lines text, ← whole]
  rw [List.flatten_append, List.flatten_cons, front, List.append_assoc]

theorem front_le (text : List Char) {one other : Nat} (le : one ≤ other) :
    front text one <+: front text other := by
  obtain ⟨more, same⟩ := List.take_prefix_take_left (l := lines text) le
  exact ⟨more.flatten, by rw [front, front, ← same, List.flatten_append]⟩

theorem front_succ {text line : List Char} {index : Nat}
    (found : (lines text)[index]? = some line) : front text (index + 1) = front text index ++ line := by
  rw [front, List.take_add_one, found, List.flatten_append]
  simp [front]

theorem isLine {text line : List Char} {index : Nat} (found : (lines text)[index]? = some line) :
    IsLine line := by
  induction text generalizing index line with
  | nil =>
    cases index with
    | zero =>
      cases found
      exact List.not_mem_nil
    | succ index => cases found
  | cons c text ih =>
    by_cases same : c = '\n'
    · rw [lines, if_pos same] at found
      cases index with
      | zero =>
        cases found
        exact List.not_mem_nil
      | succ index => exact ih found
    · rw [getElem?_lines_cons same] at found
      split at found
      · obtain ⟨first, found', rfl⟩ := Option.map_eq_some_iff.mp found
        have inner := ih found'
        rw [IsLine] at inner ⊢
        cases first with
        | nil => exact List.not_mem_nil
        | cons d first =>
          rw [List.dropLast_cons_cons, List.mem_cons, not_or]
          exact ⟨Ne.symm same, inner⟩
      · exact ih found

theorem mem_line {text line : List Char} {index : Nat} (found : (lines text)[index]? = some line)
    (more : index + 1 < (lines text).length) : '\n' ∈ line := by
  induction text generalizing index line with
  | nil =>
    change index + 1 < 1 at more
    omega
  | cons c text ih =>
    by_cases same : c = '\n'
    · rw [lines, if_pos same] at found more
      cases index with
      | zero =>
        cases found
        exact List.mem_singleton_self _
      | succ index => exact ih found (Nat.lt_of_succ_lt_succ more)
    · rw [length_lines_cons same] at more
      rw [getElem?_lines_cons same] at found
      split at found
      · next first =>
        subst first
        obtain ⟨line, found', rfl⟩ := Option.map_eq_some_iff.mp found
        exact List.mem_cons_of_mem _ (ih found' more)
      · exact ih found more

theorem position_eq (passed rest : List Char) (start : Nat × Nat) :
    ∃ index before behind, (lines (passed ++ rest))[index]? = some (before ++ behind) ∧
      passed = front (passed ++ rest) index ++ before ∧ '\n' ∉ before ∧
      passed.foldl (fun place c => if c = '\n' then (place.1 + 1, 0) else
          (place.1, place.2 + utf16 c)) start =
        (start.1 + index, if index = 0 then start.2 + total utf16 before else total utf16 before) := by
  induction passed generalizing start with
  | nil =>
    refine ⟨0, [], (lines rest).headD [], ?_, rfl, List.not_mem_nil, ?_⟩
    · rw [List.nil_append, lines_eq_cons rest]
      rfl
    · simp
  | cons c passed ih =>
    by_cases same : c = '\n'
    · subst same
      obtain ⟨index, before, behind, found, split, clean, folded⟩ := ih (start.1 + 1, 0)
      refine ⟨index + 1, before, behind, ?_, ?_, clean, ?_⟩
      · rw [List.cons_append, lines, if_pos rfl]
        exact found
      · rw [List.cons_append, front_newline, List.cons_append, ← split]
      · rw [List.foldl_cons, if_pos rfl, folded, if_neg (Nat.succ_ne_zero index)]
        dsimp only
        rw [Nat.zero_add, ite_self, Nat.add_assoc, Nat.add_comm 1]
    · obtain ⟨index, before, behind, found, split, clean, folded⟩ :=
        ih (start.1, start.2 + utf16 c)
      cases index with
      | zero =>
        refine ⟨0, c :: before, behind, ?_, ?_, ?_, ?_⟩
        · rw [List.cons_append, getElem?_lines_cons same, if_pos rfl, found]
          rfl
        · rw [front_zero, List.nil_append] at split ⊢
          rw [← split]
        · rw [List.mem_cons, not_or]
          exact ⟨Ne.symm same, clean⟩
        · rw [List.foldl_cons, if_neg same, folded]
          simp [Nat.add_assoc]
      | succ index =>
        refine ⟨index + 1, before, behind, ?_, ?_, clean, ?_⟩
        · rw [List.cons_append, getElem?_lines_cons same, if_neg (Nat.succ_ne_zero _), found]
        · rw [List.cons_append, front_cons same, List.cons_append, ← split]
        · rw [List.foldl_cons, if_neg same, folded]
          simp

/-- The line that some characters end in, by what of it is before and behind their end. -/
structure Ends (passed rest before behind : List Char) : Prop where
  found : (lines (passed ++ rest))[(position passed).1]? = some (before ++ behind)
  split : passed = front (passed ++ rest) (position passed).1 ++ before
  clean : '\n' ∉ before
  column : (position passed).2 = total utf16 before

namespace Ends

variable {passed rest before behind : List Char}

theorem within (ends : Ends passed rest before behind) :
    (position passed).1 < (lines (passed ++ rest)).length :=
  (List.getElem?_eq_some_iff.mp ends.found).1

theorem total_eq (ends : Ends passed rest before behind) (width : Char → Nat) :
    total width passed =
      total width (front (passed ++ rest) (position passed).1) + total width before := by
  conv_lhs => rw [ends.split, Measured.total_append]

end Ends

theorem position_spec (passed rest : List Char) :
    ∃ before behind, Ends passed rest before behind := by
  obtain ⟨index, before, behind, found, split, clean, folded⟩ := position_eq passed rest (0, 0)
  have place : position passed = (index, total utf16 before) := by
    rw [position, folded]
    simp
  refine ⟨before, behind, ?_, ?_, clean, ?_⟩
  · rw [place]
    exact found
  · rw [place]
    exact split
  · rw [place]

end Lines

section Starts

theorem utf8_pos (c : Char) : 0 < utf8 c := c.utf8Size_pos

theorem utf16_pos (c : Char) : 0 < utf16 c := by
  rw [utf16]
  split <;> decide

theorem utf8_newline : utf8 '\n' = 1 := rfl

theorem starts_from (offset : Nat) (text : List Char) :
    offset :: (charIndices offset text).filterMap (fun entry =>
        if entry.2 = '\n' then some (entry.1 + 1) else none) =
      (List.range (lines text).length).map fun line => offset + total utf8 (front text line) := by
  induction text generalizing offset with
  | nil => rfl
  | cons c text ih =>
    rw [charIndices, List.filterMap_cons]
    by_cases same : c = '\n'
    · subst same
      have inner := ih (offset + 1)
      simp only [if_true, utf8_newline, inner]
      rw [lines, if_pos rfl, List.length_cons, List.range_succ_eq_map, List.map_cons, List.map_map]
      congr 1
      apply List.map_congr_left
      intro line _
      rw [Function.comp_apply, front_newline, Measured.total_cons, utf8_newline]
      omega
    · have inner := ih (offset + utf8 c)
      simp only [if_neg same]
      rw [length_lines_cons same]
      obtain ⟨count, length⟩ : ∃ count, (lines text).length = count + 1 :=
        Nat.exists_eq_succ_of_ne_zero (List.length_pos_iff.mpr (lines_ne_nil text)).ne'
      rw [length, List.range_succ_eq_map, List.map_cons, List.map_map] at inner ⊢
      rw [(List.cons.inj inner).2]
      congr 1
      apply List.map_congr_left
      intro line _
      change offset + utf8 c + total utf8 (front text (line + 1)) =
        offset + total utf8 (front (c :: text) (line + 1))
      rw [front_cons same, Measured.total_cons, Nat.add_assoc]

theorem lineStarts_eq (source : List Char) :
    lineStarts source =
      (List.range (lines source).length).map fun line => total utf8 (front source line) := by
  rw [lineStarts, starts_from]
  simp

end Starts

section Lookups

variable {source line : List Char} {index : Nat}

theorem getElem?_lineStarts (within : index < (lines source).length) :
    (lineStarts source)[index]? = some (total utf8 (front source index)) := by
  rw [lineStarts_eq, List.getElem?_map, List.getElem?_range within]
  rfl

theorem length_lineStarts : (lineStarts source).length = (lines source).length := by
  rw [lineStarts_eq, List.length_map, List.length_range]

theorem lineEnd_eq (found : (lines source)[index]? = some line) :
    (lineStarts source)[index + 1]?.getD (total utf8 source) =
      total utf8 (front source index) + total utf8 line := by
  by_cases more : index + 1 < (lines source).length
  · rw [getElem?_lineStarts more, front_succ found, Measured.total_append]
    rfl
  · have last : (lineStarts source)[index + 1]? = none := by
      rw [List.getElem?_eq_none_iff, length_lineStarts]
      exact Nat.le_of_not_lt more
    have nothing : (lines source).drop (index + 1) = [] :=
      List.drop_eq_nil_of_le (Nat.le_of_not_lt more)
    have whole := split_line found
    rw [nothing, List.flatten_nil, List.append_nil] at whole
    rw [last, Option.getD_none]
    conv_lhs => rw [whole, Measured.total_append]

theorem slice_line (found : (lines source)[index]? = some line) {before behind : List Char}
    (parts : line = before ++ behind) :
    slice utf8 source (total utf8 (front source index) + total utf8 before)
      (total utf8 (front source index) + total utf8 line) = some behind := by
  have whole := split_line found
  have sliced := Measured.slice_append utf8_pos (front source index ++ before) behind
    ((lines source).drop (index + 1)).flatten
  rw [List.append_assoc (front source index), ← parts, ← whole, Measured.total_append] at sliced
  rw [parts, Measured.total_append, ← Nat.add_assoc]
  exact sliced

theorem mapM_eq_some_map {Item Other : Type} {f : Item → Option Other} {g : Item → Other}
    {items : List Item} (each : ∀ item ∈ items, f item = some (g item)) :
    items.mapM f = some (items.map g) := by
  induction items with
  | nil => rfl
  | cons item items ih =>
    rw [List.mapM_cons, each item List.mem_cons_self,
      ih fun other member => each other (List.mem_cons_of_mem _ member)]
    rfl

theorem new_eq (source : List Char) :
    Utf16LineIndex.new source =
      some ⟨source, lineStarts source, (lines source).map checkpointsOf⟩ := by
  have each : ∀ line ∈ List.range (lineStarts source).length,
      (do
        let start ← (lineStarts source)[line]?
        let text ← slice utf8 source start ((lineStarts source)[line + 1]?.getD (total utf8 source))
        some (checkpointsOf text)) = some (checkpointsOf ((lines source).getD line [])) := by
    intro line member
    rw [List.mem_range, length_lineStarts] at member
    have found := List.getElem?_eq_getElem member
    have sliced := slice_line found (List.nil_append _).symm
    rw [Measured.total_nil, Nat.add_zero] at sliced
    rw [getElem?_lineStarts member, lineEnd_eq found, List.getD_eq_getElem?_getD, found]
    simp [sliced]
  have listed : ((List.range (lineStarts source).length).map fun line =>
      checkpointsOf ((lines source).getD line [])) = (lines source).map checkpointsOf := by
    rw [length_lineStarts]
    apply List.ext_getElem
    · simp
    · intro line bound bound'
      rw [List.length_map] at bound'
      simp [List.getD_eq_getElem?_getD, List.getElem?_eq_getElem bound']
  have opened : Utf16LineIndex.new source =
      ((List.range (lineStarts source).length).mapM fun line => do
        let start ← (lineStarts source)[line]?
        let text ← slice utf8 source start ((lineStarts source)[line + 1]?.getD (total utf8 source))
        some (checkpointsOf text)).bind fun checkpoints =>
          some ⟨source, lineStarts source, checkpoints⟩ := rfl
  rw [opened, mapM_eq_some_map each, Option.bind_some, listed]

theorem last_before {Item : Type} {items : List Item} {before : Item → Bool} {first : Item}
    (ordered : items.Pairwise fun one other => before other = true → before one = true)
    (head : items.head? = some first) (holds : before first = true) :
    ∃ last item, partitionPoint before items = last + 1 ∧ items[last]? = some item ∧
      before item = true ∧
      ∀ (later : Nat) other, items[later]? = some other → before other = true → later ≤ last := by
  have isBefore {place : Nat} {item : Item} (found : items[place]? = some item) :
      before item = true ↔ place < partitionPoint before items :=
    Units.before_iff_lt_partitionPoint ordered found
  have positive : 0 < partitionPoint before items :=
    (isBefore (by rwa [← List.head?_eq_getElem?])).mp holds
  obtain ⟨last, same⟩ := Nat.exists_eq_add_of_le' positive
  have le := Units.partitionPoint_le ordered
  have found := List.getElem?_eq_getElem (show last < items.length by omega)
  refine ⟨last, _, same, found, (isBefore found).mpr (by omega), ?_⟩
  intro later other found' holds'
  have := (isBefore found').mp holds'
  omega

end Lookups

section Marks

variable {line : List Char} {fronts : List (List Char)}

structure Marked (line : List Char) (fronts : List (List Char)) : Prop where
  head : fronts.head? = some []
  front : ∀ front ∈ fronts, front <+: line
  longer : fronts.Pairwise fun one other => one.length < other.length

namespace Marked

theorem start : Marked line [[]] where
  head := rfl
  front := by
    intro front member
    rw [List.mem_singleton.mp member]
    exact List.nil_prefix
  longer := List.pairwise_singleton _ _

theorem extend (marked : Marked line fronts) (c : Char) : Marked (line ++ [c]) fronts where
  head := marked.head
  front := fun front member => (marked.front front member).trans (List.prefix_append _ _)
  longer := marked.longer

theorem push (marked : Marked line fronts) (far : fronts.getLastD [] ≠ line) :
    Marked line (fronts ++ [line]) where
  head := by
    rw [List.head?_append, marked.head]
    rfl
  front := by
    intro front member
    rcases List.mem_append.mp member with old | new
    · exact marked.front front old
    · exact List.mem_singleton.mp new ▸ List.prefix_rfl
  longer := by
    have some : fronts ≠ [] := by
      rintro rfl
      cases marked.head
    obtain ⟨earlier, last, rfl⟩ := List.eq_nil_or_concat' fronts |>.resolve_left some
    rw [List.getLastD_concat] at far
    have last_lt : last.length < line.length := by
      have inside := marked.front last (by simp)
      apply Nat.lt_of_le_of_ne inside.length_le
      exact fun same => far (inside.eq_of_length same)
    obtain ⟨-, -, before⟩ := List.pairwise_append.mp marked.longer
    apply List.pairwise_append.mpr
    refine ⟨marked.longer, List.pairwise_singleton _ _, ?_⟩
    intro front member other last_member
    rw [List.mem_singleton.mp last_member]
    rcases List.mem_append.mp member with old | new
    · exact (before front old last (List.mem_singleton_self _)).trans last_lt
    · rw [List.mem_singleton.mp new]
      exact last_lt

theorem last (marked : Marked line fronts) {width : Char → Nat} {pair : List Char → Nat × Nat} {key : Nat × Nat → Nat}
    (key_pair : ∀ front, key (pair front) = total width front) (target : Nat) :
    ∃ last front, partitionPoint (fun mark => key mark ≤ target) (fronts.map pair) = last + 1 ∧
      (fronts.map pair)[last]? = some (pair front) ∧ front <+: line ∧
      total width front ≤ target := by
  have ordered : (fronts.map pair).Pairwise fun one other =>
      decide (key other ≤ target) = true → decide (key one ≤ target) = true := by
    apply List.pairwise_map.mpr
    apply marked.longer.imp_of_mem
    intro one other member member' longer
    simp only [decide_eq_true_eq, key_pair]
    have inside : one <+: other := by
      rcases List.prefix_or_prefix_of_prefix (marked.front one member)
        (marked.front other member') with inside | inside
      · exact inside
      · exact absurd inside.length_le (Nat.not_le.mpr longer)
    exact (Measured.total_le_of_front inside).trans
  have head : (fronts.map pair).head? = some (pair []) := by
    rw [List.head?_map, marked.head]
    rfl
  have holds : decide (key (pair []) ≤ target) = true := by
    rw [key_pair]
    exact decide_eq_true (Nat.zero_le _)
  obtain ⟨last, item, point, found, before, -⟩ := last_before ordered head holds
  rw [List.getElem?_map] at found
  obtain ⟨front, among, rfl⟩ := Option.map_eq_some_iff.mp found
  rw [decide_eq_true_eq, key_pair] at before
  refine ⟨last, front, point, ?_, marked.front front (List.mem_of_getElem? among), before⟩
  rw [List.getElem?_map, among]
  rfl

end Marked

def columnOffset (front : List Char) : Nat × Nat := (total utf16 front, total utf8 front)

def offsetColumn (front : List Char) : Nat × Nat := (total utf8 front, total utf16 front)

theorem getLastD_map (pair : List Char → Nat × Nat) :
    (fronts.map pair).getLastD (pair []) = pair (fronts.getLastD []) := by
  rcases List.eq_nil_or_concat' fronts with rfl | ⟨earlier, last, rfl⟩
  · rfl
  · rw [List.map_append, List.map_singleton, List.getLastD_concat, List.getLastD_concat]

theorem ne_of_far {last : List Char} (far : total utf16 last + checkpoint ≤ total utf16 line) :
    last ≠ line := by
  rintro rfl
  rw [checkpoint] at far
  omega

theorem charIndices_append (offset : Nat) (text : List Char) (c : Char) :
    charIndices offset (text ++ [c]) = charIndices offset text ++ [(offset + total utf8 text, c)] := by
  induction text generalizing offset with
  | nil => rfl
  | cons d text ih =>
    rw [List.cons_append, charIndices, ih, charIndices, List.cons_append, Measured.total_cons,
      Nat.add_assoc]

/-- By induction on the line from its end. -/
theorem marked_fold (line : List Char) : ∃ fronts, Marked line fronts ∧
    (charIndices 0 line).foldl (fun state entry =>
      (mark state.1 state.2 entry.1, state.2 + utf16 entry.2)) ([(0, 0)], 0) =
        (fronts.map columnOffset, total utf16 line) := by
  induction line using List.reverseRecOn with
  | nil => exact ⟨[[]], .start, rfl⟩
  | append_singleton line c ih =>
    obtain ⟨fronts, marked, folded⟩ := ih
    rw [charIndices_append, List.foldl_append, folded, List.foldl_cons, List.foldl_nil,
      Measured.total_append, Nat.zero_add, mark]
    have last : (fronts.map columnOffset).getLastD (0, 0) = columnOffset (fronts.getLastD []) :=
      getLastD_map columnOffset
    dsimp only
    rw [last]
    split
    · next far =>
      refine ⟨fronts ++ [line], (marked.push (ne_of_far far)).extend c, ?_⟩
      rw [List.map_append]
      rfl
    · exact ⟨fronts, marked.extend c, rfl⟩

/-- A line's checkpoints are of fronts of it, and there are none where bytes and units agree. -/
def Valid (pair : List Char → Nat × Nat) (line : List Char) : Option (List (Nat × Nat)) → Prop
  | none => isAscii line
  | some marks => ∃ fronts, Marked line fronts ∧ marks = fronts.map pair

theorem valid_checkpointsOf (line : List Char) : Valid columnOffset line (checkpointsOf line) := by
  rw [checkpointsOf]
  split
  · next ascii => exact ascii
  · obtain ⟨fronts, marked, folded⟩ := marked_fold line
    exact ⟨fronts, marked, by rw [folded]⟩

theorem width_of_ascii {c : Char} (ascii : c.toNat < 128) : utf8 c = 1 ∧ utf16 c = 1 := by
  constructor
  · have small : c.val ≤ 127 := UInt32.le_iff_toNat_le.mpr (Nat.le_of_lt_succ ascii)
    exact if_pos small
  · rw [utf16, if_pos (by omega)]

theorem isAscii_of_append {before behind : List Char} (ascii : isAscii (before ++ behind)) :
    isAscii before := by
  rw [isAscii, List.all_append, Bool.and_eq_true] at ascii
  exact ascii.1

theorem total_of_ascii {line : List Char} (ascii : isAscii line) :
    total utf8 line = line.length ∧ total utf16 line = line.length := by
  induction line with
  | nil => exact ⟨rfl, rfl⟩
  | cons c line ih =>
    rw [isAscii, List.all_cons, Bool.and_eq_true, decide_eq_true_eq] at ascii
    obtain ⟨bytes, units⟩ := width_of_ascii ascii.1
    obtain ⟨ih_bytes, ih_units⟩ := ih ascii.2
    rw [Measured.total_cons, Measured.total_cons, bytes, units, ih_bytes, ih_units,
      List.length_cons, Nat.add_comm]
    exact ⟨rfl, rfl⟩

end Marks

section Columns

variable {passed rest : List Char}

theorem pairwise_lineStarts (source : List Char) (offset : Nat) :
    (lineStarts source).Pairwise fun one other =>
      decide (other ≤ offset) = true → decide (one ≤ offset) = true := by
  rw [lineStarts_eq]
  apply List.pairwise_map.mpr
  apply List.pairwise_lt_range.imp
  intro one other lt
  simp only [decide_eq_true_eq]
  apply Nat.le_trans
  apply Measured.total_le_of_front
  exact front_le source (Nat.le_of_lt lt)

theorem point_lineStarts (passed rest : List Char) :
    partitionPoint (fun start => start ≤ total utf8 passed) (lineStarts (passed ++ rest)) =
      (position passed).1 + 1 := by
  obtain ⟨before, behind, ends⟩ := position_spec passed rest
  have passed_eq := ends.total_eq utf8
  have head : (lineStarts (passed ++ rest)).head? = some 0 := rfl
  obtain ⟨last, start, point, found', starts, latest⟩ :=
    last_before (pairwise_lineStarts (passed ++ rest) (total utf8 passed)) head (decide_eq_true (Nat.zero_le _))
  have least : (position passed).1 ≤ last := by
    apply latest _ _ (getElem?_lineStarts ends.within)
    rw [passed_eq]
    exact decide_eq_true (Nat.le_add_right _ _)
  have most : last ≤ (position passed).1 := by
    by_contra past
    have more : (position passed).1 + 1 < (lines (passed ++ rest)).length := by
      have := (List.getElem?_eq_some_iff.mp found').1
      rw [length_lineStarts] at this
      omega
    have goes_on : behind ≠ [] := by
      rintro rfl
      have feed := mem_line ends.found more
      rw [List.append_nil] at feed
      exact ends.clean feed
    have next : total utf8 (front (passed ++ rest) ((position passed).1 + 1)) ≤ total utf8 passed := by
      have inside : front (passed ++ rest) ((position passed).1 + 1) <+: front (passed ++ rest) last :=
        front_le _ (by omega)
      have bound := (List.getElem?_eq_some_iff.mp found').1
      rw [length_lineStarts] at bound
      rw [getElem?_lineStarts bound, Option.some.injEq] at found'
      rw [decide_eq_true_eq, ← found'] at starts
      exact (Measured.total_le_of_front inside).trans starts
    have wide := Measured.total_pos utf8_pos goes_on
    rw [front_succ ends.found, Measured.total_append, Measured.total_append, passed_eq] at next
    omega
  omega

theorem column_of_marked {before behind : List Char} {fronts : List (List Char)} {index : Nat}
    (split : passed = front (passed ++ rest) index ++ before)
    (marked : Marked (before ++ behind) fronts) {pair : List Char → Nat × Nat}
    {key : Nat × Nat → Nat} (key_pair : ∀ front, key (pair front) = total utf8 front) :
    ∃ last front' more, partitionPoint (fun mark => key mark ≤ total utf8 before) (fronts.map pair) =
        last + 1 ∧
      (fronts.map pair)[last]? = some (pair front') ∧ before = front' ++ more ∧
      slice utf8 (passed ++ rest) (total utf8 (front (passed ++ rest) index) + total utf8 front')
        (total utf8 passed) = some more := by
  obtain ⟨last, front', point, found', inside, le⟩ := marked.last key_pair (total utf8 before)
  obtain ⟨more, same⟩ :=
    Measured.prefix_of_total_le utf8_pos inside (List.prefix_append before behind) le
  refine ⟨last, front', more, point, found', same.symm, ?_⟩
  have parts : passed = (front (passed ++ rest) index ++ front') ++ more := by
    rw [List.append_assoc, same]
    exact split
  have sliced := Measured.slice_append utf8_pos (front (passed ++ rest) index ++ front') more rest
  rw [← parts, ← Measured.total_append, ← parts, Measured.total_append] at sliced
  exact sliced

end Columns

section Agreement

theorem getElem?_checkpoints {source line : List Char} {index : Nat}
    (found : (lines source)[index]? = some line) :
    ((lines source).map checkpointsOf)[index]? = some (checkpointsOf line) := by
  rw [List.getElem?_map, found]
  rfl

theorem checkedSub_add (part more : Nat) : checkedSub (part + more) part = some more := by
  rw [checkedSub, if_pos (Nat.le_add_right _ _), Nat.add_sub_cancel_left]

theorem lineCol_eq (passed rest : List Char) :
    (Utf16LineIndex.new (passed ++ rest)).bind (fun index => index.lineCol (total utf8 passed)) =
      some (UInt32.ofNat (position passed).1, UInt32.ofNat (position passed).2) := by
  obtain ⟨before, behind, ends⟩ := position_spec passed rest
  have short : min (total utf8 passed) (total utf8 (passed ++ rest)) = total utf8 passed :=
    Nat.min_eq_left (Measured.total_le_of_front (List.prefix_append _ _))
  have inside : checkedSub (total utf8 passed)
      (total utf8 (front (passed ++ rest) (position passed).1)) = some (total utf8 before) := by
    rw [ends.total_eq, checkedSub_add]
  have valid := valid_checkpointsOf (before ++ behind)
  rw [new_eq, Option.bind_some, Utf16LineIndex.lineCol]
  simp only [short, point_lineStarts, Nat.add_comm _ 1, checkedSub_add,
    getElem?_lineStarts ends.within, inside, getElem?_checkpoints ends.found, Option.bind_eq_bind,
    Option.bind_some]
  cases marks_eq : checkpointsOf (before ++ behind) with
  | none =>
    rw [marks_eq] at valid
    obtain ⟨bytes, units⟩ := total_of_ascii (isAscii_of_append valid)
    rw [ends.column, bytes, units]
  | some marks =>
    rw [marks_eq] at valid
    obtain ⟨fronts, marked, rfl⟩ := valid
    obtain ⟨last, front', more, point, found', parts, sliced⟩ :=
      column_of_marked ends.split marked fun front => show (columnOffset front).2 = total utf8 front from rfl
    simp only [point, Nat.add_comm _ 1, checkedSub_add, found', columnOffset, sliced, Option.bind_some]
    rw [ends.column, parts, Measured.total_append]

theorem isLine_cons {c : Char} {line : List Char} (ends : IsLine (c :: line)) (other : line ≠ []) :
    c ≠ '\n' ∧ IsLine line := by
  rw [IsLine, List.dropLast_cons_of_ne_nil other, List.mem_cons, not_or] at ends
  exact ⟨Ne.symm ends.1, ends.2⟩

theorem utf16ColToByteFrom_eq (target column offset : Nat) (line : List Char) :
    utf16ColToByteFrom target column offset line = offset + utf16ColToByte line (target - column) := by
  induction line generalizing target column offset with
  | nil => rfl
  | cons c line ih =>
    rw [utf16ColToByteFrom, utf16ColToByte, utf16ColToByteFrom]
    by_cases reached : target ≤ column
    · rw [if_pos reached, if_pos (by omega), Nat.add_zero]
    · rw [if_neg reached, if_neg (by omega), ih, ih (target - column)]
      have rest : target - (column + utf16 c) = target - column - (0 + utf16 c) := by omega
      rw [rest]
      omega

theorem utf16ColToByte_zero (line : List Char) : utf16ColToByte line 0 = 0 := by
  cases line <;> rfl

theorem utf16ColToByte_cons (c : Char) (line : List Char) (target : Nat) :
    utf16ColToByte (c :: line) (target + 1) =
      utf8 c + utf16ColToByte line (target + 1 - utf16 c) := by
  rw [utf16ColToByte, utf16ColToByteFrom, if_neg (Nat.not_succ_le_zero target),
    utf16ColToByteFrom_eq]
  simp

theorem utf16ColToByte_append {front : List Char} (rest : List Char) {target : Nat}
    (le : total utf16 front ≤ target) :
    utf16ColToByte (front ++ rest) target =
      total utf8 front + utf16ColToByte rest (target - total utf16 front) := by
  induction front generalizing target with
  | nil => simp
  | cons c front ih =>
    have positive := utf16_pos c
    rw [Measured.total_cons] at le
    obtain ⟨target, rfl⟩ : ∃ earlier, target = earlier + 1 := ⟨target - 1, by omega⟩
    rw [List.cons_append, utf16ColToByte_cons, ih (by omega), Measured.total_cons,
      Measured.total_cons, Nat.sub_sub, Nat.add_assoc]

theorem total_walk_line {line : List Char} (ends : IsLine line) (column : Nat) :
    total utf8 (walk line 0 column) = utf16ColToByte line column := by
  induction line generalizing column with
  | nil => rfl
  | cons c line ih =>
    cases column with
    | zero => rw [utf16ColToByte_zero, walk, Measured.total_nil]
    | succ column =>
      rw [walk, utf16ColToByte_cons]
      by_cases last : line = []
      · subst last
        have nothing : utf16ColToByte [] (column + 1 - utf16 c) = 0 := rfl
        rw [nothing]
        split
        · next feed => rw [feed]; rfl
        · rw [Measured.total_cons]
          rfl
      · obtain ⟨other, inner⟩ := isLine_cons ends last
        rw [if_neg other, Measured.total_cons, ih inner]

theorem walk_line {text line : List Char} {index : Nat} (found : (lines text)[index]? = some line)
    (column : Nat) : walk text index column = front text index ++ walk line 0 column := by
  induction text generalizing index line column with
  | nil =>
    cases index with
    | zero =>
      cases found
      rfl
    | succ index => cases found
  | cons c text ih =>
    by_cases same : c = '\n'
    · subst same
      rw [lines, if_pos rfl] at found
      cases index with
      | zero =>
        cases found
        rw [front_zero, List.nil_append]
        cases column <;> rfl
      | succ index =>
        rw [walk, if_pos rfl, front_newline, List.cons_append, ih found]
    · rw [getElem?_lines_cons same] at found
      cases index with
      | zero =>
        rw [if_pos rfl] at found
        obtain ⟨line, found', rfl⟩ := Option.map_eq_some_iff.mp found
        rw [front_zero, List.nil_append]
        cases column with
        | zero => rfl
        | succ column =>
          have inner := ih found' (column + 1 - utf16 c)
          rw [front_zero, List.nil_append] at inner
          rw [walk, walk, if_neg same, if_neg same, inner]
      | succ index =>
        rw [if_neg (Nat.succ_ne_zero index)] at found
        rw [walk, if_neg same, front_cons same, List.cons_append, ih found]

theorem walk_past {text : List Char} {index : Nat} (past : (lines text).length ≤ index)
    (column : Nat) : walk text index column = text := by
  induction text generalizing index with
  | nil => rfl
  | cons c text ih =>
    cases index with
    | zero =>
      have some := List.length_pos_iff.mpr (lines_ne_nil (c :: text))
      omega
    | succ index =>
      rw [walk]
      split
      · next same =>
        rw [lines, if_pos same] at past
        rw [ih (Nat.le_of_succ_le_succ past)]
      · next other =>
        rw [length_lines_cons other] at past
        rw [ih past]

theorem utf16ColToByte_ascii {line : List Char} (ascii : isAscii line) (column : Nat) :
    utf16ColToByte line column = min column (total utf8 line) := by
  induction line generalizing column with
  | nil => exact (Nat.min_zero column).symm
  | cons c line ih =>
    rw [isAscii, List.all_cons, Bool.and_eq_true, decide_eq_true_eq] at ascii
    obtain ⟨bytes, units⟩ := width_of_ascii ascii.1
    cases column with
    | zero => exact (Nat.zero_min _).symm
    | succ column =>
      rw [utf16ColToByte_cons, units, ih ascii.2, Measured.total_cons, bytes]
      omega

theorem byteOffset_eq (source : List Char) (line column : Nat) :
    (Utf16LineIndex.new source).bind (fun index => index.byteOffset line column) =
      some (total utf8 (walk source line column)) := by
  rw [new_eq, Option.bind_some, Utf16LineIndex.byteOffset]
  by_cases within : line < (lines source).length
  · have found := List.getElem?_eq_getElem within
    have sliced : ∀ before behind, (lines source)[line] = before ++ behind →
        slice utf8 source (total utf8 (front source line) + total utf8 before)
          (total utf8 (front source line) + total utf8 (lines source)[line]) = some behind :=
      fun _ _ parts => slice_line found parts
    have ends := isLine found
    have valid := valid_checkpointsOf (lines source)[line]
    simp only [getElem?_lineStarts within, Utf16LineIndex.lineEnd, lineEnd_eq found,
      getElem?_checkpoints found, checkedSub_add, Option.bind_eq_bind, Option.bind_some]
    rw [walk_line found, Measured.total_append]
    cases marks_eq : checkpointsOf (lines source)[line] with
    | none =>
      rw [marks_eq] at valid
      rw [total_walk_line ends, utf16ColToByte_ascii valid]
    | some marks =>
      rw [marks_eq] at valid
      obtain ⟨fronts, marked, rfl⟩ := valid
      obtain ⟨last, front', point, found', ⟨behind, parts⟩, le⟩ :=
        marked.last (fun front => show (columnOffset front).1 = total utf16 front from rfl) column
      have target : checkedSub column (total utf16 front') = some (column - total utf16 front') :=
        if_pos le
      simp only [point, Nat.add_comm _ 1, checkedSub_add, found', columnOffset,
        sliced front' behind parts.symm, target, Option.bind_some]
      rw [total_walk_line ends, ← parts, utf16ColToByte_append behind le, Nat.add_assoc]
  · have past : (lineStarts source)[line]? = none := by
      rw [List.getElem?_eq_none_iff, length_lineStarts]
      exact Nat.le_of_not_lt within
    simp only [past]
    rw [walk_past (Nat.le_of_not_lt within)]

theorem walk_position (passed rest : List Char) :
    walk (passed ++ rest) (position passed).1 (position passed).2 = passed := by
  obtain ⟨before, behind, ⟨found, split, clean, column⟩⟩ := position_spec passed rest
  have inner : walk (before ++ behind) 0 (total utf16 before) = before := by
    clear found split column
    induction before with
    | nil => cases behind <;> rfl
    | cons c before ih =>
      rw [List.mem_cons, not_or] at clean
      have positive := utf16_pos c
      obtain ⟨units, same⟩ : ∃ units, total utf16 (c :: before) = units + 1 :=
        ⟨total utf16 (c :: before) - 1, by rw [Measured.total_cons]; omega⟩
      have rest : units + 1 - utf16 c = total utf16 before := by
        rw [Measured.total_cons] at same
        omega
      rw [same, List.cons_append, walk, if_neg (Ne.symm clean.1), rest, ih clean.2]
  rw [walk_line found, column, inner, ← split]

end Agreement

section Scanning

def startsOf (width : Char → Nat) (closed : List (List Char)) : List Nat :=
  (List.range (closed.length + 1)).map fun line => total width (closed.take line).flatten

theorem startsOf_push (width : Char → Nat) (closed : List (List Char)) (line : List Char) :
    startsOf width (closed ++ [line]) =
      startsOf width closed ++ [total width (closed ++ [line]).flatten] := by
  rw [startsOf, startsOf, List.length_append, List.length_singleton,
    List.range_succ, List.map_append, List.map_singleton]
  congr 1
  · apply List.map_congr_left
    intro place member
    have within := List.mem_range.mp member
    rw [List.take_append_of_le_length (by omega)]
  · rw [List.take_of_length_le (by simp)]

theorem lines_append {text last : List Char} {closed : List (List Char)}
    (same : lines text = closed ++ [last]) (later : List Char) :
    lines (text ++ later) = closed ++ (last ++ (lines later).headD []) :: (lines later).tail := by
  induction text generalizing closed last with
  | nil =>
    obtain ⟨rfl, rfl⟩ : closed = [] ∧ last = [] := by
      cases closed with
      | nil => exact ⟨rfl, (List.cons.inj same).1.symm⟩
      | cons line closed =>
        have length := congrArg List.length same
        simp [lines] at length
    exact lines_eq_cons later
  | cons c text ih =>
    rw [List.cons_append, lines]
    rw [lines] at same
    by_cases feed : c = '\n'
    · rw [if_pos feed] at same ⊢
      cases closed with
      | nil => exact absurd (List.cons.inj same).2 (lines_ne_nil text)
      | cons line closed =>
        obtain ⟨head, tail⟩ := List.cons.inj same
        rw [ih tail, head]
        rfl
    · rw [if_neg feed] at same ⊢
      cases closed with
      | nil =>
        obtain ⟨head, tail⟩ := List.cons.inj same
        have inner : lines text = [] ++ [(lines text).headD []] := by
          conv_lhs => rw [lines_eq_cons, tail]
          rfl
        rw [ih inner, ← head]
        rfl
      | cons line closed =>
        obtain ⟨head, tail⟩ := List.cons.inj same
        have inner : lines text = ((lines text).headD [] :: closed) ++ [last] := by
          conv_lhs => rw [lines_eq_cons, tail]
          rfl
        rw [ih inner, ← head]
        rfl

/-- What is known behind some characters. -/
structure Scans (passed : List Char) (scanned : Scanned) (closed : List (List Char))
    (last : List Char) : Prop where
  lines_eq : lines passed = closed ++ [last]
  starts_eq : scanned.lineStarts = startsOf utf8 closed
  units_eq : scanned.utf16BeforeLine = startsOf utf16 closed
  checkpoints : List.Forall₂ (Valid offsetColumn) closed scanned.checkpoints
  marks : Valid offsetColumn last scanned.marks
  utf16_eq : scanned.utf16 = total utf16 passed
  column_eq : scanned.column = total utf16 last
  start_eq : scanned.lineStart = total utf8 closed.flatten

theorem scans_initial : Scans [] .initial [] [] :=
  ⟨rfl, rfl, rfl, .nil, rfl, rfl, rfl, rfl⟩

theorem isAscii_append {line : List Char} (ascii : isAscii line) {c : Char} (small : c.toNat < 128) :
    isAscii (line ++ [c]) := by
  rw [isAscii, List.all_append, Bool.and_eq_true]
  exact ⟨ascii, by simpa using small⟩

theorem valid_marksAt {passed last : List Char} {scanned : Scanned} {closed : List (List Char)}
    (scans : Scans passed scanned closed last) (c : Char) :
    Valid offsetColumn (last ++ [c]) (scanned.marksAt (total utf8 passed) c) := by
  have flatten : passed = closed.flatten ++ last := by
    rw [← flatten_lines passed, scans.lines_eq, List.flatten_append]
    simp
  have offset : total utf8 passed - scanned.lineStart = total utf8 last := by
    rw [scans.start_eq, flatten, Measured.total_append, Nat.add_sub_cancel_left]
  have pushed : ∀ fronts, Marked last fronts → Valid offsetColumn (last ++ [c])
      (some (if ((fronts.map offsetColumn).getLastD (0, 0)).2 + checkpoint ≤ scanned.column then
        fronts.map offsetColumn ++ [(total utf8 passed - scanned.lineStart, scanned.column)]
      else fronts.map offsetColumn)) := by
    intro fronts marked
    have final : (fronts.map offsetColumn).getLastD (0, 0) = offsetColumn (fronts.getLastD []) :=
      getLastD_map offsetColumn
    rw [final, offset, scans.column_eq]
    split
    · next far =>
      refine ⟨fronts ++ [last], (marked.push (ne_of_far far)).extend c, ?_⟩
      rw [List.map_append]
      rfl
    · exact ⟨fronts, marked.extend c, rfl⟩
  have valid := scans.marks
  rw [Scanned.marksAt]
  cases marks_eq : scanned.marks with
  | none =>
    rw [marks_eq] at valid
    by_cases small : c.toNat < 128
    · rw [if_neg (by simp [small])]
      exact isAscii_append valid small
    · rw [if_pos ⟨small, rfl⟩]
      exact pushed [[]] .start
  | some marks =>
    rw [marks_eq] at valid
    obtain ⟨fronts, marked, rfl⟩ := valid
    rw [if_neg (by simp)]
    exact pushed fronts marked

theorem scans_pass {passed last : List Char} {scanned : Scanned} {closed : List (List Char)}
    (scans : Scans passed scanned closed last) (c : Char) :
    ∃ closed' last', Scans (passed ++ [c]) (scanned.pass (total utf8 passed, c)) closed' last' := by
  have valid := valid_marksAt scans c
  have flatten : closed.flatten ++ last = passed := by
    rw [← flatten_lines passed, scans.lines_eq, List.flatten_append]
    simp
  have units : scanned.utf16 + utf16 c = total utf16 (passed ++ [c]) := by
    rw [scans.utf16_eq, Measured.total_append]
    rfl
  have bytes : total utf8 passed + utf8 c = total utf8 (passed ++ [c]) := by
    rw [Measured.total_append]
    rfl
  rw [Scanned.pass]
  by_cases feed : c = '\n'
  · subst feed
    have whole : (closed ++ [last ++ ['\n']]).flatten = passed ++ ['\n'] := by
      rw [← flatten, List.flatten_append]
      simp
    refine ⟨closed ++ [last ++ ['\n']], [], ?_, ?_, ?_, ?_, ?_, units, rfl, ?_⟩
    · rw [lines_append scans.lines_eq, List.append_assoc]
      rfl
    · rw [startsOf_push, whole, ← bytes, ← scans.starts_eq]
      rfl
    · rw [startsOf_push, whole, ← units, ← scans.units_eq]
      rfl
    · exact List.rel_append scans.checkpoints (.cons valid .nil)
    · exact rfl
    · rw [whole, ← bytes]
      rfl
  · dsimp only
    rw [if_neg feed]
    refine ⟨closed, last ++ [c], ?_, scans.starts_eq, scans.units_eq, scans.checkpoints, valid,
      units, ?_, scans.start_eq⟩
    · rw [lines_append scans.lines_eq, lines, if_neg feed]
      rfl
    · dsimp only
      rw [scans.column_eq, Measured.total_append]
      rfl

/-- By induction on the source from its end. -/
theorem scans (source : List Char) : ∃ closed last,
    Scans source ((charIndices 0 source).foldl Scanned.pass .initial) closed last := by
  induction source using List.reverseRecOn with
  | nil => exact ⟨[], [], scans_initial⟩
  | append_singleton source c ih =>
    obtain ⟨closed, last, scans⟩ := ih
    rw [charIndices_append, List.foldl_append, Nat.zero_add]
    exact scans_pass scans c

theorem sourcePositions_spec (source : List Char) :
    (SourcePositions.new source).lineStarts = lineStarts source ∧
      (∀ index line, (lines source)[index]? = some line →
        (SourcePositions.new source).utf16BeforeLine[index]? = some (total utf16 (front source index)) ∧
        ∃ marks, (SourcePositions.new source).checkpoints[index]? = some marks ∧
          Valid offsetColumn line marks) := by
  obtain ⟨closed, last, scans⟩ := scans source
  have count : (lines source).length = closed.length + 1 := by
    rw [scans.lines_eq]
    simp
  have fronts : ∀ index, index < closed.length + 1 →
      (closed.take index).flatten = front source index := by
    intro index within
    rw [front, scans.lines_eq, List.take_append_of_le_length (by omega)]
  constructor
  · rw [lineStarts_eq, count]
    refine scans.starts_eq.trans (List.map_congr_left fun index member => ?_)
    rw [fronts index (List.mem_range.mp member)]
  · intro index line found
    have within : index < closed.length + 1 := by
      rw [← count]
      exact (List.getElem?_eq_some_iff.mp found).1
    constructor
    · have held := congrArg (·[index]?) scans.units_eq
      refine held.trans ?_
      rw [startsOf, List.getElem?_map, List.getElem?_range within, Option.map_some, fronts index within]
    · have all := List.rel_append scans.checkpoints (.cons scans.marks .nil)
      dsimp only at all
      rw [← scans.lines_eq] at all
      obtain ⟨bound, rfl⟩ := List.getElem?_eq_some_iff.mp found
      have bound' := all.length_eq ▸ bound
      exact ⟨_, List.getElem?_eq_getElem bound', all.get bound bound'⟩

theorem locate_eq (passed rest : List Char) :
    (SourcePositions.new (passed ++ rest)).locate (passed ++ rest) (total utf8 passed) =
      some (position passed) := by
  obtain ⟨before, behind, ends⟩ := position_spec passed rest
  obtain ⟨starts, each⟩ := sourcePositions_spec (passed ++ rest)
  obtain ⟨-, marks, marks_eq, valid⟩ := each _ _ ends.found
  have inside : checkedSub (total utf8 passed)
      (total utf8 (front (passed ++ rest) (position passed).1)) = some (total utf8 before) := by
    rw [ends.total_eq, checkedSub_add]
  rw [SourcePositions.locate]
  simp only [starts, point_lineStarts, Nat.add_comm _ 1, checkedSub_add,
    getElem?_lineStarts ends.within, inside, marks_eq, Option.bind_eq_bind, Option.bind_some]
  cases marks with
  | none =>
    obtain ⟨bytes, units⟩ := total_of_ascii (isAscii_of_append valid)
    dsimp only
    rw [bytes, ← units, ← ends.column]
  | some marks =>
    obtain ⟨fronts, marked, rfl⟩ := valid
    obtain ⟨last, front', more, point, found', parts, sliced⟩ :=
      column_of_marked ends.split marked fun front => show (offsetColumn front).1 = total utf8 front from rfl
    simp only [point, Nat.add_comm _ 1, checkedSub_add, found', offsetColumn, sliced, Option.bind_some]
    rw [← Measured.total_append, ← parts, ← ends.column]

theorem utf16Offset_eq (passed rest : List Char) :
    (SourcePositions.new (passed ++ rest)).utf16Offset (passed ++ rest) (total utf8 passed) =
      some (total utf16 passed) := by
  obtain ⟨before, behind, ends⟩ := position_spec passed rest
  obtain ⟨-, each⟩ := sourcePositions_spec (passed ++ rest)
  obtain ⟨units, -⟩ := each _ _ ends.found
  rw [SourcePositions.utf16Offset, locate_eq]
  simp only [units, Option.bind_eq_bind, Option.bind_some]
  rw [ends.column, ends.total_eq]

end Scanning

end Supercov.Js.Positions
