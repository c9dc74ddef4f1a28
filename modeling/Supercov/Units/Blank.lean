import Supercov.Units.Lookup

/-!
# What erasing blanks leaves of the strings

Each line gives up one stretch: all of a blank line, or the blanks that end any other.  A
stretch that belongs to a string stays.  The string is searched for by halving, which finds
it where no string is nested in one before it.
-/

namespace Supercov.Units

def stretch (lineStart : Nat) (line : Text) : Span :=
  let content := line.takeWhile (· ≠ newline)
  let trimmed := content.length - blanks content.reverse
  if trimmed = 0 then (lineStart, lineStart + line.length)
  else (lineStart + trimmed, lineStart + content.length)

def stretches : Nat → List Text → List Span
  | _, [] => []
  | lineStart, line :: lines => stretch lineStart line :: stretches (lineStart + line.length) lines

def Among (span : Span) (offset : Nat) : Prop :=
  span.1 ≤ offset ∧ offset < span.2

instance (span : Span) (offset : Nat) : Decidable (Among span offset) :=
  inferInstanceAs (Decidable (_ ∧ _))

/-! ### Marks -/

/-- Whether each byte of a line is kept. -/
def lineMarks (strings : List Span) (lineStart : Nat) (line : Text) : List Bool :=
  let span := stretch lineStart line
  if inside strings span.1 span.2 then List.replicate line.length true
  else
    List.replicate (span.1 - lineStart) true ++ List.replicate (span.2 - span.1) false ++
      List.replicate (lineStart + line.length - span.2) true

def marksOf (strings : List Span) : Nat → List Text → List Bool
  | _, [] => []
  | lineStart, line :: lines =>
    lineMarks strings lineStart line ++ marksOf strings (lineStart + line.length) lines

/-- The places of bytes that are kept where marked, the first at `next`. -/
def placesOf : Nat → List Bool → List Nat
  | _, [] => []
  | next, mark :: marks => next :: placesOf (next + mark.toNat) marks

def markedOf (text : Text) (marks : List Bool) : Text :=
  ((text.zip marks).filter Prod.snd).map Prod.fst

structure Kept.Marked (kept : Kept) (text : Text) (marks : List Bool) : Prop where
  length : marks.length = text.length
  text : kept.text = markedOf text marks
  places : kept.places = placesOf 0 marks

section Marks

variable {kept : Kept} {text : Text} {marks : List Bool}

theorem placesOf_append (next : Nat) (marks later : List Bool) :
    placesOf next (marks ++ later) = placesOf next marks ++ placesOf (next + marks.count true) later := by
  induction marks generalizing next with
  | nil => rfl
  | cons mark marks ih => cases mark <;> simp [placesOf, ih, Nat.add_comm, Nat.add_left_comm]

theorem placesOf_true (next count : Nat) :
    placesOf next (List.replicate count true) = List.range' next count := by
  induction count generalizing next with
  | zero => rfl
  | succ count ih => simp [List.replicate_succ, placesOf, ih, List.range']

theorem placesOf_false (next count : Nat) :
    placesOf next (List.replicate count false) = List.replicate count next := by
  induction count with
  | zero => rfl
  | succ count ih => simp [List.replicate_succ, placesOf, ih]

theorem length_markedOf {text : Text} {marks : List Bool} (length : marks.length = text.length) :
    (markedOf text marks).length = marks.count true := by
  induction text generalizing marks with
  | nil =>
    obtain rfl := List.eq_nil_of_length_eq_zero length
    rfl
  | cons byte text ih =>
    cases marks with
    | nil => cases length
    | cons mark marks =>
      have ih := ih (Nat.succ.inj length)
      cases mark <;> simpa [markedOf] using ih

theorem markedOf_append {later : Text} {marks' : List Bool} (length : marks.length = text.length) :
    markedOf (text ++ later) (marks ++ marks') = markedOf text marks ++ markedOf later marks' := by
  simp [markedOf, List.zip_append length.symm]

theorem markedOf_true (text : Text) : markedOf text (List.replicate text.length true) = text := by
  induction text with
  | nil => rfl
  | cons byte text ih => simpa [markedOf, List.replicate_succ] using ih

theorem markedOf_false (text : Text) : markedOf text (List.replicate text.length false) = [] := by
  induction text with
  | nil => rfl
  | cons byte text ih => simpa [markedOf, List.replicate_succ] using ih

namespace Kept.Marked

theorem push (marked : kept.Marked text marks) (later : Text) :
    (kept.push later).Marked (text ++ later) (marks ++ List.replicate later.length true) where
  length := by simp [marked.length]
  text := by rw [markedOf_append marked.length, markedOf_true, ← marked.text]; rfl
  places := by
    rw [placesOf_append, placesOf_true, ← marked.places, Nat.zero_add,
      ← length_markedOf marked.length, ← marked.text]
    rfl

theorem drop (marked : kept.Marked text marks) (later : Text) :
    (kept.drop later.length []).Marked (text ++ later)
      (marks ++ List.replicate later.length false) where
  length := by simp [marked.length]
  text := by rw [markedOf_append marked.length, markedOf_false, ← marked.text]; rfl
  places := by
    rw [placesOf_append, placesOf_false, ← marked.places, Nat.zero_add,
      ← length_markedOf marked.length, ← marked.text]
    rfl

end Kept.Marked

end Marks

/-! ### One line, and all of them -/

section Lines

variable {strings : List Span} {kept : Kept} {text : Text} {marks : List Bool}

theorem content_append (line : Text) :
    line.takeWhile (· ≠ newline) ++ line.drop (line.takeWhile (· ≠ newline)).length = line :=
  List.prefix_iff_eq_append.mp (List.takeWhile_prefix _)

theorem eraseLine_marked (strings : List Span) (lineStart : Nat) (marked : kept.Marked text marks) (line : Text) :
    (eraseLine strings (kept, lineStart) line).1.Marked (text ++ line)
      (marks ++ lineMarks strings lineStart line) := by
  have pushed := marked.push line
  have dropped := marked.drop line
  have whole := content_append line
  unfold eraseLine lineMarks stretch
  dsimp only
  generalize line.takeWhile (· ≠ newline) = content at whole ⊢
  generalize line.drop content.length = ending at whole ⊢
  generalize trims : content.length - blanks content.reverse = trimmed
  rcases Nat.eq_zero_or_pos trimmed with rfl | positive
  · simp only [if_true]
    cases owned : inside strings lineStart (lineStart + line.length) with
    | true => simpa using pushed
    | false =>
      rcases Nat.eq_zero_or_pos line.length with none | some
      · simpa [none] using pushed
      · simpa [some] using dropped
  · have nonzero : trimmed ≠ 0 := by omega
    simp only [if_neg nonzero]
    cases owned : inside strings (lineStart + trimmed) (lineStart + content.length) with
    | true => simpa using pushed
    | false =>
      have le : trimmed ≤ content.length := trims ▸ Nat.sub_le ..
      have behind : lineStart + line.length - (lineStart + content.length) = ending.length := by
        rw [← whole, List.length_append]
        omega
      have before : lineStart + trimmed - lineStart = (content.take trimmed).length := by
        rw [List.length_take]
        omega
      have between : lineStart + content.length - (lineStart + trimmed) =
          (content.drop trimmed).length := by
        rw [List.length_drop]
        omega
      simp only [Bool.false_eq_true, if_false, not_false_iff, and_true, before, between, behind]
      split
      · have parts := ((marked.push (content.take trimmed)).drop (content.drop trimmed)).push ending
        have joined : content.take trimmed ++ (content.drop trimmed ++ ending) = line := by
          rw [← List.append_assoc, List.take_append_drop, whole]
        simp only [List.append_assoc] at parts ⊢
        rw [joined] at parts
        simpa only [List.length_drop] using parts
      · next full =>
        have none : content.drop trimmed = [] := List.drop_eq_nil_of_le (by omega)
        have all : content.take trimmed = content := List.take_of_length_le (by omega)
        rw [none, all, List.length_nil, List.replicate_zero, List.append_nil,
          List.replicate_append_replicate, ← List.length_append, whole]
        exact pushed

theorem eraseLine_next (strings : List Span) (kept : Kept) (lineStart : Nat) (line : Text) :
    (eraseLine strings (kept, lineStart) line).2 = lineStart + line.length := by
  unfold eraseLine
  dsimp only
  split_ifs <;> rfl

theorem foldl_eraseLine_marked (strings : List Span) (lineStart : Nat) (marked : kept.Marked text marks)
    (lines : List Text) :
    (lines.foldl (eraseLine strings) (kept, lineStart)).1.Marked (text ++ lines.flatten)
      (marks ++ marksOf strings lineStart lines) := by
  induction lines generalizing kept text marks lineStart with
  | nil => simpa [marksOf] using marked
  | cons line lines ih =>
    have ih := ih (lineStart + line.length) (eraseLine_marked strings lineStart marked line)
    have next : eraseLine strings (kept, lineStart) line =
        ((eraseLine strings (kept, lineStart) line).1, lineStart + line.length) :=
      Prod.ext rfl (eraseLine_next ..)
    rw [List.foldl_cons, List.flatten_cons, marksOf, ← List.append_assoc, ← List.append_assoc, next]
    exact ih

end Lines

/-! ### What the marks say -/

section Said

variable {strings : List Span} {text : Text} {marks : List Bool} {offset : Nat}

theorem getElem?_placesOf (next : Nat) (marks : List Bool) (offset : Nat) :
    (placesOf next marks)[offset]? =
      if offset < marks.length then some (next + (marks.take offset).count true) else none := by
  induction marks generalizing next offset with
  | nil => simp [placesOf]
  | cons mark marks ih =>
    cases offset with
    | zero => simp [placesOf]
    | succ offset =>
      rw [placesOf, List.getElem?_cons_succ, ih]
      cases mark <;> simp [Nat.add_assoc, Nat.add_comm 1]

theorem getElem?_markedOf (length : marks.length = text.length) (kept : marks[offset]? = some true) :
    (markedOf text marks)[(marks.take offset).count true]? = text[offset]? := by
  induction text generalizing marks offset with
  | nil => simp [List.eq_nil_of_length_eq_zero length] at kept
  | cons byte text ih =>
    cases marks with
    | nil => cases length
    | cons mark marks =>
      cases offset with
      | zero =>
        obtain rfl := Option.some.inj kept
        simp [markedOf]
      | succ offset =>
        have ih := ih (Nat.succ.inj length) kept
        cases mark <;> simpa [markedOf] using ih

theorem stretch_within (lineStart : Nat) (line : Text) :
    lineStart ≤ (stretch lineStart line).1 ∧
      (stretch lineStart line).1 ≤ (stretch lineStart line).2 ∧
      (stretch lineStart line).2 ≤ lineStart + line.length := by
  have within : (line.takeWhile (· ≠ newline)).length ≤ line.length :=
    (List.takeWhile_sublist _).length_le
  unfold stretch
  dsimp only
  split <;> omega

theorem stretches_ge {lineStart : Nat} {lines : List Text} {span : Span}
    (member : span ∈ stretches lineStart lines) : lineStart ≤ span.1 := by
  induction lines generalizing lineStart with
  | nil => cases member
  | cons line lines ih =>
    rcases List.mem_cons.mp member with rfl | member
    · exact (stretch_within lineStart line).1
    · exact (Nat.le_add_right ..).trans (ih member)

theorem length_lineMarks (strings : List Span) (lineStart : Nat) (line : Text) :
    (lineMarks strings lineStart line).length = line.length := by
  obtain ⟨starts, ordered, ends⟩ := stretch_within lineStart line
  unfold lineMarks
  dsimp only
  split
  · simp
  · simp only [List.length_append, List.length_replicate]
    omega

theorem lineMarks_eq_false {lineStart : Nat} {line : Text} :
    (lineMarks strings lineStart line)[offset]? = some false ↔
      Among (stretch lineStart line) (lineStart + offset) ∧
        ¬ inside strings (stretch lineStart line).1 (stretch lineStart line).2 := by
  obtain ⟨starts, ordered, ends⟩ := stretch_within lineStart line
  unfold lineMarks Among
  dsimp only
  split
  · next owned => simp [List.getElem?_replicate, owned]
  · next owned =>
    simp only [owned, List.getElem?_append, List.getElem?_replicate,
      List.length_append, List.length_replicate]
    split_ifs <;> simp <;> omega

theorem marksOf_eq_false {lineStart : Nat} {lines : List Text} :
    (marksOf strings lineStart lines)[offset]? = some false ↔
      ∃ span ∈ stretches lineStart lines, Among span (lineStart + offset) ∧
        ¬ inside strings span.1 span.2 := by
  induction lines generalizing lineStart offset with
  | nil => simp [marksOf, stretches]
  | cons line lines ih =>
    have length := length_lineMarks strings lineStart line
    rw [marksOf, stretches, List.exists_mem_cons_iff]
    rcases Nat.lt_or_ge offset line.length with lt | ge
    · rw [List.getElem?_append_left (by omega), lineMarks_eq_false, iff_self_or]
      rintro ⟨span, member, among, -⟩
      exact absurd among.1 (by have := stretches_ge member; omega)
    · rw [List.getElem?_append_right (by omega), length, ih, or_iff_right]
      · rw [show lineStart + line.length + (offset - line.length) = lineStart + offset by omega]
      · rintro ⟨among, -⟩
        have := stretch_within lineStart line
        exact absurd among.2 (by omega)

end Said

/-! ### The strings -/

/-- A byte is kept where the one behind it has a later place. -/
def Kept.Survives (kept : Kept) (offset : Nat) : Prop :=
  kept.place offset < kept.place (offset + 1)

instance (kept : Kept) (offset : Nat) : Decidable (kept.Survives offset) :=
  inferInstanceAs (Decidable (_ < _))

structure Kept.Keeps (kept : Kept) (text : Text) (strings : List Span) : Prop where
  strings : ∀ string ∈ strings, ∀ offset < text.length, Among string offset → kept.Survives offset
  own : ∀ offset < text.length, kept.Survives offset →
    kept.text[kept.place offset]? = text[offset]? ∧ kept.place (offset + 1) = kept.place offset + 1
  ascending : ∀ first second, first ≤ second → second ≤ text.length →
    kept.place first ≤ kept.place second
  last : kept.place text.length = kept.text.length

/-- Each stretch with a byte of a string is one that halving finds a string of. -/
def Searched (text : Text) (strings : List Span) : Prop :=
  ∀ span ∈ stretches 0 (linesOf text),
    (∃ string ∈ strings, ∃ offset < text.length, Among span offset ∧ Among string offset) →
      inside strings span.1 span.2

section Strings

variable {text : Text} {strings : List Span}

theorem getElem?_finish {kept : Kept} {marks : List Bool} (marked : kept.Marked text marks)
    (offset : Nat) :
    kept.finish.places[offset]? =
      if offset ≤ text.length then some ((marks.take offset).count true) else none := by
  have length : kept.text.length = marks.count true := by
    rw [marked.text, length_markedOf marked.length]
  have places : kept.finish.places = placesOf 0 (marks ++ [true]) := by
    rw [placesOf_append, ← marked.places, Nat.zero_add, ← length]
    rfl
  rw [places, getElem?_placesOf, List.length_append, List.length_singleton, marked.length]
  split
  · next lt =>
    have le : offset ≤ marks.length := by
      rw [marked.length]
      omega
    rw [if_pos (by omega), List.take_append_of_le_length le, Nat.zero_add]
  · rw [if_neg (by omega)]

theorem place_of_marked {kept : Kept} {marks : List Bool} (marked : kept.Marked text marks)
    {offset : Nat} (within : offset ≤ text.length) :
    kept.finish.place offset = (marks.take offset).count true := by
  rw [Kept.place, List.getD_eq_getElem?_getD, getElem?_finish marked, if_pos within]
  rfl

theorem count_take_le (marks : List Bool) {first second : Nat} (le : first ≤ second) :
    (marks.take first).count true ≤ (marks.take second).count true :=
  (List.take_prefix_take_left le).sublist.count_le true

theorem count_take_succ (marks : List Bool) (offset : Nat) :
    (marks.take (offset + 1)).count true =
      (marks.take offset).count true + if marks[offset]? = some true then 1 else 0 := by
  rw [List.take_add_one, List.count_append]
  cases found : marks[offset]? with
  | none => simp
  | some mark => cases mark <;> simp

theorem keeps_of_marked {kept : Kept} {marks : List Bool} (marked : kept.Marked text marks) :
    kept.finish.Keeps text strings ↔
      ∀ string ∈ strings, ∀ offset < text.length, Among string offset → marks[offset]? ≠ some false := by
  have survives {offset : Nat} (within : offset < text.length) :
      kept.finish.Survives offset ↔ marks[offset]? ≠ some false := by
    rw [Kept.Survives, place_of_marked marked within, place_of_marked marked within.le,
      count_take_succ]
    cases found : marks[offset]? with
    | none =>
      have := List.getElem?_eq_none_iff.mp found
      have := marked.length
      omega
    | some mark => cases mark <;> simp
  constructor
  · intro keeps string member offset within among
    exact (survives within).mp (keeps.strings string member offset within among)
  · intro kept'
    refine ⟨fun string member offset within among =>
      (survives within).mpr (kept' string member offset within among), ?_, ?_, ?_⟩
    · intro offset within surviving
      have mark : marks[offset]? = some true := by
        have not := (survives within).mp surviving
        rw [List.getElem?_eq_getElem (marked.length ▸ within)] at not ⊢
        simpa using not
      rw [place_of_marked marked within, place_of_marked marked within.le, count_take_succ, mark,
        if_pos rfl]
      refine ⟨?_, rfl⟩
      rw [show kept.finish.text = kept.text from rfl, marked.text]
      exact getElem?_markedOf marked.length mark
    · intro first second le within
      rw [place_of_marked marked within, place_of_marked marked (le.trans within)]
      exact count_take_le marks le
    · rw [place_of_marked marked le_rfl, ← marked.length, List.take_length,
        show kept.finish.text = kept.text from rfl, marked.text, length_markedOf marked.length]

end Strings

/-- A template literal that has a line end in blanks behind a string literal in it. -/
def template : Text :=
  utf8 "`$\x7b'a'\x7d \n`"

def templateStrings : List Span :=
  [(0, 10), (3, 6)]

end Supercov.Units
