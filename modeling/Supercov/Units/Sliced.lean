import Mathlib.Data.List.TakeWhile
import Supercov.Units.Blank

/-!
# Where a file may be sliced

A text is sliced where a character of it starts, or where it ends.  What is erased of a file
ends in front of a character, so that each place of a character is one of the text that is
left.
-/

namespace Supercov.Units

def isContinuation (byte : UInt8) : Bool :=
  128 ≤ byte ∧ byte < 192

/-- Only behind a byte that is not a character of its own does a character go on. -/
def Aligned (text : Text) : Prop :=
  ∀ index byte, text[index]? = some byte → isContinuation byte →
    ∃ earlier previous, index = earlier + 1 ∧ text[earlier]? = some previous ∧ 128 ≤ previous

structure Boundary (text : Text) (index : Nat) : Prop where
  within : index ≤ text.length
  starts : ∀ byte, text[index]? = some byte → ¬ isContinuation byte

def encoded (text : String) : Text :=
  text.toList.flatMap String.utf8EncodeChar

section Boundary

variable {text later : Text} {index start stop : Nat}

namespace Aligned

theorem empty : Aligned [] := fun _ _ found => by cases found

theorem append (aligned : Aligned text) (aligned' : Aligned later) : Aligned (text ++ later) := by
  intro index byte found continues
  rcases Nat.lt_or_ge index text.length with lt | ge
  · rw [List.getElem?_append_left lt] at found
    obtain ⟨earlier, previous, rfl, found', high⟩ := aligned index byte found continues
    exact ⟨earlier, previous, rfl, by rw [List.getElem?_append_left (by omega), found'], high⟩
  · rw [List.getElem?_append_right ge] at found
    obtain ⟨earlier, previous, same, found', high⟩ := aligned' _ byte found continues
    refine ⟨text.length + earlier, previous, by omega, ?_, high⟩
    rwa [List.getElem?_append_right (by omega), Nat.add_sub_cancel_left]

theorem take (aligned : Aligned text) (count : Nat) : Aligned (text.take count) := by
  intro index byte found continues
  rw [List.getElem?_take] at found
  split at found
  · obtain ⟨earlier, previous, rfl, found', high⟩ := aligned index byte found continues
    exact ⟨earlier, previous, rfl, by rw [List.getElem?_take, if_pos (by omega), found'], high⟩
  · cases found

theorem drop (aligned : Aligned text) (boundary : Boundary text start) :
    Aligned (text.drop start) := by
  intro index byte found continues
  rw [List.getElem?_drop] at found
  cases index with
  | zero => exact absurd continues (boundary.starts byte found)
  | succ index =>
    obtain ⟨earlier, previous, same, found', high⟩ := aligned _ byte found continues
    exact ⟨index, previous, rfl, by rw [List.getElem?_drop, ← found']; congr 1; omega, high⟩

theorem flatMap {Item : Type} {items : List Item} {make : Item → Text}
    (each : ∀ item ∈ items, Aligned (make item)) : Aligned (items.flatMap make) := by
  induction items with
  | nil => exact empty
  | cons item items ih =>
    rw [List.forall_mem_cons] at each
    exact each.1.append (ih each.2)

theorem behind (aligned : Aligned text) {byte : UInt8} (found : text[index]? = some byte)
    (low : byte < 128) : Boundary text (index + 1) where
  within := (List.getElem?_eq_some_iff.mp found).1
  starts := by
    intro next found' continues
    obtain ⟨earlier, previous, same, found'', high⟩ := aligned _ next found' continues
    cases Nat.succ.inj same
    cases found.symm.trans found''
    exact absurd high (UInt8.not_le.mpr low)

end Aligned

theorem aligned_cons {first : UInt8} {rest : Text} (starts : ¬ isContinuation first)
    (high : rest ≠ [] → ∀ byte ∈ first :: rest, 128 ≤ byte) : Aligned (first :: rest) := by
  intro index byte found continues
  cases index with
  | zero =>
    cases found
    exact absurd continues starts
  | succ index =>
    have found : rest[index]? = some byte := found
    have within : index < rest.length := (List.getElem?_eq_some_iff.mp found).1
    have previous := List.getElem?_eq_getElem (show index < (first :: rest).length by simp; omega)
    refine ⟨index, _, rfl, previous, high ?_ _ (List.mem_of_getElem? previous)⟩
    rintro rfl
    cases found

theorem isContinuation_ofNat {number : Nat} (lt : number < 256) :
    isContinuation (UInt8.ofNat number) ↔ 128 ≤ number ∧ number < 192 := by
  simp [isContinuation, UInt8.le_iff_toNat_le, UInt8.lt_iff_toNat_lt, Nat.mod_eq_of_lt lt]

theorem le_ofNat {number : Nat} (lt : number < 256) : 128 ≤ UInt8.ofNat number ↔ 128 ≤ number := by
  simp [UInt8.le_iff_toNat_le, Nat.mod_eq_of_lt lt]

theorem aligned_utf8EncodeChar (char : Char) : Aligned (String.utf8EncodeChar char) := by
  unfold String.utf8EncodeChar
  dsimp only
  generalize char.val.toNat = value
  split_ifs
  · refine aligned_cons ?_ (absurd rfl)
    rw [isContinuation_ofNat (by omega)]
    omega
  all_goals
    refine aligned_cons ?_ fun _ => ?_
    · rw [isContinuation_ofNat (by omega)]
      omega
    · simp (disch := omega) only [List.forall_mem_cons, List.not_mem_nil, false_implies,
        implies_true, and_true, le_ofNat]
      omega

theorem aligned_encoded (text : String) : Aligned (encoded text) :=
  .flatMap fun char _ => aligned_utf8EncodeChar char

namespace Boundary

theorem isCharBoundary (boundary : Boundary text index) : isCharBoundary text index := by
  rcases Nat.eq_or_lt_of_le boundary.within with rfl | lt
  · simp [Units.isCharBoundary]
  · have := boundary.starts _ (List.getElem?_eq_getElem lt)
    have : text[index] < 128 ∨ 192 ≤ text[index] := by
      simpa [isContinuation, Classical.or_iff_not_imp_left] using this
    simp [Units.isCharBoundary, List.getElem?_eq_getElem lt, this]

theorem zero (aligned : Aligned text) : Boundary text 0 where
  within := Nat.zero_le _
  starts := by
    intro byte found continues
    obtain ⟨_, _, same, -⟩ := aligned 0 byte found continues
    cases same

theorem length (text : Text) : Boundary text text.length where
  within := le_rfl
  starts := by simp

theorem of_low {byte : UInt8} (found : text[index]? = some byte) (low : byte < 128) :
    Boundary text index where
  within := (List.getElem?_eq_some_iff.mp found).1.le
  starts := by
    intro byte' found' continues
    cases found.symm.trans found'
    simp only [isContinuation, decide_eq_true_eq] at continues
    exact absurd continues.1 (UInt8.not_le.mpr low)

theorem append (boundary : Boundary text index) (aligned : Aligned later) :
    Boundary (text ++ later) index where
  within := by
    have := boundary.within
    rw [List.length_append]
    omega
  starts := by
    intro byte found
    rcases Nat.eq_or_lt_of_le boundary.within with rfl | lt
    · rw [List.getElem?_append_right le_rfl, Nat.sub_self] at found
      exact (zero aligned).starts byte found
    · rw [List.getElem?_append_left lt] at found
      exact boundary.starts byte found

theorem append_left (boundary : Boundary later index) : Boundary (text ++ later) (text.length + index) where
  within := by
    have := boundary.within
    rw [List.length_append]
    omega
  starts := by
    intro byte found
    rw [List.getElem?_append_right (by omega), Nat.add_sub_cancel_left] at found
    exact boundary.starts byte found

end Boundary

theorem slice_of_boundary (first : Boundary text start) (last : Boundary text stop)
    (le : start ≤ stop) : slice text start stop = some ((text.take stop).drop start) := by
  rw [slice, if_pos ⟨le, first.isCharBoundary, last.isCharBoundary⟩]

theorem aligned_slice (aligned : Aligned text) (boundary : Boundary text start) :
    Aligned ((text.take stop).drop start) := by
  rw [List.drop_take]
  exact (aligned.drop boundary).take _

theorem getElem?_slice {byte : UInt8} (found : ((text.take stop).drop start)[index]? = some byte) :
    text[start + index]? = some byte := by
  rw [List.getElem?_drop, List.getElem?_take] at found
  split at found
  · exact found
  · cases found

theorem low_of_isBlank {byte : UInt8} (blank : isBlank byte) : byte < 128 := by
  have : byte = space ∨ byte = 9 ∨ byte = 13 := by simpa [isBlank] using blank
  rcases this with rfl | rfl | rfl <;> decide

theorem blank_of_lt {offset : Nat} (lt : offset < blanks text) :
    ∃ byte, text[offset]? = some byte ∧ isBlank byte := by
  obtain ⟨rest, whole⟩ := List.takeWhile_prefix (l := text) isBlank
  have found := List.getElem?_eq_getElem lt
  refine ⟨_, ?_, List.mem_takeWhile_imp (List.mem_of_getElem? found)⟩
  conv_lhs => rw [← whole]
  rw [List.getElem?_append_left lt, found]

theorem Boundary.blanks (aligned : Aligned text) (boundary : Boundary text index) :
    Boundary text (index + blanks (text.drop index)) := by
  cases count : Units.blanks (text.drop index) with
  | zero => exact boundary
  | succ earlier =>
    have within : earlier < Units.blanks (text.drop index) := by omega
    obtain ⟨byte, found, blank⟩ := blank_of_lt within
    rw [List.getElem?_drop] at found
    exact aligned.behind found (low_of_isBlank blank)

theorem newline_low : newline < 128 := by
  decide

theorem aligned_space : Aligned [space] :=
  aligned_cons (by decide) (absurd rfl)

theorem Boundary.lineEndAfter (aligned : Aligned text) (boundary : Boundary text index) :
    Boundary text (lineEndAfter text index) := by
  unfold Units.lineEndAfter
  dsimp only
  split
  · next found => exact aligned.behind found newline_low
  · exact boundary

end Boundary

/-- What is left of a source: of each character's offset the place is a character's. -/
structure Kept.Faithful (kept : Kept) (source : Text) : Prop where
  ordered : kept.Ordered
  aligned : Aligned kept.text
  bounded : ∀ offset place, kept.places[offset]? = some place → Boundary source offset →
    Boundary kept.text place

namespace Kept.Faithful

variable {kept : Kept} {source : Text}

theorem empty (source : Text) : Faithful {} source where
  ordered := .empty
  aligned := .empty
  bounded := fun _ _ found => by cases found

theorem push (faithful : kept.Faithful source) {text : Text} (aligned : Aligned text)
    (here : ∀ offset byte, text[offset]? = some byte →
      source[kept.places.length + offset]? = some byte) : (kept.push text).Faithful source where
  ordered := faithful.ordered.push text
  aligned := faithful.aligned.append aligned
  bounded := by
    intro offset place found boundary
    rcases Nat.lt_or_ge offset kept.places.length with lt | ge
    · rw [Kept.push, List.getElem?_append_left lt] at found
      exact (faithful.bounded offset place found boundary).append aligned
    · rw [Kept.push, List.getElem?_append_right ge] at found
      have lt := (List.getElem?_eq_some_iff.mp found).1
      rw [List.length_range'] at lt
      rw [List.getElem?_range' lt, Nat.one_mul] at found
      obtain rfl := Option.some.inj found
      refine .append_left ⟨lt.le, fun byte found' => boundary.starts byte ?_⟩
      rw [← here _ byte found']
      congr 1
      omega

theorem drop (faithful : kept.Faithful source) (length : Nat) {replacement : Text}
    (aligned : Aligned replacement) : (kept.drop length replacement).Faithful source where
  ordered := faithful.ordered.drop length replacement
  aligned := faithful.aligned.append aligned
  bounded := by
    intro offset place found boundary
    rcases Nat.lt_or_ge offset kept.places.length with lt | ge
    · rw [Kept.drop, List.getElem?_append_left lt] at found
      exact (faithful.bounded offset place found boundary).append aligned
    · rw [Kept.drop, List.getElem?_append_right ge, List.getElem?_replicate] at found
      split at found
      · obtain rfl := Option.some.inj found
        exact (Boundary.length kept.text).append aligned
      · cases found

theorem finish (faithful : kept.Faithful source) : kept.finish.Faithful source where
  ordered := faithful.ordered.finish
  aligned := faithful.aligned
  bounded := by
    intro offset place found boundary
    rcases Nat.lt_or_ge offset kept.places.length with lt | ge
    · rw [Kept.finish, List.getElem?_append_left lt] at found
      exact faithful.bounded offset place found boundary
    · rw [Kept.finish, List.getElem?_append_right ge, List.getElem?_singleton] at found
      split at found
      · obtain rfl := Option.some.inj found
        exact .length kept.text
      · cases found

end Kept.Faithful

/-! ### Comments -/

section Comments

variable {source : Text} {start stop : Nat}

theorem not_of_getElem?_takeWhile {Item : Type} {condition : Item → Bool} {items : List Item}
    {item : Item} (found : items[(items.takeWhile condition).length]? = some item) :
    ¬ condition item := by
  induction items with
  | nil => cases found
  | cons first items ih =>
    cases holds : condition first with
    | true =>
      rw [List.takeWhile_cons_of_pos holds, List.length_cons, List.getElem?_cons_succ] at found
      exact ih found
    | false =>
      rw [List.takeWhile_cons_of_neg (by simp [holds])] at found
      cases found
      simp [holds]

theorem getElem?_line {head : Text} {offset : Nat}
    (lt : offset < (head.reverse.takeWhile (· ≠ newline)).length) :
    head[head.length - 1 - offset]? = (head.reverse.takeWhile (· ≠ newline))[offset]? := by
  obtain ⟨rest, whole⟩ := List.takeWhile_prefix (l := head.reverse) fun byte => decide (byte ≠ newline)
  have within : offset < head.length := by
    have := congrArg List.length whole
    rw [List.length_append, List.length_reverse] at this
    omega
  rw [← List.getElem?_reverse within]
  conv_lhs => rw [← whole]
  rw [List.getElem?_append_left lt]

theorem Boundary.lineStart (aligned : Aligned source) (le : start ≤ source.length) :
    Boundary source
      (start - ((source.take start).reverse.takeWhile (· ≠ newline)).length) := by
  have length : (source.take start).length = start := by rw [List.length_take, min_eq_left le]
  have within := (List.takeWhile_sublist (l := (source.take start).reverse)
    fun byte => decide (byte ≠ newline)).length_le
  rw [List.length_reverse, length] at within
  rcases Nat.eq_or_lt_of_le within with same | lt
  · rw [same, Nat.sub_self]
    exact .zero aligned
  · obtain ⟨byte, found⟩ : ∃ byte, (source.take start).reverse[((source.take start).reverse.takeWhile
        fun byte => decide (byte ≠ newline)).length]? = some byte :=
      ⟨_, List.getElem?_eq_getElem (by rwa [List.length_reverse, length])⟩
    obtain rfl : byte = newline := by simpa using not_of_getElem?_takeWhile found
    rw [List.getElem?_reverse (by rwa [length]), length, List.getElem?_take, if_pos (by omega)] at found
    convert aligned.behind found newline_low using 1
    omega

theorem Boundary.blanksBefore (boundary : Boundary source start) :
    Boundary source
      (start - Units.blanks ((source.take start).reverse.takeWhile (· ≠ newline))) := by
  cases count : Units.blanks ((source.take start).reverse.takeWhile (· ≠ newline)) with
  | zero => exact boundary
  | succ earlier =>
    have within : earlier < Units.blanks ((source.take start).reverse.takeWhile (· ≠ newline)) := by
      omega
    obtain ⟨byte, found, blank⟩ := blank_of_lt within
    have length : (source.take start).length = start := by
      rw [List.length_take, min_eq_left boundary.within]
    have lt := (List.getElem?_eq_some_iff.mp found).1
    rw [← getElem?_line lt, length, List.getElem?_take] at found
    split at found
    · exact .of_low (by rw [← found]; congr 1; omega) (low_of_isBlank blank)
    · cases found

theorem erasure_spec (aligned : Aligned source) (first : Boundary source start)
    (last : Boundary source stop) :
    ∃ start' stop' replacement, erasure source start stop = some (start', stop', replacement) ∧
      Boundary source start' ∧ Boundary source stop' ∧ Aligned replacement := by
  have after := last.blanks aligned
  have behind {index : Nat} (found : source[index]? = some newline) : Boundary source (index + 1) :=
    aligned.behind found newline_low
  unfold erasure
  rw [slice_of_boundary (.zero aligned) first (Nat.zero_le _)]
  simp only [Option.bind_eq_bind, Option.bind_some, List.drop_zero, Option.pure_def]
  split
  · next terminated =>
    split
    · refine ⟨_, _, _, rfl, .lineStart aligned first.within, ?_, .empty⟩
      split
      · next lt => exact behind (terminated.resolve_left (by omega))
      · exact after
    · exact ⟨_, _, _, rfl, first.blanksBefore, after, .empty⟩
  · refine ⟨_, _, _, rfl, first, ?_, ?_⟩
    · split
      · exact after
      · exact last
    · split_ifs
      all_goals first | exact aligned_space | exact .empty

theorem eraseComment_spec (aligned : Aligned source) {kept : Kept} {cursor : Nat}
    (faithful : kept.Faithful source) (reached : kept.places.length = cursor)
    (boundary : Boundary source cursor) {comment : Span} (first : Boundary source comment.1)
    (last : Boundary source comment.2) :
    ∃ kept' cursor', eraseComment source (kept, cursor) comment = some (kept', cursor') ∧
      kept'.Faithful source ∧ kept'.places.length = cursor' ∧ Boundary source cursor' := by
  obtain ⟨start, stop⟩ := comment
  unfold eraseComment
  dsimp only
  split
  · exact ⟨kept, cursor, rfl, faithful, reached, boundary⟩
  · obtain ⟨start', stop', replacement, erased, first', last', aligned'⟩ :=
      erasure_spec aligned first last
    simp only [erased, Option.bind_eq_bind, Option.bind_some, Option.pure_def]
    split
    · exact ⟨kept, cursor, rfl, faithful, reached, boundary⟩
    · next some =>
      have kept' : Boundary source (max start' cursor) := by
        rcases Nat.le_total start' cursor with le | le
        · rwa [Nat.max_eq_right le]
        · rwa [Nat.max_eq_left le]
      have le := Nat.le_max_right start' cursor
      generalize max start' cursor = stop'' at *
      rw [slice_of_boundary boundary kept' le, Option.bind_some]
      refine ⟨_, _, rfl, (faithful.push (aligned_slice aligned boundary) ?_).drop _ aligned', ?_, last'⟩
      · intro offset byte found
        rw [reached]
        exact getElem?_slice found
      · simp only [Kept.drop, Kept.push, List.length_append, List.length_range', List.length_drop,
          List.length_take, List.length_replicate]
        have := kept'.within
        omega

theorem foldlM_eraseComment_spec (aligned : Aligned source) {comments : List Span}
    (bounded : ∀ comment ∈ comments, Boundary source comment.1 ∧ Boundary source comment.2)
    {kept : Kept} {cursor : Nat} (faithful : kept.Faithful source)
    (reached : kept.places.length = cursor) (boundary : Boundary source cursor) :
    ∃ kept' cursor', comments.foldlM (eraseComment source) (kept, cursor) = some (kept', cursor') ∧
      kept'.Faithful source ∧ kept'.places.length = cursor' ∧ Boundary source cursor' := by
  induction comments generalizing kept cursor with
  | nil => exact ⟨kept, cursor, rfl, faithful, reached, boundary⟩
  | cons comment comments ih =>
    rw [List.forall_mem_cons] at bounded
    obtain ⟨next, cursor', step, faithful, reached, boundary⟩ :=
      eraseComment_spec aligned faithful reached boundary bounded.1.1 bounded.1.2
    rw [List.foldlM_cons, step]
    exact ih bounded.2 faithful reached boundary

theorem eraseComments_spec (aligned : Aligned source) {comments : List Span}
    (bounded : ∀ comment ∈ comments, Boundary source comment.1 ∧ Boundary source comment.2) :
    ∃ kept, eraseComments source comments = some kept ∧ kept.Faithful source ∧
      kept.places.length = source.length + 1 := by
  have sorted : ∀ comment ∈ comments.insertionSort (fun span other => spanLe span other),
      Boundary source comment.1 ∧ Boundary source comment.2 :=
    fun comment member => bounded comment ((List.mem_insertionSort _).mp member)
  obtain ⟨kept, cursor, folded, faithful, reached, boundary⟩ :=
    foldlM_eraseComment_spec aligned sorted (.empty source)
      (show ({} : Kept).places.length = 0 from rfl) (.zero aligned)
  unfold eraseComments
  rw [folded]
  simp only [Option.bind_eq_bind, Option.bind_some, Option.pure_def]
  rw [slice_of_boundary boundary (.length source) boundary.within, Option.bind_some]
  refine ⟨_, rfl, (faithful.push (aligned_slice aligned boundary) ?_).finish, ?_⟩
  · intro offset byte found
    rw [reached]
    exact getElem?_slice found
  · have := boundary.within
    simp only [Kept.finish, Kept.push, List.length_append, List.length_range', List.length_drop,
      List.length_take, List.length_singleton]
    omega

end Comments

/-! ### Blanks -/

section Blanks

variable {text : Text} {strings : List Span} {offset : Nat}

theorem ending_of_mem_linesOf {line : Text} (member : line ∈ linesOf text) :
    ∀ byte ∈ line.drop (line.takeWhile (· ≠ newline)).length, byte = newline := by
  induction text generalizing line with
  | nil => cases member
  | cons byte rest ih =>
    unfold linesOf at member
    split at member
    · next ends =>
      rcases List.mem_cons.mp member with rfl | member
      · simp [ends]
      · exact ih member
    · next goes =>
      have content (line : Text) : (byte :: line).drop ((byte :: line).takeWhile (· ≠ newline)).length =
          line.drop (line.takeWhile (· ≠ newline)).length := by
        rw [List.takeWhile_cons_of_pos (by simpa using goes)]
        rfl
      split at member
      · next none =>
        rw [List.mem_singleton.mp member, content]
        simp
      · next first others found =>
        rcases List.mem_cons.mp member with rfl | member
        · rw [content]
          exact ih (by simp [found])
        · exact ih (by simp [found, member])

theorem blank_of_trimmed {content : Text} {byte : UInt8}
    (trimmed : content.length - blanks content.reverse ≤ offset)
    (found : content[offset]? = some byte) : isBlank byte := by
  have lt := (List.getElem?_eq_some_iff.mp found).1
  have within : content.length - 1 - offset < blanks content.reverse := by omega
  obtain ⟨byte', found', blank⟩ := blank_of_lt within
  rw [List.getElem?_reverse (by omega),
    show content.length - 1 - (content.length - 1 - offset) = offset by omega] at found'
  cases found.symm.trans found'
  exact blank

theorem low_of_stretch {lineStart : Nat} {line : Text} {byte : UInt8} (member : line ∈ linesOf text)
    (among : Among (stretch lineStart line) (lineStart + offset)) (found : (line)[offset]? = some byte) :
    byte < 128 := by
  have ending := ending_of_mem_linesOf member
  unfold Among stretch at among
  rw [← content_append line] at found
  dsimp only at among
  generalize line.takeWhile (· ≠ newline) = content at among found ending
  rcases Nat.lt_or_ge offset content.length with lt | ge
  · rw [List.getElem?_append_left lt] at found
    refine low_of_isBlank (blank_of_trimmed ?_ found)
    split at among
    · omega
    · exact Nat.le_of_add_le_add_left among.1
  · rw [List.getElem?_append_right ge] at found
    rw [ending byte (List.mem_of_getElem? found)]
    exact newline_low

theorem low_of_stretches {lineStart : Nat} {lines : List Text} {span : Span} {byte : UInt8}
    (linear : ∀ line ∈ lines, line ∈ linesOf text)
    (member : span ∈ stretches lineStart lines) (among : Among span (lineStart + offset))
    (found : lines.flatten[offset]? = some byte) : byte < 128 := by
  induction lines generalizing lineStart offset with
  | nil => cases member
  | cons line lines ih =>
    rw [List.forall_mem_cons] at linear
    rw [List.flatten_cons] at found
    have within := stretch_within lineStart line
    rcases List.mem_cons.mp member with rfl | member
    · rw [List.getElem?_append_left (by have := among.2; omega)] at found
      exact low_of_stretch linear.1 among found
    · have ge := stretches_ge member
      have starts := among.1
      rw [List.getElem?_append_right (by omega)] at found
      refine ih linear.2 member ?_ found
      rwa [show lineStart + line.length + (offset - line.length) = lineStart + offset by omega]

theorem exists_of_lt_count {marks : List Bool} {index : Nat} (lt : index < marks.count true) :
    ∃ offset, marks[offset]? = some true ∧ (marks.take offset).count true = index := by
  induction marks generalizing index with
  | nil => cases lt
  | cons mark marks ih =>
    cases mark with
    | true =>
      cases index with
      | zero => exact ⟨0, rfl, rfl⟩
      | succ index =>
        obtain ⟨offset, found, count⟩ := ih (by simpa using lt)
        exact ⟨offset + 1, found, by simp [count]⟩
    | false =>
      obtain ⟨offset, found, count⟩ := ih (by simpa using lt)
      exact ⟨offset + 1, found, by simp [count]⟩

section Marked

variable {kept : Kept} {marks : List Bool}

theorem kept_before (marked : kept.Marked text marks) (aligned : Aligned text)
    (low : ∀ (offset : Nat) (byte : UInt8), marks[offset]? = some false →
      text[offset]? = some byte → byte < 128)
    {index : Nat} {byte : UInt8} (found : (markedOf text marks)[index]? = some byte)
    (continues : isContinuation byte) :
    ∃ offset previous, text[offset]? = some previous ∧ 128 ≤ previous ∧
      marks[offset]? = some true ∧ marks[offset + 1]? = some true ∧
      text[offset + 1]? = some byte ∧ index = (marks.take offset).count true + 1 := by
  have lt := (List.getElem?_eq_some_iff.mp found).1
  rw [length_markedOf marked.length] at lt
  obtain ⟨offset, mark, rfl⟩ := exists_of_lt_count lt
  rw [getElem?_markedOf marked.length mark] at found
  obtain ⟨earlier, previous, rfl, found', high⟩ := aligned offset byte found continues
  have mark' : marks[earlier]? = some true := by
    cases found'' : marks[earlier]? with
    | none =>
      have := List.getElem?_eq_none_iff.mp found''
      have := (List.getElem?_eq_some_iff.mp mark).1
      omega
    | some mark' =>
      cases mark' with
      | true => rfl
      | false => exact absurd high (UInt8.not_le.mpr (low earlier previous found'' found'))
  exact ⟨earlier, previous, found', high, mark', mark, found, by rw [count_take_succ, mark', if_pos rfl]⟩

theorem faithful_of_marked (marked : kept.Marked text marks) (aligned : Aligned text)
    (low : ∀ (offset : Nat) (byte : UInt8), marks[offset]? = some false →
      text[offset]? = some byte → byte < 128) : kept.finish.Faithful text where
  ordered := by
    constructor
    · intro place member
      obtain ⟨offset, found⟩ := List.getElem?_of_mem member
      rw [getElem?_finish marked] at found
      split at found
      · cases found
        rw [show kept.finish.text = markedOf text marks from marked.text,
          length_markedOf marked.length]
        exact (List.take_sublist offset marks).count_le true
      · cases found
    · refine List.pairwise_iff_getElem.mpr fun first second within within' lt => ?_
      have found := List.getElem?_eq_getElem within
      have found' := List.getElem?_eq_getElem within'
      rw [getElem?_finish marked] at found found'
      split at found'
      · rw [if_pos (by omega)] at found
        rw [← Option.some.inj found, ← Option.some.inj found']
        exact count_take_le marks lt.le
      · cases found'
  aligned := by
    intro index byte found continues
    rw [show kept.finish.text = markedOf text marks from marked.text] at found ⊢
    obtain ⟨offset, previous, found', high, mark, -, -, rfl⟩ :=
      kept_before marked aligned low found continues
    exact ⟨_, previous, rfl, by rw [getElem?_markedOf marked.length mark, found'], high⟩
  bounded := by
    intro offset place found boundary
    rw [getElem?_finish marked] at found
    split at found
    · cases found
      constructor
      · rw [show kept.finish.text = markedOf text marks from marked.text,
          length_markedOf marked.length]
        exact (List.take_sublist offset marks).count_le true
      · intro byte found continues
        rw [show kept.finish.text = markedOf text marks from marked.text] at found
        obtain ⟨earlier, previous, -, -, mark, mark', found', count⟩ :=
          kept_before marked aligned low found continues
        -- The byte is the first that is kept from the offset on, and its own is kept too.
        have after := count_take_succ marks earlier
        have behind := count_take_succ marks (earlier + 1)
        rw [mark, if_pos rfl] at after
        rw [mark', if_pos rfl] at behind
        have same : offset = earlier + 1 := by
          rcases Nat.lt_trichotomy offset (earlier + 1) with lt | same | gt
          · have := count_take_le marks (Nat.le_of_lt_succ lt)
            omega
          · exact same
          · have := count_take_le marks (show earlier + 1 + 1 ≤ offset from gt)
            omega
        exact boundary.starts byte (same ▸ found') continues
    · cases found

end Marked

theorem eraseBlank_faithful (aligned : Aligned text) (strings : List Span) :
    (eraseBlank text strings).Faithful text ∧
      (eraseBlank text strings).places.length = text.length + 1 := by
  have empty : ({} : Kept).Marked [] [] := ⟨rfl, rfl, rfl⟩
  have marked := foldl_eraseLine_marked strings 0 empty (linesOf text)
  rw [flatten_linesOf, List.nil_append, List.nil_append] at marked
  constructor
  · refine faithful_of_marked marked aligned fun offset byte mark found => ?_
    obtain ⟨span, member, among, -⟩ := marksOf_eq_false.mp mark
    exact low_of_stretches (fun _ => id) member among (by rwa [flatten_linesOf])
  · have places := getElem?_finish marked
    have last := places text.length
    have none := places (text.length + 1)
    rw [if_pos le_rfl] at last
    rw [if_neg (by omega)] at none
    exact Nat.le_antisymm (List.getElem?_eq_none_iff.mp none) (List.getElem?_eq_some_iff.mp last).1

end Blanks

end Supercov.Units
