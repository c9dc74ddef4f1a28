import Mathlib.Data.List.GetD
import Supercov.Units.Build

/-!
# Where the offsets of a file end up

The text that is left of a file keeps the order of the file: of two offsets the later one
has the later place, the first has the first and the end has the end.
-/

namespace Supercov.Units

structure Kept.Ordered (kept : Kept) : Prop where
  within : ∀ place ∈ kept.places, place ≤ kept.text.length
  ascending : kept.places.Pairwise (· ≤ ·)

structure Kept.Placing (kept : Kept) : Prop where
  within : ∀ place ∈ kept.places, place ≤ kept.text.length
  ascending : kept.places.Pairwise (· ≤ ·)
  first : kept.places.head? = some 0 ∨ kept.places = [] ∧ kept.text = []
  clear : 0 ∉ kept.text

/-- The places of all offsets up to `size`. -/
structure Kept.Placed (kept : Kept) (size : Nat) : Prop where
  length : kept.places.length = size + 1
  ascending : kept.places.Pairwise (· ≤ ·)
  first : kept.place 0 = 0
  last : kept.place size = kept.text.length
  clear : 0 ∉ kept.text

theorem slice_eq_some {text part : Text} {start stop : Nat} (made : slice text start stop = some part) :
    start ≤ stop ∧ stop ≤ text.length ∧ part = (text.take stop).drop start := by
  unfold slice at made
  split at made
  · next fits =>
    obtain ⟨le, -, boundary⟩ := fits
    refine ⟨le, ?_, by simpa using made.symm⟩
    simp only [isCharBoundary, decide_eq_true_eq] at boundary
    rcases boundary with zero | whole | within
    · omega
    · omega
    · cases found : text[stop]? with
      | none => simp [found] at within
      | some byte => exact (List.getElem?_eq_some_iff.mp found).1.le
  · cases made

theorem length_of_slice {text part : Text} {start stop : Nat}
    (made : slice text start stop = some part) : part.length = stop - start := by
  obtain ⟨le, fits, rfl⟩ := slice_eq_some made
  simp [fits]

theorem subset_of_slice {text part : Text} {start stop : Nat}
    (made : slice text start stop = some part) : part ⊆ text := by
  obtain ⟨-, -, rfl⟩ := slice_eq_some made
  exact fun byte found => List.mem_of_mem_take (List.mem_of_mem_drop found)

namespace Kept.Ordered

variable {kept : Kept}

theorem empty : Ordered {} where
  within := by simp
  ascending := by simp

theorem push (ordered : kept.Ordered) (text : Text) : (kept.push text).Ordered where
  within := by
    intro place member
    simp only [Kept.push, List.mem_append, List.mem_range'_1, List.length_append] at member ⊢
    rcases member with member | member
    · have := ordered.within place member
      omega
    · omega
  ascending := by
    simp only [Kept.push, List.pairwise_append]
    refine ⟨ordered.ascending, List.pairwise_le_range', ?_⟩
    intro place member later member'
    have := ordered.within place member
    have := (List.mem_range'_1.mp member').1
    omega

theorem drop (ordered : kept.Ordered) (length : Nat) (replacement : Text) :
    (kept.drop length replacement).Ordered where
  within := by
    intro place member
    simp only [Kept.drop, List.mem_append, List.mem_replicate, List.length_append] at member ⊢
    rcases member with member | ⟨-, rfl⟩
    · have := ordered.within place member
      omega
    · omega
  ascending := by
    simp only [Kept.drop, List.pairwise_append, List.pairwise_replicate]
    refine ⟨ordered.ascending, .inr le_rfl, ?_⟩
    intro place member later member'
    rw [(List.mem_replicate.mp member').2]
    exact ordered.within place member

theorem finish (ordered : kept.Ordered) : kept.finish.Ordered where
  within := by
    intro place member
    simp only [Kept.finish, List.mem_append, List.mem_singleton] at member ⊢
    rcases member with member | rfl
    · exact ordered.within place member
    · exact le_rfl
  ascending := by
    simp only [Kept.finish, List.pairwise_append, List.mem_singleton]
    exact ⟨ordered.ascending, List.pairwise_singleton _ _,
      fun place member _ same => same ▸ ordered.within place member⟩

end Kept.Ordered

theorem place_mono {kept : Kept} (ascending : kept.places.Pairwise (· ≤ ·)) {first second : Nat}
    (le : first ≤ second) (within : second < kept.places.length) :
    kept.place first ≤ kept.place second := by
  have within' : first < kept.places.length := by omega
  simp only [Kept.place, List.getD_eq_getElem _ _ within, List.getD_eq_getElem _ _ within']
  rcases Nat.eq_or_lt_of_le le with rfl | lt
  · exact le_rfl
  · exact List.pairwise_iff_getElem.mp ascending first second within' within lt

namespace Kept.Placing

variable {kept : Kept}

theorem ordered (placing : kept.Placing) : kept.Ordered :=
  ⟨placing.within, placing.ascending⟩

theorem empty : Placing {} where
  within := by simp
  ascending := by simp
  first := .inr ⟨rfl, rfl⟩
  clear := by simp

theorem push (placing : kept.Placing) {text : Text} (clear : 0 ∉ text) : (kept.push text).Placing where
  within := (placing.ordered.push text).within
  ascending := (placing.ordered.push text).ascending
  first := by
    rcases placing.first with first | ⟨none, empty⟩
    · exact .inl (by simp [Kept.push, first])
    · cases text with
      | nil => exact .inr ⟨by simp [Kept.push, none], by simp [Kept.push, empty]⟩
      | cons byte rest => exact .inl (by simp [Kept.push, none, empty, List.range'])
  clear := by simp [Kept.push, placing.clear, clear]

theorem drop (placing : kept.Placing) {length : Nat} {replacement : Text}
    (some : replacement ≠ [] → 0 < length) (clear : 0 ∉ replacement) :
    (kept.drop length replacement).Placing where
  within := (placing.ordered.drop length replacement).within
  ascending := (placing.ordered.drop length replacement).ascending
  first := by
    rcases placing.first with first | ⟨none, empty⟩
    · exact .inl (by simp [Kept.drop, first])
    · cases length with
      | zero =>
        have : replacement = [] := by
          by_contra nonempty
          exact absurd (some nonempty) (lt_irrefl 0)
        exact .inr ⟨by simp [Kept.drop, none], by simp [Kept.drop, empty, this]⟩
      | succ length => exact .inl (by simp [Kept.drop, none, empty, List.replicate_succ])
  clear := by simp [Kept.drop, placing.clear, clear]

theorem finish (placing : kept.Placing) : kept.finish.Placed kept.places.length where
  length := by simp [Kept.finish]
  ascending := placing.ordered.finish.ascending
  first := by
    rcases placing.first with first | ⟨none, empty⟩
    · cases places : kept.places with
      | nil => simp [places] at first
      | cons place rest =>
        simp only [places, List.head?_cons, Option.some.injEq] at first
        simp [Kept.finish, Kept.place, places, first]
    · simp [Kept.finish, Kept.place, none, empty]
  last := by simp [Kept.finish, Kept.place]
  clear := placing.clear

end Kept.Placing

namespace Kept.Placed

variable {kept : Kept} {size first second : Nat}

theorem mono (placed : kept.Placed size) (le : first ≤ second) (within : second ≤ size) :
    kept.place first ≤ kept.place second :=
  place_mono placed.ascending le (by rw [placed.length]; omega)

theorem place_le (placed : kept.Placed size) (within : first ≤ size) :
    kept.place first ≤ kept.text.length :=
  placed.last ▸ placed.mono within le_rfl

end Kept.Placed

section Comments

variable {source : Text}

theorem clear_of_erasure {start stop start' stop' : Nat} {replacement : Text}
    (erased : erasure source start stop = some (start', stop', replacement)) : 0 ∉ replacement := by
  unfold erasure at erased
  cases found : slice source 0 start with
  | none => simp [found] at erased
  | some head =>
    simp only [found, Option.bind_eq_bind, Option.bind_some, Option.pure_def] at erased
    split_ifs at erased <;> simp only [Option.some.injEq, Prod.mk.injEq] at erased
    all_goals
      obtain ⟨-, -, rfl⟩ := erased
      simp [space]

theorem eraseComment_placing (clear : 0 ∉ source) {kept kept' : Kept} {cursor cursor' : Nat}
    {comment : Span} (placing : kept.Placing) (reached : kept.places.length = cursor)
    (erased : eraseComment source (kept, cursor) comment = some (kept', cursor')) :
    kept'.Placing ∧ kept'.places.length = cursor' := by
  obtain ⟨start, stop⟩ := comment
  unfold eraseComment at erased
  dsimp only at erased
  by_cases unfit : source.length < stop ∨ stop ≤ start
  · simp only [if_pos unfit, Option.some.injEq, Prod.mk.injEq] at erased
    obtain ⟨rfl, rfl⟩ := erased
    exact ⟨placing, reached⟩
  · rw [if_neg unfit] at erased
    cases found : erasure source start stop with
    | none => simp [found] at erased
    | some erasure =>
      obtain ⟨start', stop', replacement⟩ := erasure
      simp only [found, Option.bind_eq_bind, Option.bind_some, Option.pure_def] at erased
      by_cases passed : stop' ≤ max start' cursor
      · simp only [if_pos passed, Option.some.injEq, Prod.mk.injEq] at erased
        obtain ⟨rfl, rfl⟩ := erased
        exact ⟨placing, reached⟩
      · rw [if_neg passed] at erased
        cases sliced : slice source cursor (max start' cursor) with
        | none => simp [sliced] at erased
        | some text =>
          simp only [sliced, Option.bind_some, Option.some.injEq, Prod.mk.injEq] at erased
          obtain ⟨rfl, rfl⟩ := erased
          have length := length_of_slice sliced
          refine ⟨(placing.push ?_).drop (fun _ => by omega) (clear_of_erasure found), ?_⟩
          · exact fun found => clear (subset_of_slice sliced found)
          · simp only [Kept.drop, Kept.push, List.length_append, List.length_range',
              List.length_replicate]
            omega

theorem foldlM_eraseComment_placing (clear : 0 ∉ source) {comments : List Span} {kept kept' : Kept}
    {cursor cursor' : Nat} (placing : kept.Placing) (reached : kept.places.length = cursor)
    (erased : comments.foldlM (eraseComment source) (kept, cursor) = some (kept', cursor')) :
    kept'.Placing ∧ kept'.places.length = cursor' := by
  induction comments generalizing kept cursor with
  | nil =>
    simp only [List.foldlM_nil, Option.pure_def, Option.some.injEq, Prod.mk.injEq] at erased
    obtain ⟨rfl, rfl⟩ := erased
    exact ⟨placing, reached⟩
  | cons comment comments ih =>
    rw [List.foldlM_cons] at erased
    obtain ⟨⟨next, position⟩, step, rest⟩ := Option.bind_eq_some_iff.mp erased
    obtain ⟨placing, reached⟩ := eraseComment_placing clear placing reached step
    exact ih placing reached rest

theorem eraseComments_placed (clear : 0 ∉ source) {comments : List Span} {kept : Kept}
    (erased : eraseComments source comments = some kept) : kept.Placed source.length := by
  unfold eraseComments at erased
  obtain ⟨⟨before, cursor⟩, folded, erased⟩ := Option.bind_eq_some_iff.mp erased
  obtain ⟨rest, sliced, erased⟩ := Option.bind_eq_some_iff.mp erased
  obtain ⟨placing, reached⟩ := foldlM_eraseComment_placing clear .empty rfl folded
  simp only [Option.pure_def, Option.some.injEq] at erased
  subst erased
  have pushed := placing.push fun found => clear (subset_of_slice sliced found)
  have length : (before.push rest).places.length = source.length := by
    have := length_of_slice sliced
    have := (slice_eq_some sliced).1
    simp only [Kept.push, List.length_append, List.length_range']
    omega
  exact length ▸ pushed.finish

end Comments

section Blank

theorem flatten_linesOf (text : Text) : (linesOf text).flatten = text := by
  induction text with
  | nil => rfl
  | cons byte rest ih =>
    unfold linesOf
    split
    · simp [ih]
    · split
      · next none => simpa [none] using ih
      · next line lines found => simpa [found] using ih

theorem eraseLine_placing (strings : List Span) {kept : Kept} {lineStart : Nat} {line : Text}
    (clear : 0 ∉ line) (placing : kept.Placing) (reached : kept.places.length = lineStart) :
    (eraseLine strings (kept, lineStart) line).1.Placing ∧
      (eraseLine strings (kept, lineStart) line).1.places.length =
        (eraseLine strings (kept, lineStart) line).2 ∧
      (eraseLine strings (kept, lineStart) line).2 = lineStart + line.length := by
  have within : (line.takeWhile (· ≠ newline)).length ≤ line.length :=
    (List.takeWhile_sublist _).length_le
  unfold eraseLine
  dsimp only
  split_ifs
  · exact ⟨placing.drop (absurd rfl) (by simp), by simp [Kept.drop, reached], rfl⟩
  · exact ⟨placing.push clear, by simp [Kept.push, reached], rfl⟩
  · refine ⟨((placing.push ?_).drop (absurd rfl) (by simp)).push ?_, ?_, rfl⟩
    · exact fun found => clear ((List.takeWhile_sublist _).subset (List.mem_of_mem_take found))
    · exact fun found => clear (List.mem_of_mem_drop found)
    · simp only [Kept.push, Kept.drop, List.length_append, List.length_range',
        List.length_replicate, List.length_take, List.length_drop]
      omega
  · exact ⟨placing.push clear, by simp [Kept.push, reached], rfl⟩

theorem foldl_eraseLine_placing (strings : List Span) {lines : List Text} {kept : Kept}
    {lineStart : Nat} (clear : 0 ∉ lines.flatten) (placing : kept.Placing)
    (reached : kept.places.length = lineStart) :
    (lines.foldl (eraseLine strings) (kept, lineStart)).1.Placing ∧
      (lines.foldl (eraseLine strings) (kept, lineStart)).1.places.length =
        lineStart + lines.flatten.length := by
  induction lines generalizing kept lineStart with
  | nil => exact ⟨placing, by simpa using reached⟩
  | cons line lines ih =>
    simp only [List.flatten_cons, List.mem_append, not_or] at clear
    obtain ⟨placing, reached, next⟩ := eraseLine_placing strings clear.1 placing reached
    rw [List.foldl_cons]
    obtain ⟨placing, length⟩ := ih clear.2 placing reached
    refine ⟨placing, ?_⟩
    rw [length, next, List.flatten_cons, List.length_append]
    omega

theorem eraseBlank_placed {text : Text} (clear : 0 ∉ text) (strings : List Span) :
    (eraseBlank text strings).Placed text.length := by
  have clear' : 0 ∉ (linesOf text).flatten := by rwa [flatten_linesOf]
  obtain ⟨placing, length⟩ :=
    foldl_eraseLine_placing strings clear' .empty (show ({} : Kept).places.length = 0 from rfl)
  rw [flatten_linesOf, Nat.zero_add] at length
  exact length ▸ placing.finish

end Blank

theorem keptOf_placed {source : Text} {outline : Outline} {kept : Kept} (clear : 0 ∉ source)
    (made : keptOf source outline = some kept) : kept.Placed source.length := by
  unfold keptOf at made
  obtain ⟨uncommented, erased, made⟩ := Option.bind_eq_some_iff.mp made
  have placed := eraseComments_placed clear erased
  obtain ⟨strings, rfl⟩ : ∃ strings, kept =
      { text := (eraseBlank uncommented.text strings).text
        places := uncommented.places.map fun place =>
          (eraseBlank uncommented.text strings).places.getD place 0 } :=
    ⟨_, (Option.some.inj made).symm⟩
  have blank := eraseBlank_placed placed.clear strings
  have place (offset : Nat) (within : offset ≤ source.length) :
      (uncommented.places.map fun place =>
          (eraseBlank uncommented.text strings).places.getD place 0).getD offset 0 =
        (eraseBlank uncommented.text strings).place (uncommented.place offset) := by
    have within' : offset < uncommented.places.length := by
      rw [placed.length]
      omega
    simp [Kept.place, within']
  constructor
  · simp [placed.length]
  · rw [List.pairwise_map]
    refine placed.ascending.imp_of_mem fun {first second} _ member le => blank.mono le ?_
    obtain ⟨offset, within, rfl⟩ := List.getElem_of_mem member
    have within' : offset ≤ source.length := by
      have := placed.length
      omega
    have := placed.place_le within'
    simpa [Kept.place, List.getD_eq_getElem, within] using this
  · rw [Kept.place, place 0 (Nat.zero_le _), placed.first, blank.first]
  · rw [Kept.place, place _ le_rfl, placed.last, blank.last]
  · exact blank.clear

end Supercov.Units
