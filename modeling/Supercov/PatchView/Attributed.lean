import Supercov.PatchView.Changed

/-!
# The file a hunk is read under

An added line that begins with two plus signs and a space reads like the name of a post-image:
the hunks of its file that follow are read under that name, until the next file is named.
-/

namespace Supercov.PatchView

open Ordered (put find find_put mem_keys_put)

structure Reading where
  own : Option Path
  under : Option Path
  lines : Finset Nat

def namedAfter (under : Option Path) (line : Line) : Option Path :=
  match (Text.dropReturn line.val).dropPrefix? "++ ".toList with
  | some rest => postImage rest
  | none => under

def Hunk.namedAfter (hunk : Hunk) (under : Option Path) : Option Path :=
  hunk.added.foldl PatchView.namedAfter under

def Hunk.lines (hunk : Hunk) (after : Nat) : Finset Nat :=
  Finset.Ico (after + 1) (after + 1 + hunk.added.length)

def readings (own under : Option Path) (after : Nat) : List Hunk → List Reading
  | [] => []
  | hunk :: hunks =>
    { own, under, lines := hunk.lines (after + hunk.kept.length) } ::
      readings own (hunk.namedAfter under) (after + hunk.kept.length + hunk.added.length) hunks

def FileChange.readings (file : FileChange) : List Reading :=
  PatchView.readings file.new (postImage (label 'b' file.new)) 0 file.hunks

def Change.readings (change : Change) : List Reading := change.files.flatMap (·.readings)

/-- What a hunk read under another file adds, that file's diff adds as well, and another hunk
gives to its own. -/
def Change.Attributed (change : Change) : Prop :=
  ∀ reading ∈ change.readings, reading.under ≠ reading.own → ∀ n ∈ reading.lines,
    (∃ other ∈ change.readings, other.under = reading.own ∧ n ∈ other.lines) ∧
      ∀ path, reading.under = some path →
        ∃ other ∈ change.readings, other.own = some path ∧ n ∈ other.lines

def note (changed : ChangedLines) (reading : Reading) : ChangedLines :=
  match reading.under with
  | none => changed
  | some file =>
    if reading.lines = ∅ then changed
    else put file ((find file changed).getD ∅ ∪ reading.lines) changed

section Noted

variable {changed : ChangedLines} {readings : List Reading} {path : Path} {n : Nat}

theorem mem_note (reading : Reading) :
    n ∈ (find path (note changed reading)).getD ∅ ↔
      n ∈ (find path changed).getD ∅ ∨ (reading.under = some path ∧ n ∈ reading.lines) := by
  rw [note]
  split
  · next named => simp [named]
  · next file named =>
    split_ifs with none
    · simp [none]
    · rw [find_put]
      by_cases same : path = file
      · subst same
        simp [named]
      · simp [same, named, Ne.symm same]

theorem mem_notes :
    n ∈ (find path (readings.foldl note changed)).getD ∅ ↔
      n ∈ (find path changed).getD ∅ ∨
        ∃ reading ∈ readings, reading.under = some path ∧ n ∈ reading.lines := by
  induction readings generalizing changed with
  | nil => simp
  | cons reading readings ih => rw [List.foldl_cons, ih, mem_note, List.exists_mem_cons_iff, or_assoc]

theorem mem_keys_notes (member : path ∈ (readings.foldl note changed).map Prod.fst) :
    path ∈ changed.map Prod.fst ∨
      ∃ reading ∈ readings, reading.under = some path ∧ reading.lines.Nonempty := by
  induction readings generalizing changed with
  | nil => exact Or.inl member
  | cons reading readings ih =>
    rcases ih member with before | ⟨later, among, holds⟩
    · rw [note] at before
      split at before
      · exact Or.inl before
      · next file named =>
        split_ifs at before with none
        · exact Or.inl before
        · rcases mem_keys_put.mp before with rfl | before
          · exact Or.inr ⟨reading, List.mem_cons_self, named, Finset.nonempty_of_ne_empty none⟩
          · exact Or.inl before
    · exact Or.inr ⟨later, List.mem_cons_of_mem _ among, holds⟩

end Noted

section Added

variable {hunks : List Hunk} {rest : List Line} {own under : Option Path}

theorem own_of_mem_readings {after : Nat} {reading : Reading}
    (member : reading ∈ readings own under after hunks) : reading.own = own := by
  induction hunks generalizing under after with
  | nil => cases member
  | cons hunk hunks ih =>
    rcases List.mem_cons.mp member with rfl | member
    · rfl
    · exact ih member

theorem mem_readings_iff {after n : Nat} :
    (∃ reading ∈ readings own under after hunks, n ∈ reading.lines) ↔
      ∃ line, after < n ∧ (newVersion hunks rest)[n - after - 1]? = some (line, true) := by
  induction hunks generalizing under after with
  | nil => simp [readings, newVersion]
  | cons hunk hunks ih =>
    have version : newVersion (hunk :: hunks) rest =
        hunk.kept.map (·, false) ++ (hunk.added.map (·, true) ++ newVersion hunks rest) := by
      simp [newVersion]
    rw [readings, List.exists_mem_cons_iff, ih, version]
    dsimp only
    rw [Hunk.lines, Finset.mem_Ico]
    rcases Nat.lt_or_ge (after + hunk.kept.length) n with behind | kept
    · have position : n - after - 1 - (hunk.kept.map (·, false)).length =
          n - (after + hunk.kept.length) - 1 := by
        rw [List.length_map]
        omega
      rw [List.getElem?_append_right (by rw [List.length_map]; omega), position]
      rcases Nat.lt_or_ge (after + hunk.kept.length + hunk.added.length) n with later | added
      · rw [List.getElem?_append_right (by rw [List.length_map]; omega), List.length_map]
        have position : n - (after + hunk.kept.length) - 1 - hunk.added.length =
            n - (after + hunk.kept.length + hunk.added.length) - 1 := by omega
        rw [position]
        have passed : ¬ (after + hunk.kept.length + 1 ≤ n ∧
            n < after + hunk.kept.length + 1 + hunk.added.length) := by omega
        simp only [passed, false_or, later, true_and, show after < n by omega]
      · have inside : n - (after + hunk.kept.length) - 1 < hunk.added.length := by omega
        rw [List.getElem?_append_left (by rwa [List.length_map]), List.getElem?_map,
          List.getElem?_eq_getElem inside]
        have here : after + hunk.kept.length + 1 ≤ n ∧
            n < after + hunk.kept.length + 1 + hunk.added.length := by omega
        simp only [here, and_self, true_or, true_iff]
        exact ⟨_, by omega, rfl⟩
    · constructor
      · rintro (⟨low, -⟩ | ⟨line, low, -⟩) <;> omega
      · rintro ⟨line, low, found⟩
        rw [List.getElem?_append_left (by rw [List.length_map]; omega), List.getElem?_map] at found
        obtain ⟨_, -, wrong⟩ := Option.map_eq_some_iff.mp found
        cases wrong

theorem FileChange.adds_iff {file : FileChange} {n : Nat} :
    file.Adds n ↔ ∃ reading ∈ file.readings, n ∈ reading.lines :=
  mem_readings_iff.symm

end Added

section Lines

theorem head?_dropReturn {line : List Char} {c : Char} (first : c ∈ (Text.dropReturn line).head?) :
    c ∈ line.head? := by
  rw [Text.dropReturn] at first
  split at first
  · cases line with
    | nil => exact first
    | cons d line =>
      cases line with
      | nil => cases first
      | cons e line => exact first
  · exact first

def Reads (reader : Reader) (lines : List (List Char)) (reader' : Reader) : Prop :=
  (lines.map Text.dropReturn).foldlM changedLine reader = .ok reader'

theorem Reads.append {reader reader' reader'' : Reader} {lines others : List (List Char)}
    (first : Reads reader lines reader') (second : Reads reader' others reader'') :
    Reads reader (lines ++ others) reader'' := by
  rw [Reads, List.map_append, Outcome.foldlM_append first]
  exact second

theorem Reads.cons {reader reader' reader'' : Reader} {line : List Char} {others : List (List Char)}
    (first : changedLine reader (Text.dropReturn line) = .ok reader')
    (second : Reads reader' others reader'') : Reads reader (line :: others) reader'' := by
  rw [Reads, List.map_cons, List.foldlM_cons, first]
  exact second

variable {reader : Reader}

theorem changedLine_other {line : List Char} (worded : ∀ c ∈ line.head?, c ≠ '+' ∧ c ≠ '@') :
    changedLine reader line = .ok reader := by
  cases line with
  | nil => rfl
  | cons c line =>
    have ⟨plus, at_⟩ := worded c rfl
    simp [changedLine, List.dropPrefix?, plus, at_]

theorem reads_others {lines : List (List Char)}
    (worded : ∀ line ∈ lines, ∀ c ∈ line.head?, c ≠ '+' ∧ c ≠ '@') : Reads reader lines reader := by
  induction lines with
  | nil => rfl
  | cons line lines ih =>
    have ⟨first, others⟩ := List.forall_mem_cons.mp worded
    exact .cons (changedLine_other fun c member => first c (head?_dropReturn member)) (ih others)

theorem reads_unended (unended : Bool) : Reads reader (unendedText unended) reader := by
  apply reads_others
  cases unended <;> simp [unendedText]

theorem reads_removed (lines : List Line) : Reads reader (lines.map ('-' :: ·.val)) reader := by
  apply reads_others
  simp only [List.forall_mem_map]
  rintro line - c ⟨⟩
  decide

theorem reads_added {changed : ChangedLines} {under : Option Path} (lines : List Line) :
    Reads { changed, file := under } (lines.map ('+' :: ·.val))
      { changed, file := lines.foldl namedAfter under } := by
  induction lines generalizing under with
  | nil => rfl
  | cons line lines ih =>
    apply Reads.cons ?_ ih
    have added : ['+'].getLast? ≠ some '\r' := by decide
    have kept : Text.dropReturn ('+' :: line.val) = '+' :: Text.dropReturn line.val :=
      Text.dropReturn_append added
    rw [kept]
    have named : ('+' :: Text.dropReturn line.val).dropPrefix? "+++ ".toList =
        (Text.dropReturn line.val).dropPrefix? "++ ".toList := rfl
    have unheaded : ('+' :: Text.dropReturn line.val).dropPrefix? "@@ ".toList = none := rfl
    rw [changedLine, named, namedAfter]
    cases (Text.dropReturn line.val).dropPrefix? "++ ".toList with
    | none => rw [unheaded]
    | some rest => rfl

end Lines

section Labels

theorem printed_octal {n : Nat} {c : Char} (member : c ∈ octal n) : 0x20 ≤ c.toNat := by
  have digit {n : Nat} (small : n < 8) : 0x20 ≤ (Nat.digitChar n).toNat := by
    rw [Nat.toNat_digitChar_of_lt_ten (by omega)]
    omega
  simp only [octal, List.map_cons, List.map_nil, List.mem_cons, List.not_mem_nil, or_false]
    at member
  rcases member with rfl | rfl | rfl <;> exact digit (Nat.mod_lt _ (by decide))

theorem printed_pair {c d e : Char} (first : 0x20 ≤ d.toNat) (second : 0x20 ≤ e.toNat)
    (member : c ∈ [d, e]) : 0x20 ≤ c.toNat := by
  rcases List.mem_pair.mp member with rfl | rfl
  · exact first
  · exact second

theorem printed_escape {c d : Char} (member : d ∈ escape c) : 0x20 ≤ d.toNat := by
  rw [escape] at member
  split_ifs at member with _ _ _ _ _ _ _ quoted escaped
  · exact printed_pair (by decide) (by decide) member
  · exact printed_pair (by decide) (by decide) member
  · exact printed_pair (by decide) (by decide) member
  · exact printed_pair (by decide) (by decide) member
  · exact printed_pair (by decide) (by decide) member
  · exact printed_pair (by decide) (by decide) member
  · exact printed_pair (by decide) (by decide) member
  · refine printed_pair (by decide) ?_ member
    rcases quoted with rfl | rfl <;> decide
  · rcases List.mem_cons.mp member with rfl | digit
    · decide
    · exact printed_octal digit
  · rw [List.mem_singleton.mp member]
    simp only [isEscaped, Bool.or_eq_true, decide_eq_true_eq, not_or] at escaped
    omega

theorem printed_name {side : Char} {path : Path} (plain : 0x20 ≤ side.toNat)
    (clear : ¬ path.any isEscaped = true) {c : Char} (member : c ∈ side :: '/' :: path) :
    0x20 ≤ c.toNat := by
  rcases List.mem_cons.mp member with rfl | member
  · exact plain
  · rcases List.mem_cons.mp member with rfl | member
    · decide
    · have unescaped : ¬ isEscaped c = true := fun escaped =>
        clear (List.any_eq_true.mpr ⟨c, member, escaped⟩)
      simp only [isEscaped, Bool.or_eq_true, decide_eq_true_eq, not_or] at unescaped
      omega

theorem printed_quoted {name : List Char} {c : Char}
    (member : c ∈ '"' :: name.flatMap escape ++ ['"']) : 0x20 ≤ c.toNat := by
  simp only [List.mem_append, List.mem_cons, List.mem_flatMap, List.not_mem_nil, or_false] at member
  rcases member with (rfl | ⟨d, -, written⟩) | rfl
  · decide
  · exact printed_escape written
  · decide

theorem printed_label {side : Char} (plain : 0x20 ≤ side.toNat) (path : Option Path) {c : Char}
    (member : c ∈ label side path) : c = '\t' ∨ 0x20 ≤ c.toNat := by
  cases path with
  | none =>
    have all : ("/dev/null".toList.all fun c => 0x20 ≤ c.toNat) = true := by decide
    exact Or.inr (of_decide_eq_true (List.all_eq_true.mp all c member))
  | some path =>
    rcases List.mem_append.mp member with named | tab
    · right
      rw [quoted] at named
      split_ifs at named with clear
      · exact printed_quoted named
      · exact printed_name plain clear named
    · left
      split at tab
      · exact List.mem_singleton.mp tab
      · cases tab

theorem not_mem_label {side : Char} (plain : 0x20 ≤ side.toNat) (path : Option Path) {c : Char}
    (tab : c ≠ '\t') (control : c.toNat < 0x20) : c ∉ label side path := by
  intro member
  rcases printed_label plain path member with same | printed
  · exact tab same
  · omega

end Labels

section Ranges

theorem shown_rangeText {before count : Nat} :
    ∀ c ∈ rangeText before count, Text.isWhitespace c = false := by
  intro c member
  rcases List.mem_append.mp member with digit | counted
  · exact Text.isWhitespace_of_isDigit (Text.isDigit_of_mem_decimal digit)
  · split at counted
    · cases counted
    · rcases List.mem_cons.mp counted with rfl | digit
      · rfl
      · exact Text.isWhitespace_of_isDigit (Text.isDigit_of_mem_decimal digit)

theorem splitOn_rangeText {before count : Nat} :
    (rangeText before count).splitOn ',' =
      Text.decimal (if count = 0 then before else before + 1) ::
        if count = 1 then [] else [Text.decimal count] := by
  have unbroken (n : Nat) : ',' ∉ Text.decimal n :=
    fun member => by cases Text.isDigit_of_mem_decimal member
  rw [rangeText]
  by_cases one : count = 1
  · rw [if_pos one, if_pos one, List.append_nil, List.splitOn_eq_singleton (unbroken _)]
  · rw [if_neg one, if_neg one, List.splitOn_append_cons_self_of_not_mem (unbroken _),
      List.splitOn_eq_singleton (unbroken _)]

theorem addedRange_text {before after removed added : Nat} (fits : after + added < 2 ^ 63)
    (behind : List Char) :
    addedRange (('-' :: rangeText before removed) ++ ' ' :: (('+' :: rangeText after added) ++
        ' ' :: behind)) =
      some (if added = 0 then after else after + 1, added) := by
  have shown (sign : Char) (plain : Text.isWhitespace sign = false) (before count : Nat) :
      ∀ c ∈ sign :: rangeText before count, Text.isWhitespace c = false :=
    List.forall_mem_cons.mpr ⟨plain, shown_rangeText⟩
  have start : Text.unsigned 64 (Text.decimal (if added = 0 then after else after + 1)) =
      some (if added = 0 then after else after + 1) := by
    apply Text.unsigned_decimal
    split <;> omega
  have count : Text.unsigned 64 (Text.decimal added) = some added :=
    Text.unsigned_decimal (by omega)
  rw [addedRange, Text.words_append (shown '-' rfl _ _) (List.cons_ne_nil _ _) rfl,
    Text.words_append (shown '+' rfl _ _) (List.cons_ne_nil _ _) rfl,
    List.find?_cons_of_neg (by simp), List.find?_cons_of_pos (by simp)]
  simp only [Option.bind_eq_bind, Option.bind_some, List.tail_cons, splitOn_rangeText,
    List.head?_cons, start]
  by_cases one : added = 1
  · simp [one]
  · simp [one, count]

end Ranges

section Diffs

variable {reader : Reader} {changed : ChangedLines} {under : Option Path}

theorem changedLine_head {hunk : Hunk} {before after : Nat} {own : Option Path}
    (fits : after + hunk.added.length < 2 ^ 63) :
    changedLine { changed, file := under } (Text.dropReturn ("@@ -".toList ++
        rangeText before hunk.removed.length ++ " +".toList ++ rangeText after hunk.added.length ++
        " @@".toList ++ hunk.heading.val)) =
      .ok { changed := note changed { own, under, lines := hunk.lines after }, file := under } := by
  have written : "@@ -".toList ++ rangeText before hunk.removed.length ++ " +".toList ++
      rangeText after hunk.added.length ++ " @@".toList ++ hunk.heading.val =
        ("@@ -".toList ++ rangeText before hunk.removed.length ++ " +".toList ++
          rangeText after hunk.added.length ++ " @".toList ++ ['@']) ++ hunk.heading.val := by
    simp
  rw [written, Text.dropReturn_append (by rw [List.getLast?_concat]; decide)]
  have headed : ("@@ -".toList ++ rangeText before hunk.removed.length ++ " +".toList ++
      rangeText after hunk.added.length ++ " @".toList ++ ['@']) ++
        Text.dropReturn hunk.heading.val = "@@ ".toList ++
      (('-' :: rangeText before hunk.removed.length) ++ ' ' ::
        (('+' :: rangeText after hunk.added.length) ++ ' ' ::
          ('@' :: '@' :: Text.dropReturn hunk.heading.val))) := by
    simp
  have unnamed (behind : List Char) : ("@@ ".toList ++ behind).dropPrefix? "+++ ".toList = none := rfl
  rw [headed, changedLine, unnamed, List.dropPrefix?_append_of_beq _ (beq_self_eq_true _)]
  cases under with
  | none => rfl
  | some file =>
    dsimp only
    rw [addedRange_text fits]
    dsimp only
    split
    · next none => simp [note, Hunk.lines, none]
    · next some =>
      have stop : (Checked.add 64 (after + 1) hunk.added.length : Outcome Empty Nat) =
          .ok (after + 1 + hunk.added.length) := Checked.add_eq_ok (by omega)
      have lines : hunk.lines after ≠ ∅ := by
        simp only [Hunk.lines, ne_eq, Finset.Ico_eq_empty_iff, not_not]
        omega
      rw [stop, Outcome.ok_bind, note]
      dsimp only
      rw [if_neg lines]
      rfl

theorem reads_hunk {hunk : Hunk} {before after : Nat} {own : Option Path}
    (fits : after + hunk.added.length < 2 ^ 63) :
    Reads { changed, file := under } (hunk.text before after)
      { changed := note changed { own, under, lines := hunk.lines after }
        file := hunk.namedAfter under } := by
  apply Reads.cons (changedLine_head fits)
  apply ((reads_removed _).append (reads_unended _)).append
  exact (reads_added _).append (reads_unended _)

theorem reads_hunks {hunks : List Hunk} {rest : List Line} {before after : Nat} {own : Option Path}
    (fits : after + (newVersion hunks rest).length < 2 ^ 63) :
    ∃ named, Reads { changed, file := under } (hunksText before after hunks)
      { changed := (readings own under after hunks).foldl note changed, file := named } := by
  induction hunks generalizing changed under before after with
  | nil => exact ⟨under, rfl⟩
  | cons hunk hunks ih =>
    have length : (newVersion (hunk :: hunks) rest).length =
        hunk.kept.length + hunk.added.length + (newVersion hunks rest).length := by
      simp [newVersion]
      omega
    rw [length] at fits
    have behind : after + hunk.kept.length + hunk.added.length + (newVersion hunks rest).length <
        2 ^ 63 := by omega
    obtain ⟨named, others⟩ := ih behind
    exact ⟨named, (reads_hunk (by omega)).append others⟩

theorem reads_file (file : FileChange) :
    ∃ named, Reads reader file.text
      { changed := file.readings.foldl note reader.changed, file := named } := by
  have headers : Reads reader (file.header.map (·.val)) reader := by
    apply reads_others
    exact List.forall_mem_map.mpr file.worded
  rw [FileChange.text]
  cases hunks : file.hunks with
  | nil =>
    refine ⟨reader.file, ?_⟩
    rw [FileChange.readings, hunks, readings]
    simpa using headers
  | cons hunk hunks' =>
    rw [← hunks, hunks, List.isEmpty_cons, if_neg Bool.false_ne_true, ← hunks]
    have old : Reads reader [("--- ".toList ++ label 'a' file.old)] reader := by
      apply reads_others
      rintro line member c first
      rw [List.mem_singleton.mp member] at first
      cases first
      decide
    have whole : Text.dropReturn ("+++ ".toList ++ label 'b' file.new) =
        "+++ ".toList ++ label 'b' file.new := by
      apply Text.dropReturn_of_getLast?
      intro last
      rcases List.mem_append.mp (List.mem_of_getLast? last) with plain | member
      · revert plain
        decide
      · exact not_mem_label (by decide) _ (by decide) (by decide) member
    have new : changedLine reader (Text.dropReturn ("+++ ".toList ++ label 'b' file.new)) =
        .ok { reader with file := postImage (label 'b' file.new) } := by
      rw [whole, changedLine, List.dropPrefix?_append_of_beq _ (beq_self_eq_true _)]
    have fits : 0 + (newVersion file.hunks file.rest).length < 2 ^ 63 := by
      have := file.fits
      omega
    obtain ⟨named, all⟩ := reads_hunks fits
    exact ⟨named, headers.append (old.append (.cons new all))⟩

theorem reads_change (files : List FileChange) :
    ∃ named, Reads reader (files.flatMap (·.text))
      { changed := (files.flatMap (·.readings)).foldl note reader.changed, file := named } := by
  induction files generalizing reader with
  | nil => exact ⟨reader.file, rfl⟩
  | cons file files ih =>
    obtain ⟨named, first⟩ := reads_file file
    obtain ⟨last, others⟩ := ih
    rw [List.flatMap_cons, List.flatMap_cons, List.foldl_append]
    exact ⟨last, first.append others⟩

theorem unbroken_text (file : FileChange) : ∀ line ∈ file.text, '\n' ∉ line := by
  have ranged (before count : Nat) : '\n' ∉ rangeText before count := fun member =>
    absurd (shown_rangeText _ member) (by decide)
  have ended (unended : Bool) : ∀ line ∈ unendedText unended, '\n' ∉ line := by
    cases unended <;> decide
  have hunkText (hunk : Hunk) (before after : Nat) :
      ∀ line ∈ hunk.text before after, '\n' ∉ line := by
    rw [Hunk.text]
    simp only [List.forall_mem_cons, List.forall_mem_append, List.forall_mem_map]
    refine ⟨?_, ⟨?_, ended _⟩, ?_, ended _⟩
    · simp [ranged, hunk.heading.property]
    · rintro line - broken
      exact line.property ((List.mem_cons.mp broken).resolve_left (by decide))
    · rintro line - broken
      exact line.property ((List.mem_cons.mp broken).resolve_left (by decide))
  have hunks (hunks : List Hunk) (before after : Nat) :
      ∀ line ∈ hunksText before after hunks, '\n' ∉ line := by
    induction hunks generalizing before after with
    | nil => exact fun _ member => absurd member (List.not_mem_nil)
    | cons hunk hunks ih => exact List.forall_mem_append.mpr ⟨hunkText _ _ _, ih _ _⟩
  have named (side : Char) (plain : 0x20 ≤ side.toNat) (path : Option Path) :
      '\n' ∉ label side path := not_mem_label plain path (by decide) (by decide)
  rw [FileChange.text, List.forall_mem_append]
  constructor
  · simp only [List.forall_mem_map]
    exact fun line _ => line.property
  · split
    · exact fun _ member => absurd member (List.not_mem_nil)
    · simp only [List.forall_mem_cons]
      refine ⟨?_, ?_, hunks _ _ _⟩
      · simp [named 'a' (by decide)]
      · simp [named 'b' (by decide)]

theorem changedLines_diff (change : Change) :
    changedLines change.diff = .ok (change.readings.foldl note []) := by
  have unbroken : ∀ line ∈ change.files.flatMap (·.text), '\n' ∉ line := by
    intro line member
    obtain ⟨file, -, member⟩ := List.mem_flatMap.mp member
    exact unbroken_text file line member
  obtain ⟨named, reads⟩ := reads_change change.files
  rw [changedLines, Change.diff, Text.lines_flatMap unbroken]
  exact Outcome.bind_of_eq_ok reads rfl

end Diffs

theorem eq_of_nodup_filterMap {α β : Type} {f : α → Option β} {items : List α}
    (once : (items.filterMap f).Nodup) {left right : α} (left_mem : left ∈ items)
    (right_mem : right ∈ items) {value : β} (of_left : f left = some value)
    (of_right : f right = some value) : left = right := by
  let Same (left right : α) : Prop := f left = some value → f right = some value → left = right
  have differ := List.pairwise_filterMap.mp once
  exact List.Pairwise.forall_of_forall_of_flip (R := Same) (fun _ _ _ _ => rfl)
    (differ.imp fun differ left right => absurd rfl (differ _ left _ right))
    (differ.imp fun differ left right => absurd rfl (differ _ right _ left))
    left_mem right_mem of_left of_right

section Exactness

variable {change : Change} {path : Path} {n : Nat}

theorem mem_diff : n ∈ (find path (change.readings.foldl note [])).getD ∅ ↔
    ∃ reading ∈ change.readings, reading.under = some path ∧ n ∈ reading.lines := by
  rw [mem_notes]
  simp [find]

theorem file_of_reading {reading : Reading} (member : reading ∈ change.readings)
    (among : n ∈ reading.lines) :
    ∃ file ∈ change.files, file.new = reading.own ∧ file.Adds n ∧ ∃ path, file.new = some path := by
  obtain ⟨file, of, member⟩ := List.mem_flatMap.mp member
  have adds : file.Adds n := FileChange.adds_iff.mpr ⟨reading, member, among⟩
  refine ⟨file, of, (own_of_mem_readings member).symm, adds, ?_⟩
  apply Option.isSome_iff_exists.mp
  by_contra none
  obtain ⟨line, -, found⟩ := adds
  rw [file.gone (by simpa using none)] at found
  cases found

theorem adds_iff_reading {file : FileChange} (of : file ∈ change.files)
    (named : file.new = some path) :
    file.Adds n ↔ ∃ reading ∈ change.readings, reading.own = some path ∧ n ∈ reading.lines := by
  rw [FileChange.adds_iff]
  constructor
  · rintro ⟨reading, member, among⟩
    refine ⟨reading, List.mem_flatMap.mpr ⟨file, of, member⟩, ?_, among⟩
    rw [own_of_mem_readings member, named]
  · rintro ⟨reading, member, own, among⟩
    obtain ⟨other, of', member⟩ := List.mem_flatMap.mp member
    have same : other = file := by
      have both : other.new = file.new := by
        rw [← own_of_mem_readings member, own, named]
      exact eq_of_nodup_filterMap change.apart of' of (both.trans named) named
    exact ⟨reading, same ▸ member, among⟩

/-- A diff is read exactly if and only if its hunks are read under their own files, or it makes
no difference. -/
theorem changedLines_exact_iff (change : Change) :
    (∃ changed, changedLines change.diff = .ok changed ∧ Exact change changed) ↔
      change.Attributed := by
  rw [changedLines_diff]
  simp only [Outcome.ok.injEq, exists_eq_left']
  constructor
  · intro exact_ reading member apart n among
    obtain ⟨file, of, own, adds, path, named⟩ := file_of_reading member among
    constructor
    · have held := (exact_.lines file of path named n).mpr adds
      rw [← own, named]
      exact mem_diff.mp held
    · intro under read
      have held := mem_diff.mpr ⟨reading, member, read, among⟩
      have key : under ∈ (change.readings.foldl note []).map Prod.fst := by
        rw [← not_not (a := under ∈ _), ← Ordered.find_eq_none_iff]
        intro none
        rw [none] at held
        simp at held
      obtain ⟨other, of', named'⟩ := exact_.files under key
      exact (adds_iff_reading of' named').mp ((exact_.lines other of' under named' n).mp held)
  · intro attributed
    constructor
    · intro file of path named n
      rw [mem_diff, adds_iff_reading of named]
      constructor
      · rintro ⟨reading, member, under, among⟩
        by_cases same : reading.under = reading.own
        · exact ⟨reading, member, same.symm.trans under, among⟩
        · exact (attributed reading member same n among).2 path under
      · rintro ⟨reading, member, own, among⟩
        by_cases same : reading.under = reading.own
        · exact ⟨reading, member, same.trans own, among⟩
        · exact own ▸ (attributed reading member same n among).1
    · intro path key
      rcases mem_keys_notes key with absent | ⟨reading, member, under, n, among⟩
      · cases absent
      · have own : ∃ other ∈ change.readings, other.own = some path ∧ n ∈ other.lines := by
          by_cases same : reading.under = reading.own
          · exact ⟨reading, member, same.symm.trans under, among⟩
          · exact (attributed reading member same n among).2 path under
        obtain ⟨other, member, own, among⟩ := own
        obtain ⟨file, of, named, -⟩ := file_of_reading member among
        exact ⟨file, of, named.trans own⟩

end Exactness

/-- A file of three lines whose first and last are changed, the first to one that names
another file. -/
def misnaming : Change where
  files := [
    { old := some ['a']
      new := some ['a']
      hunks := [
        { kept := [], removed := [⟨['x'], by decide⟩], added := [⟨"++ b/c".toList, by decide⟩]
          removedUnended := false, addedUnended := false, heading := ⟨[], by decide⟩ },
        { kept := [⟨['y'], by decide⟩], removed := [⟨['z'], by decide⟩]
          added := [⟨['w'], by decide⟩], removedUnended := false, addedUnended := false
          heading := ⟨[], by decide⟩ }]
      rest := []
      header := [⟨"diff --git a/a b/a".toList, by decide⟩]
      worded := by simp
      made := by decide
      gone := by decide
      fits := by decide }]
  apart := by decide

/-- Its last line is read as a line of the other. -/
theorem misnaming_misread : ∃ changed, changedLines misnaming.diff = .ok changed ∧
    ¬ Exact misnaming changed := by
  refine ⟨[(['a'], {1}), (['c'], {3})], ?_, ?_⟩
  · rw [changedLines_diff]
    rfl
  · intro exact_
    obtain ⟨file, member, named⟩ := exact_.files ['c'] (by decide)
    rw [List.mem_singleton.mp member] at named
    cases named

end Supercov.PatchView
