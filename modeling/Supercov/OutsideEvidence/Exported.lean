import Supercov.OutsideEvidence.Events
import Supercov.OutsideEvidence.Export

/-!
# Reading what was exported

An exported tracefile is read back as the lines of its files, each with a count where it ran.
The functions of a file come back by the last part of their names: a function is entered where
the last one starts that has its last part.
-/

namespace Supercov.OutsideEvidence

open Ordered (find Sorted mapOf)
open Counters (tallied)

def lastPart (name : Name) : Name :=
  ((Text.trimEnd name).splitOn ',').getLast (List.splitOn_ne_nil _ _)

def startOf (functions : List FunctionRecord) (name : Name) : Option Nat :=
  ((functions.filter fun function => lastPart function.name = lastPart name).getLast?).map (·.line)

def FileView.CoveredAt (file : FileView) (line : Nat) : Prop :=
  ∃ function ∈ file.functions, function.covered = true ∧ function.line = line

def FileView.EnteredAt (file : FileView) (line : Nat) : Prop :=
  ∃ function ∈ file.functions, function.covered = true ∧ startOf file.functions function.name = some line

instance (file : FileView) (line : Nat) : Decidable (file.CoveredAt line) :=
  inferInstanceAs (Decidable (∃ function ∈ file.functions,
    function.covered = true ∧ function.line = line))

instance (file : FileView) (line : Nat) : Decidable (file.EnteredAt line) :=
  inferInstanceAs (Decidable (∃ function ∈ file.functions,
    function.covered = true ∧ startOf file.functions function.name = some line))

structure FileView.Reimports (file : FileView) (record : RecordedFile) : Prop where
  lines : record.lines.map Prod.fst = file.measuredLines
  covered : ∀ entry ∈ record.lines, 0 < entry.2 ↔ entry.1 ∉ file.uncoveredLines
  starts : ∀ function ∈ file.functions,
    0 < Counters.count function.line record.functions ↔ file.CoveredAt function.line

/-- The export is accepted, with a record for each file of the view and no other. -/
def Reimports (view : RunView) : Prop :=
  ∃ files, parseLcov (lcov view) = .ok files ∧ files.map Prod.fst = view.files.map (·.file) ∧
    ∀ file ∈ view.files, ∃ record, find file.file files = some record ∧ file.Reimports record

def RunView.Unbroken (view : RunView) : Prop :=
  ∀ file ∈ view.files, '\n' ∉ file.file ∧ ∀ function ∈ file.functions, '\n' ∉ function.name

/-- There is a file, no path ends in white space, and where a function starts, a reader enters a
covered function if and only if one starts there. -/
structure Reimportable (view : RunView) : Prop where
  some : view.files ≠ []
  paths : ∀ file ∈ view.files, Text.trimEnd file.file = file.file
  starts : ∀ file ∈ view.files, ∀ function ∈ file.functions,
    file.EnteredAt function.line ↔ file.CoveredAt function.line

section Names

variable {name : Name} {functions : List FunctionRecord}

theorem comma_not_mem_lastPart (name : Name) : ',' ∉ lastPart name := by
  intro member
  have piece : lastPart name ∈ (Text.trimEnd name).splitOnP (· == ',') :=
    List.getLast_mem (List.splitOn_ne_nil ',' (Text.trimEnd name))
  have other := Text.not_of_mem_splitOnP piece member
  simp at other

theorem lastPart_of_comma_not_mem (single : ',' ∉ Text.trimEnd name) :
    lastPart name = Text.trimEnd name := by
  simp [lastPart, List.splitOn_eq_singleton single]

def starts (functions : List FunctionRecord) : List (Name × Nat) :=
  functions.map fun function => (lastPart function.name, function.line)

theorem find_starts (key : Name) : find key (mapOf (starts functions)) =
    ((functions.filter fun function => lastPart function.name = key).getLast?).map (·.line) := by
  rw [Ordered.find_mapOf, starts, List.filter_map, List.getLast?_map, Option.map_map]
  exact congrArg (fun chosen => Option.map _ (List.getLast? chosen))
    (List.filter_congr fun function _ => decide_eq_decide.mpr Iff.rfl)

theorem functionLine_starts (name : Name) :
    functionLine (mapOf (starts functions)) (Text.trimEnd name) (lastPart name) =
      startOf functions name := by
  rw [functionLine, find_starts (lastPart name)]
  by_cases single : ',' ∈ Text.trimEnd name
  · have unnamed : functions.filter (fun function => lastPart function.name = Text.trimEnd name) = [] := by
      rw [List.filter_eq_nil_iff]
      intro function _ same
      rw [← of_decide_eq_true same] at single
      exact comma_not_mem_lastPart _ single
    rw [find_starts, unnamed]
    rfl
  · rw [← lastPart_of_comma_not_mem single, find_starts, Option.or_self]
    rfl

end Names

section Tags

variable {place : Place} {tag : String} {fields : List (List Char)} {index : Nat}

def Plain (tag : String) : Prop :=
  (tag.toList.head?.all fun c => !Text.isWhitespace c) = true ∧ ':' ∉ tag.toList

instance (tag : String) : Decidable (Plain tag) :=
  inferInstanceAs (Decidable (_ = true ∧ ':' ∉ tag.toList))

theorem trim_tagged (plain : Plain tag) : Text.trim (Text.dropReturn (tagged tag fields)) =
    tag.toList ++ ':' :: Text.trimEnd ([','].intercalate fields) := by
  have first : ∀ c ∈ tag.toList.head?, Text.isWhitespace c = false := by
    intro c starts
    have shown := plain.1
    rw [Option.mem_def.mp starts] at shown
    simpa using shown
  exact Text.trim_dropReturn_append_cons first (by decide)

theorem splitOnce_tagged (plain : Plain tag) :
    Text.splitOnce ':' (Text.trim (Text.dropReturn (tagged tag fields))) =
      some (tag.toList, Text.trimEnd ([','].intercalate fields)) := by
  rw [trim_tagged plain, Text.splitOnce_append plain.2]

theorem shown_tagged (plain : Plain tag) (fields : List (List Char)) :
    Text.trim (Text.dropReturn (tagged tag fields)) ≠ [] ∧
      Text.trim (Text.dropReturn (tagged tag fields)) ≠ "end_of_record".toList := by
  rw [trim_tagged plain]
  constructor
  · simp
  · intro same
    have colon : ':' ∈ "end_of_record".toList := by rw [← same]; simp
    revert colon
    decide

theorem readEvent_silent (plain : Plain tag)
    (silent : tag.toList ∉ ["SF".toList, "DA".toList, "FN".toList, "FNDA".toList]) :
    readEvent place index (Text.dropReturn (tagged tag fields)) = .ok (place, []) := by
  obtain ⟨shown, record⟩ := shown_tagged plain fields
  have ⟨unnamed, uncounted⟩ := List.ne_and_not_mem_of_not_mem_cons silent
  rw [readEvent]
  dsimp only
  rw [if_neg shown, if_neg record, splitOnce_tagged plain]
  dsimp only
  rw [if_neg unnamed, if_neg uncounted]

theorem readEvent_file (path : Name) :
    readEvent place index (Text.dropReturn (tagged "SF" [path])) =
      .ok ({ current := some (Text.trimEnd path), functionLines := [] },
        [.file (Text.trimEnd path)]) := by
  have plain : Plain "SF" := by decide
  obtain ⟨shown, record⟩ := shown_tagged plain [path]
  rw [readEvent]
  dsimp only
  rw [if_neg shown, if_neg record, splitOnce_tagged plain]
  simp

theorem number_decimal {n : Nat} (fits : n < 2 ^ 64) (what : String) (index : Nat) :
    number (Text.decimal n) what index = .ok n := by
  have digits : Text.trim (Text.decimal n) = Text.decimal n :=
    Text.trim_of_shown fun _ member =>
      Text.isWhitespace_of_isDigit (Text.isDigit_of_mem_decimal member)
  rw [number, digits, Text.unsigned_decimal fits]

theorem comma_not_mem_decimal (n : Nat) : ',' ∉ Text.decimal n := by
  intro member
  have digit := Text.isDigit_of_mem_decimal member
  cases digit

theorem splitOn_decimal (n : Nat) (name : Name) :
    (Text.trimEnd ([','].intercalate [Text.decimal n, name])).splitOn ',' =
      Text.decimal n :: (Text.trimEnd name).splitOn ',' := by
  have joined : [','].intercalate [Text.decimal n, name] = Text.decimal n ++ ',' :: name := by
    simp [List.intercalate]
  rw [joined, Text.trimEnd_append_cons (by decide),
    List.splitOn_append_cons_self_of_not_mem (comma_not_mem_decimal n)]

theorem fnFields_cons {line : List Char} {parts : List (List Char)} (some : parts ≠ []) :
    fnFields index (line :: parts) =
      (number line "FN line" index >>= fun line => pure (parts.getLast some, line)) := by
  cases parts with
  | nil => exact absurd rfl some
  | cons name rest => rfl

theorem fndaFields_cons {count : List Char} {parts : List (List Char)} (some : parts ≠ []) :
    fndaFields index (count :: parts) = (number count "FNDA count" index >>= fun count =>
      pure (count, [','].intercalate parts, parts.getLast some)) := by
  cases parts with
  | nil => exact absurd rfl some
  | cons name rest => rfl

variable {path : Name} {held : List (Name × Nat)}

theorem readEvent_functionStart {function : FunctionRecord} (fits : function.line < 2 ^ 64) :
    readEvent { current := some path, functionLines := held } index
      (Text.dropReturn (functionStart function)) =
        .ok ({ current := some path,
               functionLines := Ordered.put (lastPart function.name) function.line held }, []) := by
  have plain : Plain "FN" := by decide
  rw [functionStart, readEvent]
  obtain ⟨shown, record⟩ := shown_tagged plain
    [Text.decimal function.line, function.name]
  dsimp only
  rw [if_neg shown, if_neg record, splitOnce_tagged plain]
  dsimp only
  rw [if_neg (by decide), if_pos (by decide), if_neg (by decide), if_pos (by decide),
    splitOn_decimal, fnFields_cons (List.splitOn_ne_nil _ _), number_decimal fits]
  rfl

theorem readEvent_functionHit (function : FunctionRecord) :
    readEvent { current := some path, functionLines := held } index
      (Text.dropReturn (functionHit function)) =
        .ok ({ current := some path, functionLines := held },
          (functionLine held (Text.trimEnd function.name) (lastPart function.name)).toList.map
            fun line => .entered path line function.covered.toNat) := by
  have plain : Plain "FNDA" := by decide
  have fits : function.covered.toNat < 2 ^ 64 := by cases function.covered <;> decide
  rw [functionHit, readEvent, flag]
  obtain ⟨shown, record⟩ := shown_tagged plain
    [Text.decimal function.covered.toNat, function.name]
  dsimp only
  rw [if_neg shown, if_neg record, splitOnce_tagged plain]
  dsimp only
  rw [if_neg (by decide), if_pos (by decide), if_neg (by decide), if_neg (by decide),
    splitOn_decimal, fndaFields_cons (List.splitOn_ne_nil _ _), number_decimal fits,
    List.intercalate_splitOn]
  rfl

theorem readEvent_lineData {hit : Nat × Bool} (fits : hit.1 < 2 ^ 64) :
    readEvent { current := some path, functionLines := held } index
      (Text.dropReturn (lineData hit)) =
        .ok ({ current := some path, functionLines := held },
          [.ran path hit.1 hit.2.toNat]) := by
  have plain : Plain "DA" := by decide
  have bit : hit.2.toNat < 2 ^ 64 := by cases hit.2 <;> decide
  have digits : ∀ c ∈ Text.decimal hit.2.toNat, Text.isWhitespace c = false := fun _ member =>
    Text.isWhitespace_of_isDigit (Text.isDigit_of_mem_decimal member)
  have end_kept : Text.trimEnd (Text.decimal hit.2.toNat) = Text.decimal hit.2.toNat :=
    Text.trimEnd_of_getLast? fun c last => digits c (List.mem_of_getLast? last)
  rw [lineData, readEvent, flag]
  obtain ⟨shown, record⟩ := shown_tagged plain
    [Text.decimal hit.1, Text.decimal hit.2.toNat]
  dsimp only
  rw [if_neg shown, if_neg record, splitOnce_tagged plain]
  dsimp only
  rw [if_neg (by decide), if_pos (by decide), if_pos (by decide), splitOn_decimal, end_kept,
    List.splitOn_eq_singleton (comma_not_mem_decimal _), daFields, number_decimal fits,
    Outcome.ok_bind, Text.trim_of_shown digits, Text.unsigned_decimal bit]
  rfl

end Tags

def Reads (place : Place) (lines : List (List Char)) (place' : Place) (events : List Event) : Prop :=
  ∀ index, readEvents place index (lines.map Text.dropReturn) = .ok (place', events)

namespace Reads

variable {place place' place'' : Place} {lines others : List (List Char)} {events more : List Event}

theorem nil : Reads place [] place [] := fun _ => rfl

theorem append (first : Reads place lines place' events) (second : Reads place' others place'' more) :
    Reads place (lines ++ others) place'' (events ++ more) := by
  intro index
  rw [List.map_append]
  exact readEvents_append.mpr ⟨place', events, first index, more, second _, rfl⟩

theorem single {line : List Char}
    (read : ∀ index, readEvent place index (Text.dropReturn line) = .ok (place', events)) :
    Reads place [line] place' events := by
  intro index
  rw [List.map_singleton, readEvents, read, Outcome.ok_bind]
  exact congrArg (fun all => Outcome.ok (place', all)) (List.append_nil events)

theorem flatMap {Item : Type*} {items : List Item} {line : Item → List Char}
    {said : Item → List Event} (each : ∀ item ∈ items, Reads place [line item] place (said item)) :
    Reads place (items.map line) place (items.flatMap said) := by
  induction items with
  | nil => exact nil
  | cons item items ih =>
    have ⟨first, others⟩ := List.forall_mem_cons.mp each
    exact first.append (ih others)

theorem silent (each : ∀ line ∈ lines, ∃ tag fields, Plain tag ∧
      tag.toList ∉ ["SF".toList, "DA".toList, "FN".toList, "FNDA".toList] ∧
      line = tagged tag fields) : Reads place lines place [] := by
  have read : Reads place (lines.map id) place (lines.flatMap fun _ => []) := by
    apply flatMap
    intro line member
    obtain ⟨tag, fields, plain, silent, rfl⟩ := each line member
    exact single fun _ => readEvent_silent plain silent
  rwa [List.map_id, List.flatMap_eq_nil_iff.mpr fun _ _ => rfl] at read

end Reads

section Files

variable {place : Place} {path : Name} {held : List (Name × Nat)}

theorem reads_functionStart {functions : List FunctionRecord}
    (fits : ∀ function ∈ functions, function.line < 2 ^ 64) (held : List (Name × Nat)) :
    Reads { current := some path, functionLines := held } (functions.map functionStart)
      { current := some path, functionLines := Ordered.extend held (starts functions) } [] := by
  induction functions generalizing held with
  | nil => exact Reads.nil
  | cons function functions ih =>
    have ⟨first, others⟩ := List.forall_mem_cons.mp fits
    exact (Reads.single fun _ => readEvent_functionStart first).append (ih others _)

theorem reads_totals {found hit : String} (plain : Plain found ∧ Plain hit)
    (silent : found.toList ∉ ["SF".toList, "DA".toList, "FN".toList, "FNDA".toList] ∧
      hit.toList ∉ ["SF".toList, "DA".toList, "FN".toList, "FNDA".toList]) (counts : Nat × Nat) :
    Reads place (totals found hit counts) place [] := by
  apply Reads.silent
  intro line member
  rw [totals, List.mem_pair] at member
  rcases member with rfl | rfl
  · exact ⟨found, _, plain.1, silent.1, rfl⟩
  · exact ⟨hit, _, plain.2, silent.2, rfl⟩

theorem reads_records (conditions : List ConditionRecord) :
    Reads place (mcdcRecords conditions).1 place [] := by
  apply Reads.silent
  intro line member
  obtain ⟨condition, -, member⟩ := List.mem_flatMap.mp member
  obtain ⟨sense, -, rfl⟩ := List.mem_map.mp member
  exact ⟨"MCDC", _, by decide, by decide, rfl⟩

theorem reads_branches (branches : List BranchRecord) :
    Reads place (branches.map branchData) place [] := by
  apply Reads.silent
  intro line member
  obtain ⟨branch, -, rfl⟩ := List.mem_map.mp member
  exact ⟨"BRDA", _, by decide, by decide, rfl⟩

def FileView.said (file : FileView) : List Event :=
  let path := Text.trimEnd file.file
  .file path :: (file.functions.flatMap fun function =>
    (startOf file.functions function.name).toList.map
      fun line => .entered path line function.covered.toNat) ++
    file.lineHits.flatMap fun hit => [.ran path hit.1 hit.2.toNat]

theorem reads_functionHit (functions : List FunctionRecord) :
    Reads { current := some path, functionLines := mapOf (starts functions) }
      (functions.map functionHit)
      { current := some path, functionLines := mapOf (starts functions) }
      (functions.flatMap fun function => (startOf functions function.name).toList.map
        fun line => .entered path line function.covered.toNat) := by
  apply Reads.flatMap
  intro function _
  apply Reads.single
  intro index
  rw [readEvent_functionHit, functionLine_starts]

theorem reads_lineData (file : FileView) :
    Reads { current := some path, functionLines := held } (file.lineHits.map lineData)
      { current := some path, functionLines := held }
      (file.lineHits.flatMap fun hit => [.ran path hit.1 hit.2.toNat]) := by
  apply Reads.flatMap
  intro hit member
  obtain ⟨line, measured, rfl⟩ := List.mem_map.mp member
  exact Reads.single fun _ => readEvent_lineData (file.measured_fit line measured)

theorem reads_end : Reads place ["end_of_record".toList] .outside [] := by
  apply Reads.single
  intro index
  have kept : Text.dropReturn "end_of_record".toList = "end_of_record".toList := by decide
  have trimmed : Text.trim "end_of_record".toList = "end_of_record".toList := by decide
  rw [kept, readEvent]
  dsimp only
  rw [trimmed, if_neg (by decide), if_pos rfl]

theorem FileView.reads (file : FileView) : Reads place (fileLines file) .outside file.said := by
  have header : Reads place [tagged "TN" [], tagged "SF" [file.file]]
      { current := some (Text.trimEnd file.file), functionLines := [] }
      [.file (Text.trimEnd file.file)] :=
    (Reads.single fun _ => readEvent_silent (by decide) (by decide)).append
      (Reads.single fun _ => readEvent_file file.file)
  have functions := (header.append (reads_functionStart file.functions_fit [])).append
    (reads_functionHit file.functions)
  have functionTotals := functions.append
    (reads_totals (by decide : Plain "FNF" ∧ Plain "FNH") (by decide) (file.metric .functions))
  have branches := (functionTotals.append (reads_branches file.branches)).append
    (reads_totals (by decide : Plain "BRF" ∧ Plain "BRH") (by decide) (file.metric .branches))
  have shown (place : Place) : Reads place (if 0 < (mcdcRecords file.conditions).2.1 then
      totals "MCF" "MCH" ((mcdcRecords file.conditions).2.2, (mcdcRecords file.conditions).2.1)
      else []) place [] := by
    split
    · exact reads_totals (by decide) (by decide) _
    · exact Reads.nil
  have lines := ((branches.append (reads_records file.conditions)).append (shown _)).append
    (reads_lineData file)
  have whole : Reads place (fileLines file) .outside _ := (lines.append
    (reads_totals (by decide : Plain "LF" ∧ Plain "LH") (by decide) (file.metric .lines))).append
    reads_end
  simpa only [FileView.said, List.append_nil, List.singleton_append, List.append_assoc] using whole

end Files

section Breaks

theorem unbroken_decimal (n : Nat) : '\n' ∉ Text.decimal n := by
  intro member
  have digit := Text.isDigit_of_mem_decimal member
  cases digit

theorem unbroken_tagged {tag : String} {fields : List (List Char)} (head : '\n' ∉ tag.toList)
    (clean : ∀ field ∈ fields, '\n' ∉ field) : '\n' ∉ tagged tag fields := by
  intro member
  rw [tagged, List.mem_append, List.mem_cons] at member
  rcases member with member | same | member
  · exact head member
  · cases same
  · rcases Text.mem_of_mem_intercalate member with same | ⟨field, inside, member⟩
    · cases same
    · exact clean field inside member

theorem unbroken_conditionName (condition : ConditionRecord) (index : Nat) :
    '\n' ∉ conditionName condition index := by
  intro member
  rw [conditionName] at member
  split at member
  · rcases List.mem_append.mp member with member | member
    · revert member
      decide
    · exact unbroken_decimal _ member
  · rcases Text.mem_of_mem_intercalate member with same | ⟨word, inside, member⟩
    · cases same
    · have shown := Text.isWhitespace_of_mem_words inside member
      cases shown

theorem unbroken_records {conditions : List ConditionRecord} :
    ∀ line ∈ (mcdcRecords conditions).1, '\n' ∉ line := by
  intro line member
  obtain ⟨⟨condition, size, index⟩, -, member⟩ := List.mem_flatMap.mp member
  obtain ⟨sense, senses, rfl⟩ := List.mem_map.mp member
  have sense_clean : '\n' ∉ [sense] := by
    rcases List.mem_pair.mp senses with rfl | rfl <;> decide
  apply unbroken_tagged (by decide)
  simp only [List.forall_mem_cons, flag]
  exact ⟨unbroken_decimal _, unbroken_decimal _, sense_clean, unbroken_decimal _,
    unbroken_decimal _, unbroken_conditionName _ _, by simp⟩

theorem unbroken_totals {found hit : String} {counts : Nat × Nat}
    (clean : '\n' ∉ found.toList ∧ '\n' ∉ hit.toList) :
    ∀ line ∈ totals found hit counts, '\n' ∉ line := by
  intro line member
  rcases List.mem_pair.mp member with rfl | rfl
  · exact unbroken_tagged clean.1 (by simpa using unbroken_decimal _)
  · exact unbroken_tagged clean.2 (by simpa using unbroken_decimal _)

theorem FileView.unbroken {file : FileView} (path : '\n' ∉ file.file)
    (names : ∀ function ∈ file.functions, '\n' ∉ function.name) :
    ∀ line ∈ fileLines file, '\n' ∉ line := by
  have header : ∀ line ∈ [tagged "TN" [], tagged "SF" [file.file]], '\n' ∉ line := by
    intro line member
    rcases List.mem_pair.mp member with rfl | rfl
    · decide
    · exact unbroken_tagged (by decide) (by simpa using path)
  have functionStarts : ∀ line ∈ file.functions.map functionStart, '\n' ∉ line := by
    intro line member
    obtain ⟨function, held, rfl⟩ := List.mem_map.mp member
    exact unbroken_tagged (by decide) (by simpa using ⟨unbroken_decimal _, names function held⟩)
  have functionHits : ∀ line ∈ file.functions.map functionHit, '\n' ∉ line := by
    intro line member
    obtain ⟨function, held, rfl⟩ := List.mem_map.mp member
    exact unbroken_tagged (by decide) (by simpa using ⟨unbroken_decimal _, names function held⟩)
  have branches : ∀ line ∈ file.branches.map branchData, '\n' ∉ line := by
    intro line member
    obtain ⟨branch, -, rfl⟩ := List.mem_map.mp member
    have taken : '\n' ∉ if branch.taken then ['1'] else ['-'] := by split <;> decide
    apply unbroken_tagged (by decide)
    simp only [List.forall_mem_cons]
    exact ⟨unbroken_decimal _, unbroken_decimal _, unbroken_decimal _, taken, by simp⟩
  have conditions : ∀ line ∈ (if 0 < (mcdcRecords file.conditions).2.1 then
      totals "MCF" "MCH" ((mcdcRecords file.conditions).2.2, (mcdcRecords file.conditions).2.1)
      else []), '\n' ∉ line := by
    split
    · exact unbroken_totals (by decide)
    · simp
  have lines : ∀ line ∈ file.lineHits.map lineData, '\n' ∉ line := by
    intro line member
    obtain ⟨hit, -, rfl⟩ := List.mem_map.mp member
    exact unbroken_tagged (by decide) (by simpa using ⟨unbroken_decimal _, unbroken_decimal _⟩)
  have ends : ∀ line ∈ ["end_of_record".toList], '\n' ∉ line := by decide
  simp only [fileLines, List.forall_mem_append]
  exact ⟨⟨⟨⟨⟨⟨⟨⟨⟨⟨header, functionStarts⟩, functionHits⟩, unbroken_totals (by decide)⟩, branches⟩,
    unbroken_totals (by decide)⟩, unbroken_records⟩, conditions⟩, lines⟩, unbroken_totals (by decide)⟩,
    ends⟩

end Breaks

section Views

variable {view : RunView}

def RunView.said (view : RunView) : List Event := view.files.flatMap FileView.said

theorem reads_files (files : List FileView) :
    Reads .outside (files.flatMap fileLines) .outside (files.flatMap FileView.said) := by
  induction files with
  | nil => exact Reads.nil
  | cons file files ih => exact file.reads.append ih

theorem says_lcov (unbroken : view.Unbroken) : Says (lcov view) view.said := by
  have clean : ∀ line ∈ view.files.flatMap fileLines, '\n' ∉ line := by
    intro line member
    obtain ⟨file, held, member⟩ := List.mem_flatMap.mp member
    exact FileView.unbroken (unbroken file held).1 (unbroken file held).2 line member
  refine ⟨.outside, ?_⟩
  rw [lcov, Text.lines_flatMap clean]
  exact reads_files view.files 1

theorem file_mem_said {path : Name} :
    .file path ∈ view.said ↔ ∃ file ∈ view.files, Text.trimEnd file.file = path := by
  simp only [RunView.said, List.mem_flatMap, FileView.said, List.mem_append, List.mem_cons,
    List.mem_map, Event.file.injEq, reduceCtorEq, and_false, exists_false, or_false,
    List.not_mem_nil, eq_comm]

theorem FileView.ranOf_said (file : FileView) (path : Name) : ranOf path file.said =
    if Text.trimEnd file.file = path then file.lineHits.map fun hit => (hit.1, hit.2.toNat)
    else [] := by
  simp only [FileView.said, ranOf, List.filterMap_append, List.filterMap_cons,
    List.filterMap_flatMap, List.filterMap_map]
  by_cases same : Text.trimEnd file.file = path
  · simp [same, List.map_eq_flatMap]
  · simp [same]

theorem FileView.enteredOf_said (file : FileView) (path : Name) : enteredOf path file.said =
    if Text.trimEnd file.file = path then file.functions.flatMap fun function =>
      (startOf file.functions function.name).toList.map fun line => (line, function.covered.toNat)
    else [] := by
  simp only [FileView.said, enteredOf, List.filterMap_append, List.filterMap_cons,
    List.filterMap_flatMap, List.filterMap_map]
  by_cases same : Text.trimEnd file.file = path
  · simp [same]
  · simp [same]

theorem flatMap_of_unique {Item Key Value : Type*} {key : Item → Key} {items : List Item}
    (distinct : (items.map key).Nodup) {item : Item} (member : item ∈ items)
    {of : Item → List Value} (others : ∀ other ∈ items, key other ≠ key item → of other = []) :
    items.flatMap of = of item := by
  induction items with
  | nil => cases member
  | cons first items ih =>
    have ⟨fresh, distinct⟩ := List.nodup_cons.mp distinct
    have ⟨head, behind⟩ := List.forall_mem_cons.mp others
    rw [List.flatMap_cons]
    rcases List.mem_cons.mp member with rfl | member
    · have rest : items.flatMap of = [] := by
        rw [List.flatMap_eq_nil_iff]
        intro other held
        exact behind other held fun same => fresh (same ▸ List.mem_map_of_mem held)
      rw [rest, List.append_nil]
    · rw [head fun same => fresh (same ▸ List.mem_map_of_mem member), List.nil_append,
        ih distinct member behind]

variable {file : FileView}

theorem recordOf_said (paths : ∀ file ∈ view.files, Text.trimEnd file.file = file.file)
    (member : file ∈ view.files) : recordOf file.file view.said = recordOf file.file file.said := by
  have distinct := view.files_sorted.imp ne_of_lt
  have ran : ranOf file.file view.said = ranOf file.file file.said := by
    rw [ranOf, RunView.said, List.filterMap_flatMap]
    apply flatMap_of_unique distinct member
    intro other held apart
    refine (other.ranOf_said file.file).trans (if_neg ?_)
    rwa [paths other held]
  have entered : enteredOf file.file view.said = enteredOf file.file file.said := by
    rw [enteredOf, RunView.said, List.filterMap_flatMap]
    apply flatMap_of_unique distinct member
    intro other held apart
    refine (other.enteredOf_said file.file).trans (if_neg ?_)
    rwa [paths other held]
  rw [recordOf, recordOf, ran, entered]

theorem lines_recordOf (trimmed : Text.trimEnd file.file = file.file) :
    (recordOf file.file file.said).lines = file.lineHits.map fun hit => (hit.1, hit.2.toNat) := by
  rw [recordOf, file.ranOf_said, if_pos trimmed]
  apply Counters.tallied_of_sorted saturated_add
  · rw [Sorted, FileView.lineHits, List.map_map, List.pairwise_map]
    exact file.measured_sorted
  · intro entry member
    obtain ⟨hit, -, rfl⟩ := List.mem_map.mp member
    change saturated hit.2.toNat = hit.2.toNat
    cases hit.2 <;> rfl

theorem count_recordOf (trimmed : Text.trimEnd file.file = file.file) (line : Nat) :
    0 < Counters.count line (recordOf file.file file.said).functions ↔ file.EnteredAt line := by
  have some_kept (sum : Nat) : 0 < saturated sum ↔ 0 < sum := by
    rw [saturated, lt_min_iff]
    exact and_iff_left (by decide)
  rw [recordOf, file.enteredOf_said, if_pos trimmed, Counters.count_tallied saturated_add rfl,
    some_kept, Counters.sumAt_pos_iff]
  simp only [List.mem_flatMap, List.mem_map, Option.mem_toList, Prod.mk.injEq]
  constructor
  · rintro ⟨count, ⟨function, held, start, found, rfl, rfl⟩, counted⟩
    refine ⟨function, held, ?_, found⟩
    cases covered : function.covered with
    | true => rfl
    | false => rw [covered] at counted; cases counted
  · rintro ⟨function, held, covered, found⟩
    exact ⟨_, ⟨function, held, line, found, rfl, rfl⟩, by rw [covered]; decide⟩

theorem recorded_lcov (unbroken : view.Unbroken) {files : RecordedFiles}
    (parsed : parseLcov (lcov view) = .ok files) : Recorded files view.said ∧ view.files ≠ [] := by
  obtain ⟨events, ⟨place, told⟩, recorded, path, held⟩ := parseLcov_says parsed
  obtain ⟨place', told'⟩ := says_lcov unbroken
  rw [told] at told'
  cases told'
  refine ⟨recorded, ?_⟩
  intro none
  obtain ⟨file, member, -⟩ := file_mem_said.mp held
  rw [none] at member
  cases member

theorem FileView.reimports_record (trimmed : Text.trimEnd file.file = file.file)
    (starts : ∀ function ∈ file.functions,
      file.EnteredAt function.line ↔ file.CoveredAt function.line) :
    file.Reimports (recordOf file.file file.said) where
  lines := by
    rw [lines_recordOf trimmed, FileView.lineHits, List.map_map, List.map_map]
    exact List.map_id _
  covered := by
    rw [lines_recordOf trimmed]
    intro entry member
    obtain ⟨hit, held, rfl⟩ := List.mem_map.mp member
    obtain ⟨line, -, rfl⟩ := List.mem_map.mp held
    by_cases uncovered : line ∈ file.uncoveredLines <;> simp [uncovered]
  starts := fun function held => (count_recordOf trimmed function.line).trans (starts function held)

theorem reimports_of (unbroken : view.Unbroken) (reimportable : Reimportable view) :
    Reimports view := by
  have named (path : Name) : .file path ∈ view.said ↔ path ∈ view.files.map (·.file) := by
    rw [file_mem_said, List.mem_map]
    constructor <;> rintro ⟨file, member, same⟩
    · exact ⟨file, member, (reimportable.paths file member).symm.trans same⟩
    · exact ⟨file, member, (reimportable.paths file member).trans same⟩
  obtain ⟨first, held⟩ := List.exists_mem_of_ne_nil _ reimportable.some
  obtain ⟨files, parsed, recorded⟩ := parseLcov_of_says (says_lcov unbroken)
    ((named _).mpr (List.mem_map_of_mem held))
  refine ⟨files, parsed, ?_, ?_⟩
  · apply Ordered.eq_of_mem_iff (List.pairwise_map.mpr recorded.sorted) view.files_sorted
    intro path
    rw [← named, Ordered.mem_keys_iff_lookup]
    change (∃ record, find path files = some record) ↔ _
    rw [recorded.found]
    split <;> simp_all
  · intro file member
    have found := recorded.found file.file
    rw [if_pos ((named _).mpr (List.mem_map_of_mem member)), recordOf_said reimportable.paths member]
      at found
    exact ⟨_, found, FileView.reimports_record (reimportable.paths file member)
      (reimportable.starts file member)⟩

theorem reimportable_of (unbroken : view.Unbroken) (reimports : Reimports view) :
    Reimportable view := by
  obtain ⟨files, parsed, -, each⟩ := reimports
  have ⟨recorded, present⟩ := recorded_lcov unbroken parsed
  have paths : ∀ file ∈ view.files, Text.trimEnd file.file = file.file := by
    intro file member
    obtain ⟨record, found, -⟩ := each file member
    rw [recorded.found] at found
    split at found
    · next held =>
      obtain ⟨other, -, same⟩ := file_mem_said.mp held
      rw [← same, Text.trimEnd_trimEnd]
    · cases found
  refine ⟨present, paths, ?_⟩
  intro file member function held
  obtain ⟨record, found, reimported⟩ := each file member
  have written : .file file.file ∈ view.said := file_mem_said.mpr ⟨file, member, paths file member⟩
  rw [recorded.found, if_pos written, recordOf_said paths member] at found
  cases found
  exact (count_recordOf (paths file member) function.line).symm.trans
    (reimported.starts function held)

end Views

/-- An export is read back as it was if and only if no path is cut, and no covered function is
entered at the start of another that has its last part. -/
theorem reimports_iff (view : RunView) (unbroken : view.Unbroken) :
    Reimports view ↔ Reimportable view :=
  ⟨reimportable_of unbroken, reimports_of unbroken⟩

/-- A file with two functions of these names, the first of them covered. -/
def twoFunctions (first second : Name) : RunView where
  files := [{
    file := "a.js".toList
    metric := fun metric => if metric = .branches then (0, 0) else (1, 2)
    measuredLines := [1, 5]
    uncoveredLines := [5]
    functions := [
      { line := 1, name := first, covered := true },
      { line := 5, name := second, covered := false }]
    branches := []
    conditions := []
    measured_sorted := by decide
    uncovered_sorted := by decide
    measured_fit := by decide
    functions_fit := by simp }]
  files_sorted := by simp

theorem reimports_iff_generics : Reimports (twoFunctions "f<A, B>".toList "g<A, C>".toList) := by
  refine (reimports_iff _ ?_).mpr ⟨List.cons_ne_nil _ _, ?_, ?_⟩
  · simp [RunView.Unbroken, twoFunctions]
  · simp only [twoFunctions, List.forall_mem_singleton]
    decide
  · simp only [twoFunctions, List.forall_mem_singleton]
    decide

/-- A function that never ran is read back as entered, for one of its name did. -/
theorem not_reimports_anonymous :
    ¬ Reimports (twoFunctions "(anonymous)".toList "(anonymous)".toList) := by
  intro reimports
  have unbroken : (twoFunctions "(anonymous)".toList "(anonymous)".toList).Unbroken := by
    simp [RunView.Unbroken, twoFunctions]
  have starts := (reimportable_of unbroken reimports).starts _ List.mem_cons_self _
    (List.mem_cons_of_mem _ List.mem_cons_self)
  obtain ⟨function, held, covered, line⟩ := starts.mp ⟨_, List.mem_cons_self, rfl, by decide⟩
  rcases List.mem_pair.mp held with rfl | rfl
  · cases line
  · cases covered

end Supercov.OutsideEvidence
