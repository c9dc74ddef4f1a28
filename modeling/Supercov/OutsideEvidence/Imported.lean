import Supercov.OutsideEvidence.Import
import Mathlib.Data.List.Perm.Basic

/-!
# Imported lines

An import counts a line as run where a record of a path of its file gives it a count, whatever
the order of the records, unless the counts of several paths of one file come to more than a
count holds.
-/

namespace Supercov.OutsideEvidence

open Ordered (put find Sorted)
open Counters (tallied)
open Tally (sumAt)

/-- What an accepted tracefile says. -/
def eventsIn (text : List Char) : List Event :=
  match readEvents .outside 1 (Text.lines text) with
  | .ok (_, events) => events
  | _ => []

def pathsOf (events : List Event) : List Name :=
  Ordered.setOf (events.filterMap fun event => match event with
    | .file path => some path
    | _ => none)

section Sums

variable (project : Project) (text : List Char)

def Ran (file : Name) (line : Nat) : Prop :=
  ∃ path count, .ran path line count ∈ eventsIn text ∧ Names project path file ∧ 0 < count

def Entered (file : Name) (line : Nat) : Prop :=
  ∃ path count, .entered path line count ∈ eventsIn text ∧ Names project path file ∧ 0 < count

def total (of : Name → List Event → Counts) (file : Name) (line : Nat) : Nat :=
  ((pathsOf (eventsIn text)).map fun path =>
    if Names project path file then saturated (sumAt line (of path (eventsIn text))) else 0).sum

def Fits : Prop :=
  ∀ file line, total project text ranOf file line < 2 ^ 64 ∧
    total project text enteredOf file line < 2 ^ 64

/-- The statements on lines that ran and the functions that were entered on theirs. -/
def Credits (point : PointMeta) : Prop :=
  match point.kind with
  | .statement => Ran project text point.file point.line
  | .function => Entered project text point.file point.line

def NamesFile (raw : List Char) : Prop :=
  ∃ path, Text.splitOnce ':' (Text.trim raw) = some ("SF".toList, path)

def Reordered (text text' : List Char) : Prop :=
  ∃ (before : List (List Char)) (records records' : List (List (List Char))),
    Text.lines text = before ++ records.flatten ∧ Text.lines text' = before ++ records'.flatten ∧
      records.Perm records' ∧ ∀ record ∈ records, ∃ first rest, record = first :: rest ∧ NamesFile first

/-- The import neither panics nor wraps, and loses nothing. -/
structure Folds : Prop where
  lines : ∃ merged, (recordedIn text >>= merge project) = .ok merged ∧
    (∀ file line, (∃ record, find file merged.byFile = some record ∧
      line ∈ ranLines record.lines) ↔ Ran project text file line) ∧
    ∀ file line, (∃ record, find file merged.byFile = some record ∧
      line ∈ ranLines record.functions) ↔ Entered project text file line
  ends : importLines project text ≠ .crashed
  credited : ∀ imported, importLines project text = .ok imported → ∀ id, id ∈ imported.hits ↔
    (∃ point ∈ project.points, Credits project text point ∧ point.id = id) ∨
      ∃ file ∈ imported.added, ∃ line, Ran project text file line ∧ importedId file line = id
  order : ∀ text', Reordered text text' → importLines project text' = importLines project text

end Sums

section Order

theorem number_index {value : List Char} {what what' : String} {index n : Nat}
    (read : number value what index = .ok n) (index' : Nat) : number value what' index' = .ok n := by
  rw [number] at read ⊢
  split at read
  · exact read
  · cases read

theorem daFields_index {index : Nat} {fields : List (List Char)} {entry : Nat × Nat}
    (read : daFields index fields = .ok entry) (index' : Nat) :
    daFields index' fields = .ok entry := by
  match fields, read with
  | line :: count :: rest, read =>
    obtain ⟨n, first, done⟩ := Outcome.bind_eq_ok.mp read
    exact Outcome.bind_of_eq_ok (number_index first index') done
  | [_], read => cases read
  | [], read => cases read

theorem fnFields_index {index : Nat} {fields : List (List Char)} {entry : Name × Nat}
    (read : fnFields index fields = .ok entry) (index' : Nat) :
    fnFields index' fields = .ok entry := by
  match fields, read with
  | line :: name :: rest, read =>
    obtain ⟨n, first, done⟩ := Outcome.bind_eq_ok.mp read
    exact Outcome.bind_of_eq_ok (number_index first index') done
  | [_], read => cases read
  | [], read => cases read

theorem fndaFields_index {index : Nat} {fields : List (List Char)} {entry : Nat × Name × Name}
    (read : fndaFields index fields = .ok entry) (index' : Nat) :
    fndaFields index' fields = .ok entry := by
  match fields, read with
  | count :: name :: rest, read =>
    obtain ⟨n, first, done⟩ := Outcome.bind_eq_ok.mp read
    exact Outcome.bind_of_eq_ok (number_index first index') done
  | [_], read => cases read
  | [], read => cases read

theorem readEvent_index {place : Place} {index : Nat} {raw : List Char} {next : Place × List Event}
    (read : readEvent place index raw = .ok next) (index' : Nat) :
    readEvent place index' raw = .ok next := by
  rw [readEvent] at read ⊢
  dsimp only at read ⊢
  by_cases blank : Text.trim raw = []
  · rwa [if_pos blank] at read ⊢
  rw [if_neg blank] at read ⊢
  by_cases ends : Text.trim raw = "end_of_record".toList
  · rwa [if_pos ends] at read ⊢
  rw [if_neg ends] at read ⊢
  cases split_ : Text.splitOnce ':' (Text.trim raw) with
  | none => rwa [split_] at read
  | some parts =>
    obtain ⟨tag, value⟩ := parts
    rw [split_] at read
    dsimp only at read ⊢
    by_cases named : tag = "SF".toList
    · rwa [if_pos named] at read ⊢
    rw [if_neg named] at read ⊢
    by_cases counted : tag ∈ ["DA".toList, "FN".toList, "FNDA".toList]
    · rw [if_pos counted] at read ⊢
      cases current : place.current with
      | none =>
        rw [current] at read
        cases read
      | some file =>
        rw [current] at read
        dsimp only at read ⊢
        by_cases lines : tag = "DA".toList
        · rw [if_pos lines] at read ⊢
          obtain ⟨entry, fields, rest⟩ := Outcome.bind_eq_ok.mp read
          exact Outcome.bind_of_eq_ok (daFields_index fields index') rest
        rw [if_neg lines] at read ⊢
        by_cases starts : tag = "FN".toList
        · rw [if_pos starts] at read ⊢
          obtain ⟨entry, fields, rest⟩ := Outcome.bind_eq_ok.mp read
          exact Outcome.bind_of_eq_ok (fnFields_index fields index') rest
        · rw [if_neg starts] at read ⊢
          obtain ⟨entry, fields, rest⟩ := Outcome.bind_eq_ok.mp read
          exact Outcome.bind_of_eq_ok (fndaFields_index fields index') rest
    · rwa [if_neg counted] at read ⊢

theorem readEvents_index {place : Place} {index : Nat} {lines : List (List Char)}
    {next : Place × List Event} (read : readEvents place index lines = .ok next) (index' : Nat) :
    readEvents place index' lines = .ok next := by
  induction lines generalizing place index index' next with
  | nil => exact read
  | cons raw lines ih =>
    obtain ⟨⟨place', said⟩, first, rest⟩ := Outcome.bind_eq_ok.mp read
    obtain ⟨⟨place'', others⟩, more, done⟩ := Outcome.bind_eq_ok.mp rest
    rw [readEvents, readEvent_index first, Outcome.ok_bind]
    dsimp only
    rw [ih more, Outcome.ok_bind]
    exact done

theorem readEvents_record {place place' : Place} {index : Nat} {first : List Char}
    {rest : List (List Char)} (named : NamesFile first) {next : Place × List Event}
    (read : readEvents place index (first :: rest) = .ok next) (index' : Nat) :
    readEvents place' index' (first :: rest) = .ok next := by
  obtain ⟨path, named⟩ := named
  have shown : Text.trim first ≠ [] := by
    intro blank
    rw [blank] at named
    cases named
  have record : Text.trim first ≠ "end_of_record".toList := by
    intro ends
    rw [ends] at named
    cases named
  have said (place : Place) (index : Nat) : readEvent place index first =
      .ok ({ current := some path, functionLines := [] }, [.file path]) := by
    rw [readEvent]
    dsimp only
    rw [if_neg shown, if_neg record, named]
    rfl
  apply readEvents_index
  rw [readEvents, said] at read ⊢
  exact read

def SaidBy (record : List (List Char)) (events : List Event) : Prop :=
  ∃ place, readEvents .outside 1 record = .ok (place, events)

theorem saidBy_of_read {records : List (List (List Char))}
    (named : ∀ record ∈ records, ∃ first rest, record = first :: rest ∧ NamesFile first)
    {place : Place} {index : Nat} {next : Place × List Event}
    (read : readEvents place index records.flatten = .ok next) :
    ∃ said, List.Forall₂ SaidBy records said ∧ next.2 = said.flatten := by
  induction records generalizing place index next with
  | nil =>
    cases read
    exact ⟨[], .nil, rfl⟩
  | cons record records ih =>
    have ⟨⟨first, rest, shape, file⟩, named⟩ := List.forall_mem_cons.mp named
    obtain ⟨middle, own, head, more, behind, same⟩ := readEvents_append.mp read
    obtain ⟨said, each, flat⟩ := ih named behind
    refine ⟨own :: said, .cons ⟨middle, ?_⟩ each, by rw [same, List.flatten_cons, ← flat]⟩
    rw [shape] at head ⊢
    exact readEvents_record file head 1

theorem read_of_saidBy {records : List (List (List Char))} {said : List (List Event)}
    (named : ∀ record ∈ records, ∃ first rest, record = first :: rest ∧ NamesFile first)
    (each : List.Forall₂ SaidBy records said) (place : Place) (index : Nat) :
    ∃ last, readEvents place index records.flatten = .ok (last, said.flatten) := by
  induction each generalizing place index with
  | nil => exact ⟨place, rfl⟩
  | @cons record own records said head _ ih =>
    have ⟨⟨first, rest, shape, file⟩, named⟩ := List.forall_mem_cons.mp named
    obtain ⟨middle, head⟩ := head
    obtain ⟨last, behind⟩ := ih named middle (index + record.length)
    refine ⟨last, readEvents_append.mpr ⟨middle, own, ?_, said.flatten, behind, rfl⟩⟩
    rw [shape] at head ⊢
    exact readEvents_record file head index

theorem says_reordered {text text' : List Char} (reordered : Reordered text text')
    {events : List Event} (told : Says text events) :
    ∃ events', Says text' events' ∧ events.Perm events' := by
  obtain ⟨before, records, records', lines, lines', perm, named⟩ := reordered
  obtain ⟨place, read⟩ := told
  rw [lines] at read
  obtain ⟨middle, head, first, more, behind, same⟩ := readEvents_append.mp read
  obtain ⟨said, each, flat⟩ := saidBy_of_read named behind
  obtain ⟨said', each', perm'⟩ := List.perm_comp_forall₂ perm.symm each
  have named' : ∀ record ∈ records', ∃ first rest, record = first :: rest ∧ NamesFile first :=
    fun record member => named record (perm.mem_iff.mpr member)
  obtain ⟨last, behind'⟩ := read_of_saidBy named' each' middle (1 + before.length)
  dsimp only at same flat
  refine ⟨head ++ said'.flatten, ⟨last, ?_⟩, ?_⟩
  · rw [lines']
    exact readEvents_append.mpr ⟨middle, head, first, _, behind', rfl⟩
  · rw [same, flat]
    exact perm'.symm.flatten.append_left head

theorem recorded_perm {files : RecordedFiles} {events events' : List Event}
    (recorded : Recorded files events) (perm : events.Perm events') : Recorded files events' := by
  refine ⟨recorded.sorted, ?_⟩
  intro path
  rw [recorded.found, recordOf, recordOf, ranOf, ranOf, enteredOf, enteredOf,
    Counters.tallied_perm saturated_add (perm.filterMap _),
    Counters.tallied_perm saturated_add (perm.filterMap _)]
  simp only [perm.mem_iff]

theorem parseLcov_reordered {text text' : List Char} {files : RecordedFiles}
    (parsed : parseLcov text = .ok files) (reordered : Reordered text text') :
    parseLcov text' = .ok files := by
  obtain ⟨events, told, recorded, path, held⟩ := parseLcov_says parsed
  obtain ⟨events', told', perm⟩ := says_reordered reordered told
  obtain ⟨files', parsed', recorded'⟩ := parseLcov_of_says told' (perm.mem_iff.mp held)
  rw [parsed', (recorded_perm recorded perm).unique recorded']

end Order

section Accepted

variable {project : Project} {text : List Char} {files : RecordedFiles} {file : Name} {line : Nat}

theorem eventsIn_eq {events : List Event} (told : Says text events) : eventsIn text = events := by
  obtain ⟨place, said⟩ := told
  rw [eventsIn, said]

theorem accepted (parsed : parseLcov text = .ok files) :
    Recorded files (eventsIn text) ∧ Recorded.Announced (eventsIn text) := by
  obtain ⟨events, told, recorded, -⟩ := parseLcov_says parsed
  obtain ⟨_, _, _, stands⟩ := stands_of_says told
  rw [eventsIn_eq told]
  exact ⟨recorded, stands.announced⟩

theorem mem_pathsOf {events : List Event} {path : Name} :
    path ∈ pathsOf events ↔ .file path ∈ events := by
  rw [pathsOf, Ordered.mem_setOf, List.mem_filterMap]
  constructor
  · rintro ⟨event, member, named⟩
    cases event with
    | file other =>
      cases named
      exact member
    | ran | entered => cases named
  · exact fun member => ⟨_, member, rfl⟩

theorem recorded_eq {events : List Event} (recorded : Recorded files events) :
    files = (pathsOf events).map fun path => (path, recordOf path events) := by
  have known (path : Name) : path ∈ files.map Prod.fst ↔ path ∈ pathsOf events := by
    rw [mem_pathsOf, ← not_iff_not, ← Ordered.find_eq_none_iff, recorded.found]
    split <;> simp_all
  have held : ∀ path record, find path files = some record → id record = recordOf path events := by
    intro path record found
    rw [recorded.found] at found
    split at found
    · cases found
      rfl
    · cases found
  have same := recorded.sorted.map_eq known held
  simp only [id_eq, Prod.mk.eta, List.map_id'] at same
  rw [same, pathsOf]
  congr 1
  exact Ordered.eq_of_mem_iff (Ordered.setOf_pairwise _) (Ordered.setOf_pairwise _)
    fun key => Ordered.mem_setOf

structure Counted (part : RecordedFile → Counts) (of : Name → List Event → Counts) : Prop where
  part : ∀ path events, part (recordOf path events) = tallied saturated (of path events)

theorem counted_lines : Counted (·.lines) ranOf := ⟨fun _ _ => rfl⟩

theorem counted_functions : Counted (·.functions) enteredOf := ⟨fun _ _ => rfl⟩

variable {part : RecordedFile → Counts} {of : Name → List Event → Counts}

theorem sumAt_tallied (entries : Counts) :
    sumAt line (tallied saturated entries) = saturated (sumAt line entries) := by
  rw [Counters.sumAt_of_sorted Counters.tallied_sorted, Counters.count_tallied saturated_add rfl]

theorem sumAt_countsOf (counted : Counted part of) (recorded : Recorded files (eventsIn text)) :
    sumAt line (countsOf project part file files) = total project text of file line := by
  rw [recorded_eq recorded, countsOf, List.flatMap_map, Counters.sumAt_flatMap, total]
  congr 1
  apply List.map_congr_left
  intro path _
  dsimp only
  split
  · rw [counted.part, sumAt_tallied]
  · rfl

theorem total_pos_iff : 0 < total project text of file line ↔
    ∃ path, .file path ∈ eventsIn text ∧ Names project path file ∧
      ∃ count, (line, count) ∈ of path (eventsIn text) ∧ 0 < count := by
  have positive (sum : Nat) : 0 < saturated sum ↔ 0 < sum := by
    simp only [saturated, maxCount]
    omega
  rw [total, List.sum_pos_iff_exists_pos_nat]
  simp only [List.mem_map, exists_exists_and_eq_and, mem_pathsOf]
  apply exists_congr
  intro path
  apply and_congr_right
  intro _
  split
  · next named => simp only [positive, Counters.sumAt_pos_iff, named, true_and]
  · next unnamed => simp [unnamed]

theorem total_ran (announced : Recorded.Announced (eventsIn text)) :
    0 < total project text ranOf file line ↔ Ran project text file line := by
  rw [total_pos_iff, Ran]
  apply exists_congr
  intro path
  constructor
  · rintro ⟨-, named, count, member, some⟩
    obtain ⟨event, among, same⟩ := List.mem_filterMap.mp member
    cases event with
    | ran other line' count' =>
      simp only [Option.ite_none_right_eq_some, Option.some.injEq, Prod.mk.injEq] at same
      obtain ⟨rfl, rfl, rfl⟩ := same
      exact ⟨_, among, named, some⟩
    | file | entered => cases same
  · rintro ⟨count, member, named, some⟩
    exact ⟨announced.1 _ _ _ member, named, count,
      List.mem_filterMap.mpr ⟨_, member, if_pos rfl⟩, some⟩

theorem total_entered (announced : Recorded.Announced (eventsIn text)) :
    0 < total project text enteredOf file line ↔ Entered project text file line := by
  rw [total_pos_iff, Entered]
  apply exists_congr
  intro path
  constructor
  · rintro ⟨-, named, count, member, some⟩
    obtain ⟨event, among, same⟩ := List.mem_filterMap.mp member
    cases event with
    | entered other line' count' =>
      simp only [Option.ite_none_right_eq_some, Option.some.injEq, Prod.mk.injEq] at same
      obtain ⟨rfl, rfl, rfl⟩ := same
      exact ⟨_, among, named, some⟩
    | file | ran => cases same
  · rintro ⟨count, member, named, some⟩
    exact ⟨announced.2 _ _ _ member, named, count,
      List.mem_filterMap.mpr ⟨_, member, if_pos rfl⟩, some⟩

theorem sumsFit_iff (recorded : Recorded files (eventsIn text)) :
    SumsFit project files ↔ Fits project text := by
  simp only [SumsFit, Fits, sumAt_countsOf counted_lines recorded,
    sumAt_countsOf counted_functions recorded]

theorem merged_part {merged : Merged} (holds : MergedOf project files merged)
    (recorded : Recorded files (eventsIn text)) (counted : Counted part of)
    (kept : ∀ file, part { lines := tallied id (countsOf project (·.lines) file files)
                           functions := tallied id (countsOf project (·.functions) file files) } =
      tallied id (countsOf project part file files)) :
    (∃ record, find file merged.byFile = some record ∧ line ∈ ranLines (part record)) ↔
      0 < total project text of file line := by
  have ran : line ∈ ranLines (tallied id (countsOf project part file files)) ↔
      0 < total project text of file line := by
    rw [mem_ranLines, Counters.sumAt_of_sorted Counters.tallied_sorted, count_tallied,
      sumAt_countsOf counted recorded]
  rw [holds.found]
  split
  · simp only [Option.some.injEq, exists_eq_left', kept, ran]
  · next none =>
    rw [countsOf_none _ _ none] at ran
    simp only [reduceCtorEq, false_and, exists_false, false_iff, ← ran]
    exact List.not_mem_nil

end Accepted

/-- An accepted tracefile is imported without loss if and only if the counts of the paths of
each file fit into 64 bits. -/
theorem folds_iff (project : Project) {text : List Char} {files : RecordedFiles}
    (parsed : parseLcov text = .ok files) : Folds project text ↔ Fits project text := by
  obtain ⟨recorded, announced⟩ := accepted parsed
  have read : recordedIn text = .ok files := by rw [recordedIn, parsed]
  constructor
  · intro folds
    by_contra past
    obtain ⟨merged, merges, -⟩ := folds.lines
    rw [read, Outcome.ok_bind, merge_crashed fun fits => past ((sumsFit_iff recorded).mp fits)]
      at merges
    cases merges
  · intro fits
    obtain ⟨merged, merges, holds⟩ := merge_ok ((sumsFit_iff recorded).mpr fits)
    have ran (file : Name) (line : Nat) : (∃ record, find file merged.byFile = some record ∧
        line ∈ ranLines record.lines) ↔ Ran project text file line :=
      (merged_part holds recorded counted_lines fun _ => rfl).trans (total_ran announced)
    have entered (file : Name) (line : Nat) : (∃ record, find file merged.byFile = some record ∧
        line ∈ ranLines record.functions) ↔ Entered project text file line :=
      (merged_part holds recorded counted_functions fun _ => rfl).trans (total_entered announced)
    have listed {entry : Name × RecordedFile} :
        entry ∈ merged.byFile ↔ find entry.1 merged.byFile = some entry.2 :=
      holds.sorted.mem_iff_lookup
    refine ⟨⟨merged, by rw [read]; exact merges, ran, entered⟩, ?_, ?_, ?_⟩
    · have yields : (credit project _).Yields _ := credit_yields holds.sorted
      rw [importLines, read, Outcome.ok_bind, merges, Outcome.ok_bind]
      cases done : credit project merged with
      | crashed => rw [done] at yields; exact yields.elim
      | refused => exact nofun
      | ok credited =>
        rw [Outcome.ok_bind]
        split_ifs <;> exact nofun
    · intro imported done id
      rw [importLines, read, Outcome.ok_bind, merges, Outcome.ok_bind] at done
      obtain ⟨credited, credits_, done⟩ := Outcome.bind_eq_ok.mp done
      have holds' := (credit_yields holds.sorted).of_ok credits_
      split_ifs at done
      cases done
      rw [Ordered.mem_setOf, holds'.hits]
      apply or_congr
      · constructor
        · rintro ⟨⟨file, record⟩, member, -, point, among, rfl, credits_, named⟩
          refine ⟨point, among, ?_, named⟩
          have found := listed.mp member
          simp only [credits] at credits_
          rw [Credits]
          cases kind : point.kind with
          | statement =>
            rw [kind] at credits_
            exact (ran _ _).mp ⟨record, found, of_decide_eq_true credits_⟩
          | function =>
            rw [kind] at credits_
            exact (entered _ _).mp ⟨record, found, of_decide_eq_true credits_⟩
        · rintro ⟨point, among, credits_, named⟩
          have measured : point.file ∈ project.measured := by
            rw [Project.measured, Ordered.mem_setOf]
            exact List.mem_append_left _ (List.mem_map_of_mem among)
          have found : ∃ record, find point.file merged.byFile = some record ∧
              credits record point = true := by
            rw [Credits] at credits_
            simp only [credits]
            cases kind : point.kind with
            | statement =>
              rw [kind] at credits_
              obtain ⟨record, found, held⟩ := (ran _ _).mpr credits_
              exact ⟨record, found, decide_eq_true held⟩
            | function =>
              rw [kind] at credits_
              obtain ⟨record, found, held⟩ := (entered _ _).mpr credits_
              exact ⟨record, found, decide_eq_true held⟩
          obtain ⟨record, found, held⟩ := found
          exact ⟨(point.file, record), listed.mpr found, measured, point, among, rfl, held, named⟩
      · constructor
        · rintro ⟨⟨file, record⟩, member, added, line, held, named⟩
          exact ⟨file, added, line, (ran _ _).mp ⟨record, listed.mp member, held⟩, named⟩
        · rintro ⟨file, added, line, run, named⟩
          obtain ⟨record, found, held⟩ := (ran _ _).mpr run
          exact ⟨(file, record), listed.mpr found, added, line, held, named⟩
    · intro text' reordered
      rw [importLines, importLines, recordedIn, recordedIn, parsed,
        parseLcov_reordered parsed reordered]

def oneFile : Project where
  path := fun _ => .ok ['a']
  points := [{ id := ['p'], kind := .statement, file := ['a'], line := 1, column := 0, source := []
               label := none }]
  branching := []
  scopeStatus := fun _ => none
  read := fun _ => none

theorem folds_iff_once : Folds oneFile "SF:a\nDA:1,2\n".toList ↔ Fits oneFile "SF:a\nDA:1,2\n".toList :=
  have parsed : parseLcov "SF:a\nDA:1,2\n".toList =
      .ok [(['a'], { lines := [(1, 2)], functions := [] })] := by decide
  folds_iff oneFile parsed

/-- Two paths of the file whose counts come to more than a count holds. -/
theorem not_folds_twice :
    (∃ files, parseLcov "SF:/a\nDA:1,18446744073709551615\nSF:./a\nDA:1,1\n".toList = .ok files) ∧
      importLines oneFile "SF:/a\nDA:1,18446744073709551615\nSF:./a\nDA:1,1\n".toList = .crashed ∧
      ¬ Folds oneFile "SF:/a\nDA:1,18446744073709551615\nSF:./a\nDA:1,1\n".toList := by
  have crashes : importLines oneFile
      "SF:/a\nDA:1,18446744073709551615\nSF:./a\nDA:1,1\n".toList = .crashed := by decide
  exact ⟨⟨_, rfl⟩, crashes, fun folds => folds.ends crashes⟩

end Supercov.OutsideEvidence
