import Supercov.OutsideEvidence.Lcov

/-!
# What a tracefile says

The lines of a tracefile say, one after another, which files there are, which lines ran how
often and which functions were entered how often.  What is recorded of a file is the counts of
its own events.
-/

namespace Supercov.OutsideEvidence

open Ordered (put find Sorted)

inductive Event where
  | file (path : Name)
  | ran (path : Name) (line count : Nat)
  | entered (path : Name) (line count : Nat)
  deriving DecidableEq

/-- Where a reader stands: the file named last, and the functions named in it. -/
structure Place where
  current : Option Name
  functionLines : List (Name × Nat)

def Place.outside : Place := { current := none, functionLines := [] }

/-- What a line says at its place, and the place behind it. -/
def readEvent (place : Place) (index : Nat) (raw : List Char) :
    Outcome LcovError (Place × List Event) :=
  let line := Text.trim raw
  if line = [] then .ok (place, [])
  else if line = "end_of_record".toList then .ok (.outside, [])
  else
    match Text.splitOnce ':' line with
    | none => .ok (place, [])
    | some (tag, value) =>
      if tag = "SF".toList then
        .ok ({ current := some value, functionLines := [] }, [.file value])
      else if tag ∈ ["DA".toList, "FN".toList, "FNDA".toList] then
        match place.current with
        | none => .refused (.beforeFile index tag)
        | some file =>
          let fields := value.splitOn ','
          if tag = "DA".toList then do
            let (line, count) ← daFields index fields
            return (place, [.ran file line count])
          else if tag = "FN".toList then do
            let (name, line) ← fnFields index fields
            return ({ place with functionLines := put name line place.functionLines }, [])
          else do
            let (count, name, last) ← fndaFields index fields
            return (place, (functionLine place.functionLines name last).toList.map
              fun line => .entered file line count)
      else .ok (place, [])

def readEvents (place : Place) (index : Nat) : List (List Char) → Outcome LcovError (Place × List Event)
  | [] => .ok (place, [])
  | raw :: lines => do
    let (place, events) ← readEvent place index raw
    let (place, others) ← readEvents place (index + 1) lines
    return (place, events ++ others)

theorem readEvents_append {place : Place} {index : Nat} {lines others : List (List Char)}
    {next : Place × List Event} : readEvents place index (lines ++ others) = .ok next ↔
      ∃ middle said, readEvents place index lines = .ok (middle, said) ∧
        ∃ more, readEvents middle (index + lines.length) others = .ok (next.1, more) ∧
          next.2 = said ++ more := by
  induction lines generalizing place index next with
  | nil =>
    simp only [List.nil_append, readEvents, Outcome.ok.injEq, Prod.mk.injEq, List.length_nil,
      Nat.add_zero]
    constructor
    · intro read
      exact ⟨place, [], ⟨rfl, rfl⟩, next.2, read, rfl⟩
    · rintro ⟨middle, said, ⟨rfl, rfl⟩, more, read, same⟩
      rw [read, List.nil_append] at *
      rw [← same]
  | cons raw lines ih =>
    have position : index + (lines.length + 1) = index + 1 + lines.length := by omega
    constructor
    · intro read
      obtain ⟨⟨place', said⟩, first, rest⟩ := Outcome.bind_eq_ok.mp read
      obtain ⟨⟨place'', rest_said⟩, all, done⟩ := Outcome.bind_eq_ok.mp rest
      cases done
      obtain ⟨middle, said', own, more, behind, same⟩ := ih.mp all
      dsimp only at behind same ⊢
      refine ⟨middle, said ++ said', ?_, more, ?_, by rw [same, List.append_assoc]⟩
      · rw [readEvents, first, Outcome.ok_bind]
        dsimp only
        rw [own]
        rfl
      · rwa [List.length_cons, position]
    · rintro ⟨middle, said, read, more, behind, same⟩
      obtain ⟨⟨place', said'⟩, first, rest⟩ := Outcome.bind_eq_ok.mp read
      obtain ⟨⟨place'', rest_said⟩, all, done⟩ := Outcome.bind_eq_ok.mp rest
      cases done
      have whole : readEvents place' (index + 1) (lines ++ others) = .ok (next.1, rest_said ++ more) := by
        refine ih.mpr ⟨middle, rest_said, all, more, ?_, rfl⟩
        rwa [List.length_cons, position] at behind
      rw [List.cons_append, readEvents, first, Outcome.ok_bind]
      dsimp only
      rw [whole, Outcome.ok_bind]
      dsimp only
      rw [Outcome.pure_eq, ← List.append_assoc, ← same]

def ranOf (path : Name) (events : List Event) : List (Nat × Nat) :=
  events.filterMap fun event => match event with
    | .ran file line count => if file = path then some (line, count) else none
    | _ => none

def enteredOf (path : Name) (events : List Event) : List (Nat × Nat) :=
  events.filterMap fun event => match event with
    | .entered file line count => if file = path then some (line, count) else none
    | _ => none

def recordOf (path : Name) (events : List Event) : RecordedFile where
  lines := Counters.tallied saturated (ranOf path events)
  functions := Counters.tallied saturated (enteredOf path events)

theorem saturated_add (held more : Nat) : saturated (saturated held + more) = saturated (held + more) := by
  simp only [saturated]
  omega

structure Recorded (files : RecordedFiles) (events : List Event) : Prop where
  sorted : Sorted files
  found : ∀ path, find path files =
    if .file path ∈ events then some (recordOf path events) else none

namespace Recorded

variable {files : RecordedFiles} {events : List Event} {file : Name}

theorem empty : Recorded [] [] := ⟨List.Pairwise.nil, fun _ => rfl⟩

theorem record_file (path : Name) : recordOf path (events ++ [.file file]) = recordOf path events := by
  simp [recordOf, ranOf, enteredOf]

theorem file_mem {path : Name} {event : Event} (other : ∀ path, event ≠ .file path) :
    .file path ∈ events ++ [event] ↔ .file path ∈ events := by
  simp [(other path).symm]

def Announced (events : List Event) : Prop :=
  (∀ path line count, .ran path line count ∈ events → .file path ∈ events) ∧
    ∀ path line count, .entered path line count ∈ events → .file path ∈ events

theorem record_of_not_mem (announced : Announced events) (absent : .file file ∉ events) :
    recordOf file events = { lines := [], functions := [] } := by
  have ran : ranOf file events = [] := by
    rw [ranOf, List.filterMap_eq_nil_iff]
    intro event member
    cases event with
    | ran path line count =>
      have apart : path ≠ file := fun same => absent (same ▸ announced.1 _ _ _ member)
      simp [apart]
    | file | entered => rfl
  have entered : enteredOf file events = [] := by
    rw [enteredOf, List.filterMap_eq_nil_iff]
    intro event member
    cases event with
    | entered path line count =>
      have apart : path ≠ file := fun same => absent (same ▸ announced.2 _ _ _ member)
      simp [apart]
    | file | ran => rfl
  rw [recordOf, ran, entered]
  rfl

theorem add_file (recorded : Recorded files events) (announced : Announced events) (file : Name) :
    Recorded (register file files) (events ++ [.file file]) := by
  have known : (find file files).isSome ↔ .file file ∈ events := by
    rw [recorded.found]
    split <;> simp_all
  constructor
  · rw [register]
    split
    · exact recorded.sorted
    · exact recorded.sorted.put _ _
  · intro path
    rw [record_file, register]
    by_cases same : path = file
    · subst same
      have mem : Event.file path ∈ events ++ [.file path] := by simp
      simp only [mem, if_true]
      by_cases held : (find path files).isSome
      · rw [if_pos held, recorded.found, if_pos (known.mp held)]
      · rw [if_neg held, Ordered.find_put, if_pos rfl, record_of_not_mem announced fun member =>
          held (known.mpr member)]
    · have mem : Event.file path ∈ events ++ [.file file] ↔ .file path ∈ events := by simp [same]
      simp only [mem]
      split
      · exact recorded.found path
      · rw [Ordered.find_put, if_neg same, recorded.found]

theorem counted (recorded : Recorded files events) {event : Event} {record : RecordedFile}
    (other : ∀ path, event ≠ .file path) (held : .file file ∈ events)
    (own : recordOf file (events ++ [event]) = record)
    (others : ∀ path, path ≠ file → recordOf path (events ++ [event]) = recordOf path events) :
    Recorded (put file record files) (events ++ [event]) where
  sorted := recorded.sorted.put _ _
  found := by
    intro path
    rw [Ordered.find_put]
    simp only [file_mem other]
    by_cases same : path = file
    · subst same
      rw [if_pos rfl, if_pos held, own]
    · rw [if_neg same, recorded.found, others path same]

theorem add_ran (recorded : Recorded files events) (held : .file file ∈ events) (line count : Nat) :
    Recorded (put file { recordOf file events with
      lines := (recordOf file events).lines.note line count } files)
      (events ++ [.ran file line count]) := by
  apply recorded.counted (fun _ => Event.noConfusion) held
  · simp only [recordOf, ranOf, enteredOf, List.filterMap_append]
    simp [Counts.note, Counters.tallied]
  · intro path apart
    simp [recordOf, ranOf, enteredOf, Ne.symm apart]

theorem add_entered (recorded : Recorded files events) (held : .file file ∈ events) (line count : Nat) :
    Recorded (put file { recordOf file events with
      functions := (recordOf file events).functions.note line count } files)
      (events ++ [.entered file line count]) := by
  apply recorded.counted (fun _ => Event.noConfusion) held
  · simp only [recordOf, ranOf, enteredOf, List.filterMap_append]
    simp [Counts.note, Counters.tallied]
  · intro path apart
    simp [recordOf, ranOf, enteredOf, Ne.symm apart]

end Recorded

structure Stands (reader : Reader) (place : Place) (events : List Event) : Prop where
  recorded : Recorded reader.files events
  announced : Recorded.Announced events
  current : reader.current = place.current
  functionLines : reader.functionLines = place.functionLines
  known : ∀ path, place.current = some path → .file path ∈ events

namespace Recorded.Announced

variable {events : List Event} {file : Name}

theorem append_file (announced : Announced events) (file : Name) :
    Announced (events ++ [.file file]) := by
  constructor <;> intro path line count member <;>
    simp only [List.mem_append, List.mem_singleton, reduceCtorEq, or_false] at member
  · exact List.mem_append_left _ (announced.1 _ _ _ member)
  · exact List.mem_append_left _ (announced.2 _ _ _ member)

theorem append_ran (announced : Announced events) (held : .file file ∈ events) (line count : Nat) :
    Announced (events ++ [.ran file line count]) := by
  constructor <;> intro path line' count' member <;>
    simp only [List.mem_append, List.mem_singleton, reduceCtorEq, or_false] at member
  · rcases member with member | same
    · exact List.mem_append_left _ (announced.1 _ _ _ member)
    · cases same
      exact List.mem_append_left _ held
  · exact List.mem_append_left _ (announced.2 _ _ _ member)

theorem append_entered (announced : Announced events) (held : .file file ∈ events)
    (line count : Nat) : Announced (events ++ [.entered file line count]) := by
  constructor <;> intro path line' count' member <;>
    simp only [List.mem_append, List.mem_singleton, reduceCtorEq, or_false] at member
  · exact List.mem_append_left _ (announced.1 _ _ _ member)
  · rcases member with member | same
    · exact List.mem_append_left _ (announced.2 _ _ _ member)
    · cases same
      exact List.mem_append_left _ held

end Recorded.Announced

namespace Stands

variable {reader : Reader} {place : Place} {events : List Event}

theorem start : Stands { files := [], current := none, functionLines := [] } .outside [] where
  recorded := .empty
  announced := by simp [Recorded.Announced]
  current := rfl
  functionLines := rfl
  known := fun _ named => by cases named

theorem stay (stands : Stands reader place events) : Stands reader place (events ++ []) := by
  rwa [List.append_nil]

theorem readLine_agrees (stands : Stands reader place events) (index : Nat) (raw : List Char) :
    (readEvent place index raw).Agrees
      (fun next reader' => Stands reader' next.1 (events ++ next.2)) (readLine reader index raw) := by
  rw [readEvent, readLine]
  dsimp only
  by_cases blank : Text.trim raw = []
  · rw [if_pos blank, if_pos blank]
    exact stands.stay
  rw [if_neg blank, if_neg blank]
  by_cases ends : Text.trim raw = "end_of_record".toList
  · rw [if_pos ends, if_pos ends]
    refine Stands.stay ⟨stands.recorded, stands.announced, rfl, rfl, ?_⟩
    intro path named
    cases named
  rw [if_neg ends, if_neg ends]
  cases Text.splitOnce ':' (Text.trim raw) with
  | none => exact stands.stay
  | some parts =>
    obtain ⟨tag, value⟩ := parts
    dsimp only
    by_cases named : tag = "SF".toList
    · rw [if_pos named, if_pos named]
      refine ⟨stands.recorded.add_file stands.announced value, stands.announced.append_file value,
        rfl, rfl, ?_⟩
      intro path current
      cases current
      simp
    rw [if_neg named, if_neg named]
    by_cases counted : tag ∈ ["DA".toList, "FN".toList, "FNDA".toList]
    · rw [if_pos counted, if_pos counted, stands.current]
      cases current : place.current with
      | none => exact rfl
      | some file =>
        have held := stands.known file current
        dsimp only
        rw [stands.recorded.found, if_pos held]
        dsimp only
        by_cases lines : tag = "DA".toList
        · rw [if_pos lines, if_pos lines]
          apply Outcome.Agrees.bind_left
          rintro ⟨line, count⟩ -
          exact ⟨stands.recorded.add_ran held line count, stands.announced.append_ran held line count,
            current.symm, stands.functionLines,
            fun path named => List.mem_append_left _ (stands.known path named)⟩
        rw [if_neg lines, if_neg lines]
        by_cases starts : tag = "FN".toList
        · rw [if_pos starts, if_pos starts]
          apply Outcome.Agrees.bind_left
          rintro ⟨name, line⟩ -
          refine Stands.stay ⟨stands.recorded, stands.announced, rfl, ?_, ?_⟩
          · exact congrArg (put name line) stands.functionLines
          · exact fun path named => stands.known path (current.trans named)
        · rw [if_neg starts, if_neg starts]
          apply Outcome.Agrees.bind_left
          rintro ⟨count, name, last⟩ -
          dsimp only
          rw [stands.functionLines]
          cases functionLine place.functionLines name last with
          | none => exact stands.stay
          | some line =>
            exact ⟨stands.recorded.add_entered held line count,
              stands.announced.append_entered held line count, current.symm, rfl,
              fun path named => List.mem_append_left _ (stands.known path named)⟩
    · rw [if_neg counted, if_neg counted]
      exact stands.stay

theorem readLines_agrees (stands : Stands reader place events) (index : Nat)
    (lines : List (List Char)) :
    (readEvents place index lines).Agrees
      (fun next reader' => Stands reader' next.1 (events ++ next.2))
      (readLines reader index lines) := by
  induction lines generalizing reader place events index with
  | nil => exact stands.stay
  | cons raw lines ih =>
    rw [readEvents, readLines]
    apply (stands.readLine_agrees index raw).bind
    rintro ⟨place', said⟩ reader' stands'
    apply (ih stands' (index + 1)).change
    rintro ⟨place'', others⟩ reader'' stands''
    rwa [List.append_assoc] at stands''

end Stands

def Says (text : List Char) (events : List Event) : Prop :=
  ∃ place, readEvents .outside 1 (Text.lines text) = .ok (place, events)

theorem Recorded.unique {files files' : RecordedFiles} {events : List Event}
    (recorded : Recorded files events) (recorded' : Recorded files' events) : files = files' :=
  Counters.eq_of_find recorded.sorted recorded'.sorted fun path => by
    rw [recorded.found, recorded'.found]

theorem stands_of_says {text : List Char} {events : List Event} (told : Says text events) :
    ∃ reader place, readLines { files := [], current := none, functionLines := [] } 1
      (Text.lines text) = .ok reader ∧ Stands reader place events := by
  obtain ⟨place, said⟩ := told
  have agrees := Stands.start.readLines_agrees 1 (Text.lines text)
  rw [said] at agrees
  cases read : readLines { files := [], current := none, functionLines := [] } 1
      (Text.lines text) with
  | refused | crashed => rw [read] at agrees; exact agrees.elim
  | ok reader =>
    rw [read] at agrees
    exact ⟨reader, place, rfl, agrees⟩

theorem says_of_readLines {text : List Char} {reader : Reader}
    (read : readLines { files := [], current := none, functionLines := [] } 1 (Text.lines text) =
      .ok reader) : ∃ events, Says text events ∧ Recorded reader.files events := by
  have agrees := Stands.start.readLines_agrees 1 (Text.lines text)
  rw [read] at agrees
  cases said : readEvents .outside 1 (Text.lines text) with
  | refused | crashed => rw [said] at agrees; exact agrees.elim
  | ok next =>
    rw [said] at agrees
    exact ⟨next.2, ⟨next.1, said⟩, agrees.recorded⟩

theorem parseLcov_says {text : List Char} {files : RecordedFiles}
    (parsed : parseLcov text = .ok files) :
    ∃ events, Says text events ∧ Recorded files events ∧ ∃ path, .file path ∈ events := by
  obtain ⟨reader, read, ended⟩ := Outcome.bind_eq_ok.mp parsed
  obtain ⟨events, told, recorded⟩ := says_of_readLines read
  split at ended
  · cases ended
  · next some =>
    cases ended
    refine ⟨events, told, recorded, ?_⟩
    obtain ⟨⟨path, record⟩, member⟩ := List.exists_mem_of_ne_nil _ some
    have found : find path reader.files = _ := recorded.sorted.lookup_of_mem member
    rw [recorded.found] at found
    split at found
    · next held => exact ⟨path, held⟩
    · cases found

theorem parseLcov_of_says {text : List Char} {events : List Event} {path : Name}
    (told : Says text events) (held : .file path ∈ events) :
    ∃ files, parseLcov text = .ok files ∧ Recorded files events := by
  obtain ⟨reader, place, read, stands⟩ := stands_of_says told
  refine ⟨reader.files, ?_, stands.recorded⟩
  rw [parseLcov, read, Outcome.ok_bind, if_neg]
  intro none
  have found := stands.recorded.found path
  rw [none, if_pos held] at found
  cases found

end Supercov.OutsideEvidence
