import Supercov.Merge.Runs
import Mathlib.Data.List.ReduceOption

/-!
# What a merge keeps of a test

Each run is judged against the latest one by itself, and a test that a changed
file reached is left out of it.  A merge keeps a test's records from some run
exactly where some run that has records of it is not out of date for it.
-/

namespace Supercov.Merge

open Ordered Outcome
open Archive (EvidenceArchiveEntry)

section Paths

theorem mergedPath_head (path : String) (shard : Nat) :
    (mergedPath path shard).toList.head? = some 's' := by
  unfold mergedPath
  split
  · simp [String.toList_append]
  split
  · simp [String.toList_append]
  · simp [String.toList_append]

theorem mergedPath_notMem (path : String) (shard : Nat) :
    mergedPath path shard ∉ wholeRunPaths := by
  intro member
  have head := mergedPath_head path shard
  simp only [wholeRunPaths, List.mem_cons, List.not_mem_nil, or_false] at member
  rcases member with same | same | same <;> rw [same] at head <;> exact absurd head (by decide)

theorem toList_toString (n : Nat) : (toString n).toList = JsonText.number n :=
  String.toList_ofList

theorem eq_sourceInputsPath {path : String} {shard shard' : Nat}
    (same : mergedPath path shard = mergedPath sourceInputsPath shard') :
    path = sourceInputsPath := by
  have captured : mergedPath sourceInputsPath shard' =
      "shards/" ++ toString shard' ++ "/" ++ sourceInputsPath := by
    have outside : startsWith sourceInputsPath "server/background/" = false := by decide
    have outside' : startsWith sourceInputsPath "server/" = false := by decide
    simp only [mergedPath, outside, outside', Bool.false_eq_true, if_false]
  rw [captured] at same
  have second := congrArg (fun text => text.toList[1]?) same
  unfold mergedPath at same second
  split at same
  · rename_i background
    simp [background, String.toList_append] at second
  split at same
  · rename_i background server
    simp [background, server, String.toList_append] at second
  · have letters := congrArg String.toList same
    simp only [String.toList_append, List.append_assoc, List.append_cancel_left_eq,
      toList_toString] at letters
    have numbers := congrArg JsonText.readNumber letters
    rw [JsonText.readNumber_number _ (by simp), JsonText.readNumber_number _ (by simp)] at numbers
    simp only [Option.some.injEq, Prod.mk.injEq, List.append_cancel_left_eq] at numbers
    exact String.toList_inj.mp numbers.2

end Paths

section Records

theorem asStr_rewrite (mergedRunId : String) (value : JsonValue) :
    (rewriteScopeRunIds mergedRunId value).asStr = value.asStr := by
  cases value <;> simp [rewriteScopeRunIds, JsonValue.asStr]

theorem lookup_rewriteFields (mergedRunId key : String) (fields : JsonValue.Fields) :
    (rewriteFields mergedRunId fields).lookup key =
      (fields.lookup key).map fun value =>
        if key = "scope" ∧ isObject value then withRunId mergedRunId value
        else rewriteScopeRunIds mergedRunId value := by
  induction fields with
  | nil => rfl
  | cons field rest ih =>
    obtain ⟨held, value⟩ := field
    rw [rewriteFields, JsonValue.lookup_cons_eq_ite, JsonValue.lookup_cons_eq_ite, ih]
    by_cases same : key = held
    · rw [if_pos same, if_pos same, same, Option.map_some]
    · rw [if_neg same, if_neg same]

theorem recordTest_rewrite (mergedRunId : String) (value : JsonValue) :
    recordTest (rewriteScopeRunIds mergedRunId value) = recordTest value := by
  cases value with
  | object fields =>
    have own : ((rewriteScopeRunIds mergedRunId (.object fields)).get "testId").asStr =
        ((JsonValue.object fields).get "testId").asStr := by
      rw [rewriteScopeRunIds, JsonValue.get_object, JsonValue.get_object, lookup_rewriteFields]
      cases fields.lookup "testId" with
      | none => rfl
      | some held => exact asStr_rewrite mergedRunId held
    have inScope : (((rewriteScopeRunIds mergedRunId (.object fields)).get "scope").get
        "testId").asStr = (((JsonValue.object fields).get "scope").get "testId").asStr := by
      rw [rewriteScopeRunIds, JsonValue.get_object, JsonValue.get_object, lookup_rewriteFields]
      cases fields.lookup "scope" with
      | none => rfl
      | some held =>
        cases held with
        | object inner =>
          have other : (JsonValue.insertField "runId" (.string mergedRunId) inner).lookup "testId" =
              inner.lookup "testId" := by
            rw [JsonValue.lookup_insertField, if_neg (by decide)]
          simp [isObject, withRunId, other]
        | array items => simp [isObject, rewriteScopeRunIds, JsonValue.get]
        | _ => simp [isObject, rewriteScopeRunIds]
    rw [recordTest, recordTest, own, inScope]
  | _ => simp [recordTest, rewriteScopeRunIds, JsonValue.get]

variable {Code Detail : Type} (serde : Serde Code Detail)

def recordsOf (contents : List UInt8) : List JsonValue :=
  (parseLines serde (lines contents)).getD []

/-- A value is written as one line, and read again as what it was. -/
def WrittenClean (value : JsonValue) : Prop :=
  Archive.newline ∉ serde.toVec value ∧ serde.toVec value ≠ [] ∧
    serde.value (serde.toVec value) = some value

/-- Each of the records is, as the merge writes it. -/
def Clean (mergedRunId : String) (values : List JsonValue) : Prop :=
  ∀ value ∈ values, WrittenClean serde (rewriteScopeRunIds mergedRunId value)

theorem lines_joined {values : List JsonValue} (some_ : values ≠ [])
    (clean : ∀ value ∈ values, Archive.newline ∉ serde.toVec value) :
    lines (joined serde values) = values.map serde.toVec := by
  apply List.splitOn_intercalate
  · intro line member
    obtain ⟨value, among, rfl⟩ := List.mem_map.mp member
    exact clean value among
  · exact fun empty => some_ (List.map_eq_nil_iff.mp empty)

theorem lines_ended (contents : List UInt8) :
    lines (contents ++ [Archive.newline]) = lines contents ++ [[]] := by
  rw [lines, List.splitOn_append_cons_self]
  rfl

variable {serde} {contents : List UInt8} {mergedRunId : String} {superseded : Option (List String)}

theorem rewrittenContents_ok {result : Option (List UInt8)}
    (rewritten : rewrittenContents serde contents mergedRunId superseded = .ok result)
    (clean : Clean serde mergedRunId (recordsOf serde contents)) :
    (∀ value ∈ recordsOf serde contents, isSuperseded superseded value = false →
      ∃ merged, result = some merged ∧
        serde.toVec (rewriteScopeRunIds mergedRunId value) ∈ lines merged) ∧
    ∀ merged, result = some merged → ∀ line ∈ lines merged, line ≠ [] →
      ∃ value ∈ recordsOf serde contents, isSuperseded superseded value = false ∧
        line = serde.toVec (rewriteScopeRunIds mergedRunId value) := by
  unfold rewrittenContents at rewritten
  split at rewritten
  · cases rewritten
  split at rewritten
  · cases rewritten
  rename_i values parsed
  dsimp only at rewritten
  have records : recordsOf serde contents = values := by rw [recordsOf, parsed, Option.getD_some]
  rw [records] at clean ⊢
  set kept := values.filter fun value => !isSuperseded superseded value with keptDef
  set ending := if contents.getLast? = some Archive.newline ∧ kept ≠ [] then [Archive.newline]
    else [] with endingDef
  have mem_kept : ∀ value, value ∈ kept ↔
      value ∈ values ∧ isSuperseded superseded value = false := by
    intro value
    simp [keptDef]
  have written : kept ≠ [] → lines (joined serde (kept.map (rewriteScopeRunIds mergedRunId))) =
      kept.map fun value => serde.toVec (rewriteScopeRunIds mergedRunId value) := by
    intro some_
    rw [lines_joined serde, List.map_map]
    · rfl
    · exact fun empty => some_ (List.map_eq_nil_iff.mp empty)
    · intro value member
      obtain ⟨before, among, rfl⟩ := List.mem_map.mp member
      exact (clean before ((mem_kept before).mp among).1).1
  constructor
  · intro value member stays
    have among : value ∈ kept := (mem_kept value).mpr ⟨member, stays⟩
    have some_ : kept ≠ [] := List.ne_nil_of_mem among
    rw [if_pos (Or.inl some_)] at rewritten
    refine ⟨_, (Outcome.ok.inj rewritten).symm, ?_⟩
    have line : serde.toVec (rewriteScopeRunIds mergedRunId value) ∈
        lines (joined serde (kept.map (rewriteScopeRunIds mergedRunId))) := by
      rw [written some_]
      exact List.mem_map.mpr ⟨value, among, rfl⟩
    by_cases ended : contents.getLast? = some Archive.newline ∧ kept ≠ []
    · rw [endingDef, if_pos ended, lines_ended]
      exact List.mem_append_left _ line
    · rw [endingDef, if_neg ended, List.append_nil]
      exact line
  · intro merged same line member some_
    split at rewritten
    · have held : joined serde (kept.map (rewriteScopeRunIds mergedRunId)) ++ ending = merged :=
        Option.some.inj ((Outcome.ok.inj rewritten).trans same)
      by_cases empty : kept = []
      · have nothing : merged = [] := by
          rw [← held, endingDef, empty]
          simp [joined]
        rw [nothing] at member
        exact absurd (List.mem_singleton.mp member) some_
      · have among : line ∈ kept.map fun value =>
            serde.toVec (rewriteScopeRunIds mergedRunId value) := by
          rw [← written empty]
          rw [← held] at member
          by_cases ended : contents.getLast? = some Archive.newline ∧ kept ≠ []
          · rw [endingDef, if_pos ended, lines_ended] at member
            rcases List.mem_append.mp member with own | last
            · exact own
            · exact absurd (List.mem_singleton.mp last) some_
          · rwa [endingDef, if_neg ended, List.append_nil] at member
        obtain ⟨value, keptValue, rfl⟩ := List.mem_map.mp among
        obtain ⟨inside, stays⟩ := (mem_kept value).mp keptValue
        exact ⟨value, inside, stays, rfl⟩
    · rw [← Outcome.ok.inj rewritten] at same
      cases same

end Records

section Supersession

variable {Code Detail : Type} [DecidableEq Code] {serde : Serde Code Detail}
  {setting : Setting Code} {inputs : List Input}

def filesOf (serde : Serde Code Detail) (inputs : List Input) :
    List (Option (InputManifest Code)) :=
  inputs.map fun input => (entryAt sourceInputsPath input.archive).bind fun entry =>
    serde.manifest entry.contents

/-- The tests of a run that a file reached which changed between it and the latest. -/
def outOfDate (serde : Serde Code Detail) (setting : Setting Code) (inputs : List Input)
    (shard : Nat) : List String :=
  let files := filesOf serde inputs
  let latest := latestOf inputs
  if differ inputs files = false ∨ shard = latest then []
  else
    match inputs[shard]?, (files[shard]?).join, inputs[latest]?, (files[latest]?).join with
    | some input, some recorded, some newest, some newestFiles =>
      let into := withCheckoutFiles setting.readers setting.text newestFiles files
      (judge (judgingOf serde setting input newest recorded.files into.files)).reachedTests
    | _, _, _, _ => []

omit [DecidableEq Code] in
theorem recordedFiles_ok {archive : List EvidenceArchiveEntry}
    {files : Option (InputManifest Code)} (recorded : recordedFiles serde archive = .ok files) :
    files = (entryAt sourceInputsPath archive).bind fun entry => serde.manifest entry.contents := by
  unfold recordedFiles at recorded
  split at recorded
  · rename_i absent
    rw [absent, ← Outcome.ok.inj recorded]
    rfl
  · rename_i entry present
    rw [present, Option.bind_some]
    split at recorded
    · rename_i manifest read
      rw [read, ← Outcome.ok.inj recorded]
    · cases recorded

omit [DecidableEq Code] in
theorem admitRun_ok {input latest : Input} {others : List Input} {judgment : Judgment}
    {result : List String × Option (List String)}
    (admitted : admitRun serde input latest others judgment = .ok result) (test : String) :
    (∃ tests, result.2 = some tests ∧ test ∈ tests) ↔ test ∈ judgment.reachedTests := by
  simp only [admitRun, bind_eq_ok, refuseIf_eq_ok, pure_eq, Outcome.ok.injEq] at admitted
  obtain ⟨_, _, _, _, same⟩ := admitted
  rw [← same]
  by_cases nothing : judgment.reached = []
  · simp [nothing, Judgment.reachedTests]
  · simp [nothing]

theorem judgedAgainstLatest_ok {grown : Option (Grown Code)}
    (judged : judgedAgainstLatest serde setting inputs = .ok grown) {shard : Nat} {input : Input}
    (known : inputs[shard]? = some input) (test : String) :
    (∃ tests, (grown.bind fun grown => (grown.superseded[shard]?).join) = some tests ∧
      test ∈ tests) ↔ test ∈ outOfDate serde setting inputs shard := by
  obtain ⟨files, collected, rest⟩ := bind_eq_ok.mp judged
  have sameFiles : files = filesOf serde inputs :=
    eq_map_of_collect (fun _ _ recorded => recordedFiles_ok recorded) collected
  subst sameFiles
  simp only [outOfDate]
  cases differs : differ inputs (filesOf serde inputs) with
  | false =>
    rw [differs] at rest
    rw [← Outcome.ok.inj rest]
    simp
  | true =>
    simp only [differs, Bool.not_true, Bool.false_eq_true, if_false] at rest
    split at rest
    · rename_i newest newestFiles newestKnown newestRecorded
      obtain ⟨judgments, all, made⟩ := bind_eq_ok.mp rest
      rw [← Outcome.ok.inj made]
      have place : inputs.zipIdx[shard]? = some (input, shard) := by
        simp [List.getElem?_zipIdx, known]
      obtain ⟨result, found, judgedRun⟩ := collect_getElem? all place
      have superseded : ((judgments.map Prod.snd)[shard]?).join = result.2 := by
        simp [found]
      simp only [Option.bind_some, superseded, known, newestKnown, newestRecorded]
      unfold judgeRun at judgedRun
      split at judgedRun
      · rename_i isLatest
        rw [← Outcome.ok.inj judgedRun, if_pos (Or.inr isLatest)]
        simp
      · rename_i isOther
        rw [if_neg (by simpa using isOther)]
        split at judgedRun
        · cases judgedRun
        · rename_i recorded present
          rw [present]
          exact admitRun_ok judgedRun test
    · cases rest
    · cases rest

theorem isSuperseded_iff {superseded : Option (List String)} {value : JsonValue} {test : String}
    (isOf : recordTest value = some test) :
    isSuperseded superseded value = true ↔ ∃ tests, superseded = some tests ∧ test ∈ tests := by
  unfold isSuperseded
  rw [isOf]
  cases superseded <;> simp

end Supersession

section Entries

variable {Code Detail : Type} {serde : Serde Code Detail} {mergedRunId : String}
  {inputs : List Input} {grown : Option (Grown Code)} {shard : Nat}
  {entry : EvidenceArchiveEntry}

theorem makeEntry_ok {path : String} {contents : List UInt8} {made : EvidenceArchiveEntry}
    (ok : makeEntry path contents = .ok made) : made.path = path ∧ made.contents = contents := by
  unfold makeEntry at ok
  split at ok
  · rw [← Outcome.ok.inj ok]
    exact ⟨rfl, rfl⟩
  · cases ok

/-- What a run has of the tests besides the record of its files. -/
def IsEvidence (entry : EvidenceArchiveEntry) : Prop :=
  entry.path ∉ wholeRunPaths ∧ entry.path ≠ sourceInputsPath

theorem mergedEntry_path {made : EvidenceArchiveEntry}
    (ok : mergedEntry serde mergedRunId grown shard entry = .ok (some made)) :
    made.path = mergedPath entry.path shard := by
  obtain ⟨contents, _, rest⟩ := bind_eq_ok.mp ok
  cases contents with
  | none => cases rest
  | some contents =>
    obtain ⟨made', entered, same⟩ := bind_eq_ok.mp rest
    cases same
    exact (makeEntry_ok entered).1

theorem mergedEntry_ok {result : Option EvidenceArchiveEntry}
    (other : entry.path ≠ sourceInputsPath)
    (ok : mergedEntry serde mergedRunId grown shard entry = .ok result) :
    ∃ contents, rewrittenContents serde entry.contents mergedRunId
        (grown.bind fun grown => (grown.superseded[shard]?).join) = .ok contents ∧
      contents = result.map EvidenceArchiveEntry.contents := by
  obtain ⟨contents, rewritten, rest⟩ := bind_eq_ok.mp ok
  refine ⟨contents, ?_, ?_⟩
  · have none_ : (grown.filter fun _ => entry.path = sourceInputsPath) = none := by
      cases grown <;> simp [other]
    rw [mergedContents, none_] at rewritten
    exact rewritten
  · cases contents with
    | none =>
      rw [← Outcome.ok.inj rest]
      rfl
    | some contents =>
      obtain ⟨made, entered, same⟩ := bind_eq_ok.mp rest
      rw [← Outcome.ok.inj same, Option.map_some, (makeEntry_ok entered).2]

section Shards

variable {shards : List (List EvidenceArchiveEntry)}
  (collected : collect (mergedShard serde mergedRunId grown) inputs.zipIdx = .ok shards)

include collected

theorem entry_arrives {input : Input} (known : inputs[shard]? = some input)
    (member : entry ∈ input.archive) (own : entry.path ∉ wholeRunPaths) :
    ∃ result, mergedEntry serde mergedRunId grown shard entry = .ok result ∧
      ∀ made, result = some made → made ∈ shards.flatten := by
  have place : inputs.zipIdx[shard]? = some (input, shard) := by
    simp [List.getElem?_zipIdx, known]
  obtain ⟨entries, found, made⟩ := collect_getElem? collected place
  obtain ⟨results, all, same⟩ := bind_eq_ok.mp made
  have among : entry ∈ input.archive.filter fun entry => entry.path ∉ wholeRunPaths := by
    simp [member, own]
  obtain ⟨index, at_⟩ := List.mem_iff_getElem?.mp among
  obtain ⟨result, resultAt, merged⟩ := collect_getElem? all at_
  refine ⟨result, merged, ?_⟩
  intro made kept
  rw [List.mem_flatten]
  refine ⟨entries, List.mem_of_getElem? found, ?_⟩
  rw [← Outcome.ok.inj same, List.reduceOption_mem_iff, ← kept]
  exact List.mem_of_getElem? resultAt

theorem entry_comes_from {made : EvidenceArchiveEntry} (member : made ∈ shards.flatten) :
    ∃ input shard entry, inputs[shard]? = some input ∧ entry ∈ input.archive ∧
      entry.path ∉ wholeRunPaths ∧
      mergedEntry serde mergedRunId grown shard entry = .ok (some made) := by
  obtain ⟨entries, among, inside⟩ := List.mem_flatten.mp member
  obtain ⟨⟨input, shard⟩, place, merged⟩ := mem_of_collect collected among
  obtain ⟨results, all, same⟩ := bind_eq_ok.mp merged
  rw [← Outcome.ok.inj same, List.reduceOption_mem_iff] at inside
  obtain ⟨entry, filtered, entered⟩ := mem_of_collect all inside
  simp only [List.mem_filter, decide_eq_true_eq] at filtered
  exact ⟨input, shard, entry, List.mem_zipIdx_iff_getElem?.mp place, filtered.1, filtered.2,
    entered⟩

end Shards

variable [DecidableEq Code] [DecidableEq Detail] {setting : Setting Code}

theorem mergedEntries_ok {merged : List EvidenceArchiveEntry}
    (ok : mergedEntries serde setting mergedRunId inputs = .ok merged) :
    ∃ grown whole shards, judgedAgainstLatest serde setting inputs = .ok grown ∧
      (∀ entry ∈ whole, entry.path ∈ wholeRunPaths) ∧
      collect (mergedShard serde mergedRunId grown) inputs.zipIdx = .ok shards ∧
      merged = whole ++ shards.flatten := by
  obtain ⟨grown, judged, ok⟩ := bind_eq_ok.mp ok
  obtain ⟨manifests, _, ok⟩ := bind_eq_ok.mp ok
  obtain ⟨manifest, _, ok⟩ := bind_eq_ok.mp ok
  obtain ⟨models, _, ok⟩ := bind_eq_ok.mp ok
  obtain ⟨_, _, ok⟩ := bind_eq_ok.mp ok
  obtain ⟨declarations, _, ok⟩ := bind_eq_ok.mp ok
  obtain ⟨declaration, _, ok⟩ := bind_eq_ok.mp ok
  obtain ⟨model, modelMade, ok⟩ := bind_eq_ok.mp ok
  obtain ⟨frontend, frontendMade, ok⟩ := bind_eq_ok.mp ok
  obtain ⟨manifest, manifestMade, ok⟩ := bind_eq_ok.mp ok
  obtain ⟨shards, collected, ok⟩ := bind_eq_ok.mp ok
  refine ⟨grown, [model, frontend, manifest], shards, judged, ?_, collected,
    (Outcome.ok.inj ok).symm⟩
  intro entry member
  simp only [List.mem_cons, List.not_mem_nil, or_false] at member
  rcases member with rfl | rfl | rfl
  · rw [(makeEntry_ok modelMade).1]
    decide
  · rw [(makeEntry_ok frontendMade).1]
    decide
  · rw [(makeEntry_ok manifestMade).1]
    decide

end Entries

section Measurements

variable {Code Detail : Type} [DecidableEq Code] [DecidableEq Detail]

def Measures (serde : Serde Code Detail) (input : Input) (test : String) : Prop :=
  ∃ entry ∈ input.archive, IsEvidence entry ∧
    ∃ value ∈ recordsOf serde entry.contents, recordTest value = some test

instance (entry : EvidenceArchiveEntry) : Decidable (IsEvidence entry) :=
  inferInstanceAs (Decidable (_ ∧ _))

instance (serde : Serde Code Detail) (input : Input) (test : String) :
    Decidable (Measures serde input test) :=
  inferInstanceAs (Decidable (∃ entry ∈ input.archive, _))

/-- Every record that the run has of the test stands in the merge, in its shard. -/
def KeepsFrom (serde : Serde Code Detail) (mergedRunId : String)
    (merged : List EvidenceArchiveEntry) (shard : Nat) (input : Input) (test : String) : Prop :=
  ∀ entry ∈ input.archive, IsEvidence entry →
    ∀ value ∈ recordsOf serde entry.contents, recordTest value = some test →
      ∃ made ∈ merged, made.path = mergedPath entry.path shard ∧
        serde.toVec (rewriteScopeRunIds mergedRunId value) ∈ lines made.contents

/-- Of every test with a record in some run, the merge keeps the records of some run
that has any. -/
def KeepsMeasurements (serde : Serde Code Detail) (mergedRunId : String) (inputs : List Input)
    (merged : List EvidenceArchiveEntry) : Prop :=
  ∀ test, (∃ input ∈ inputs, Measures serde input test) →
    ∃ shard input, inputs[shard]? = some input ∧ Measures serde input test ∧
      KeepsFrom serde mergedRunId merged shard input test

/-- Of every test with a record in some run, some run that has any is not out of date
for it. -/
def CurrentSomewhere (serde : Serde Code Detail) (setting : Setting Code) (inputs : List Input) :
    Prop :=
  ∀ test, (∃ input ∈ inputs, Measures serde input test) →
    ∃ shard input, inputs[shard]? = some input ∧ Measures serde input test ∧
      test ∉ outOfDate serde setting inputs shard

def AllClean (serde : Serde Code Detail) (mergedRunId : String) (inputs : List Input) : Prop :=
  ∀ input ∈ inputs, ∀ entry ∈ input.archive, IsEvidence entry →
    Clean serde mergedRunId (recordsOf serde entry.contents)

variable {serde : Serde Code Detail} {setting : Setting Code} {mergedRunId : String}
  {inputs : List Input} {merged : List EvidenceArchiveEntry}

theorem CurrentSomewhere.of_keeps (clean : AllClean serde mergedRunId inputs)
    (ok : mergedEntries serde setting mergedRunId inputs = .ok merged)
    (keeps : KeepsMeasurements serde mergedRunId inputs merged) :
    CurrentSomewhere serde setting inputs := by
  obtain ⟨grown, whole, shards, judged, wholePaths, collected, rfl⟩ := mergedEntries_ok ok
  intro test measured
  obtain ⟨shard, input, known, ⟨entry, member, evidence, value, among, isOf⟩, kept⟩ :=
    keeps test measured
  obtain ⟨made, inMerge, path, line⟩ := kept entry member evidence value among isOf
  have inShards : made ∈ shards.flatten := by
    rcases List.mem_append.mp inMerge with first | rest
    · exact absurd (path ▸ wholePaths made first) (mergedPath_notMem _ _)
    · exact rest
  obtain ⟨input', shard', entry', known', member', own, entered⟩ :=
    entry_comes_from collected inShards
  have evidence' : IsEvidence entry' := by
    refine ⟨own, ?_⟩
    intro files
    have samePath := path.symm.trans (mergedEntry_path entered)
    rw [files] at samePath
    exact evidence.2 (eq_sourceInputsPath samePath)
  obtain ⟨contents, rewritten, same⟩ := mergedEntry_ok evidence'.2 entered
  have clean' := clean input' (List.mem_of_getElem? known') entry' member' evidence'
  have written := clean input (List.mem_of_getElem? known) entry member evidence value among
  obtain ⟨value', among', stays, sameLine⟩ :=
    (rewrittenContents_ok rewritten clean').2 _ same _ line written.2.1
  have sameValue : rewriteScopeRunIds mergedRunId value' = rewriteScopeRunIds mergedRunId value := by
    have back := (clean' value' among').2.2
    rw [← sameLine, written.2.2] at back
    exact (Option.some.inj back).symm
  have isOf' : recordTest value' = some test := by
    rw [← recordTest_rewrite mergedRunId value', sameValue, recordTest_rewrite, isOf]
  refine ⟨shard', input', known', ⟨entry', member', evidence', value', among', isOf'⟩, ?_⟩
  rw [← judgedAgainstLatest_ok judged known' test, ← isSuperseded_iff isOf', stays]
  exact Bool.false_ne_true

theorem KeepsFrom.of_current (clean : AllClean serde mergedRunId inputs)
    (ok : mergedEntries serde setting mergedRunId inputs = .ok merged) {shard : Nat}
    {input : Input} (known : inputs[shard]? = some input) {test : String}
    (current : test ∉ outOfDate serde setting inputs shard) :
    KeepsFrom serde mergedRunId merged shard input test := by
  obtain ⟨grown, whole, shards, judged, wholePaths, collected, rfl⟩ := mergedEntries_ok ok
  intro entry member evidence value among isOf
  obtain ⟨result, entered, arrives⟩ := entry_arrives collected known member evidence.1
  obtain ⟨contents, rewritten, same⟩ := mergedEntry_ok evidence.2 entered
  have stays : isSuperseded (grown.bind fun grown => (grown.superseded[shard]?).join) value =
      false := by
    rw [← Bool.not_eq_true, isSuperseded_iff isOf, judgedAgainstLatest_ok judged known test]
    exact current
  have clean' := clean input (List.mem_of_getElem? known) entry member evidence
  obtain ⟨text, made, line⟩ := (rewrittenContents_ok rewritten clean').1 value among stays
  rw [same] at made
  obtain ⟨kept, keptIs, rfl⟩ := Option.map_eq_some_iff.mp made
  exact ⟨kept, List.mem_append_right _ (arrives kept keptIs), mergedEntry_path (keptIs ▸ entered),
    line⟩

theorem keepsMeasurements_iff_current (clean : AllClean serde mergedRunId inputs)
    (ok : mergedEntries serde setting mergedRunId inputs = .ok merged) :
    KeepsMeasurements serde mergedRunId inputs merged ↔ CurrentSomewhere serde setting inputs := by
  constructor
  · exact CurrentSomewhere.of_keeps clean ok
  · intro current test measured
    obtain ⟨shard, input, known, measures, holds⟩ := current test measured
    exact ⟨shard, input, known, measures, KeepsFrom.of_current clean ok known holds⟩

omit [DecidableEq Code] [DecidableEq Detail] in
theorem readInputs_ok {version : String} {inventory : RunInventory} {runIds : List String}
    (read : readInputs serde version inventory runIds = .ok inputs) {input : Input}
    (member : input ∈ inputs) : ∃ run ∈ inventory.runs, run.archive = .ok input.archive := by
  obtain ⟨_, _, read⟩ := bind_eq_ok.mp read
  obtain ⟨_, _, read⟩ := bind_eq_ok.mp read
  obtain ⟨runs, found, read⟩ := bind_eq_ok.mp read
  cases runs with
  | nil => cases read
  | cons first others =>
    obtain ⟨_, _, read⟩ := bind_eq_ok.mp read
    obtain ⟨run, among, archived⟩ := mem_of_collect read member
    obtain ⟨id, _, stored⟩ := mem_of_collect found among
    refine ⟨run, ?_, ?_⟩
    · unfold findRun at stored
      split at stored
      · rename_i run' known
        rw [← Outcome.ok.inj stored]
        exact List.mem_of_find?_eq_some known
      · split at stored <;> cases stored
    · unfold readInput at archived
      split at archived
      · rename_i archive known
        rw [known, ← Outcome.ok.inj archived]
      · cases archived
      · cases archived

variable {gzip : Archive.Gzip} {version : String} {inventory : RunInventory}
  {readers : Readers Code} {text : String → Option String} {runIds : List String}
  {allowChanged : Bool} {published : Archive.Published}

theorem mergeCoverageRuns_ok
    (ok : mergeCoverageRuns serde gzip version inventory readers text runIds mergedRunId
      allowChanged = .ok (merged, published)) :
    ∃ inputs, readInputs serde version inventory runIds = .ok inputs ∧
      mergedEntries serde
        { readers := readers
          text := text
          known := inventory.runs
          allowChanged := allowChanged } mergedRunId inputs = .ok merged := by
  obtain ⟨inputs, read, ok⟩ := bind_eq_ok.mp ok
  obtain ⟨entries, made, ok⟩ := bind_eq_ok.mp ok
  obtain ⟨_, _, same⟩ := bind_eq_ok.mp ok
  cases same
  exact ⟨inputs, read, made⟩

/-- A merge that succeeds keeps every test's measurement exactly where no test is one
that every run with records of it is out of date for. -/
theorem mergeCoverageRuns_keeps_iff
    (clean : ∀ inputs, readInputs serde version inventory runIds = .ok inputs →
      AllClean serde mergedRunId inputs)
    (ok : mergeCoverageRuns serde gzip version inventory readers text runIds mergedRunId
      allowChanged = .ok (merged, published)) :
    ∃ inputs, readInputs serde version inventory runIds = .ok inputs ∧
      (KeepsMeasurements serde mergedRunId inputs merged ↔
        CurrentSomewhere serde
          { readers := readers
            text := text
            known := inventory.runs
            allowChanged := allowChanged } inputs) := by
  obtain ⟨inputs, read, made⟩ := mergeCoverageRuns_ok ok
  exact ⟨inputs, read, keepsMeasurements_iff_current (clean inputs read) made⟩

end Measurements

section Examples

/-- `{}` -/
def emptyText : List UInt8 :=
  [123, 125]

/-- `frontendDeclaration`, its fields in their order. -/
def frontendText : List UInt8 :=
  [123, 34, 112, 114, 111, 116, 111, 99, 111, 108, 86, 101, 114, 115, 105, 111, 110, 34, 58, 49,
  44, 34, 102, 114, 111, 110, 116, 101, 110, 100, 73, 100, 34, 58, 34, 106, 115, 34, 44, 34,
  102, 114, 111, 110, 116, 101, 110, 100, 86, 101, 114, 115, 105, 111, 110, 34, 58, 34, 49, 34,
  44, 34, 108, 97, 110, 103, 117, 97, 103, 101, 34, 58, 34, 74, 97, 118, 97, 83, 99, 114, 105,
  112, 116, 34, 44, 34, 115, 116, 114, 117, 99, 116, 117, 114, 97, 108, 83, 111, 117, 114, 99,
  101, 34, 58, 34, 111, 119, 110, 101, 100, 45, 112, 114, 111, 98, 101, 115, 34, 44, 34, 114,
  117, 110, 110, 101, 114, 115, 34, 58, 91, 93, 44, 34, 115, 116, 114, 117, 99, 116, 117, 114,
  97, 108, 76, 105, 109, 105, 116, 97, 116, 105, 111, 110, 115, 34, 58, 91, 93, 125]

def frontendValue : JsonValue :=
  .object [("protocolVersion", .number "1"), ("frontendId", .string "js"),
    ("frontendVersion", .string "1"), ("language", .string "JavaScript"),
    ("structuralSource", .string "owned-probes"), ("runners", .array []),
    ("structuralLimitations", .array [])]

def frontendDeclaration : FrontendRunDeclaration Unit :=
  { protocolVersion := 1
    frontendId := "js"
    frontendVersion := "1"
    language := "JavaScript"
    structuralSource := .ownedProbes
    runners := []
    structuralLimitations := [] }

/-- `{"files":{"test/m":["t"]}}`: a mock served the test `t`. -/
def reachText : List UInt8 :=
  [123, 34, 102, 105, 108, 101, 115, 34, 58, 123, 34, 116, 101, 115, 116, 47, 109, 34, 58, 91,
  34, 116, 34, 93, 125, 125]

def reachValue : JsonValue := .object [("files", .object [("test/m", .array [.string "t"])])]

/-- `{"testId":"t","test":"t"}`: a record of the test, whose name is one byte. -/
def recordText (test : UInt8) : List UInt8 :=
  [123, 34, 116, 101, 115, 116, 73, 100, 34, 58, 34] ++ test :: [34, 44, 34, 116, 101, 115, 116,
  34, 58, 34] ++ test :: [34, 125]

def recordValue (test : String) : JsonValue :=
  .object [("testId", .string test), ("test", .string test)]

/-- `{"schemaVersion":3,"language":"javascript","files":{"test/m":{"sha256":"a","bytes":1}}}`,
the digest being one byte. -/
def filesText (sha256 : UInt8) : List UInt8 :=
  [123, 34, 115, 99, 104, 101, 109, 97, 86, 101, 114, 115, 105, 111, 110, 34, 58, 51, 44, 34,
  108, 97, 110, 103, 117, 97, 103, 101, 34, 58, 34, 106, 97, 118, 97, 115, 99, 114, 105, 112,
  116, 34, 44, 34, 102, 105, 108, 101, 115, 34, 58, 123, 34, 116, 101, 115, 116, 47, 109, 34,
  58, 123, 34, 115, 104, 97, 50, 53, 54, 34, 58, 34] ++ sha256 :: [34, 44, 34, 98, 121, 116,
  101, 115, 34, 58, 49, 125, 125, 125]

def filesManifest (sha256 : String) : InputManifest Unit :=
  { schemaVersion := 3
    language := "javascript"
    files := [("test/m", { sha256 := sha256, bytes := 1, code := none })] }

/-- JSON as read and written on these texts. -/
def textsSerde : Serde Unit Unit where
  value text :=
    if text = emptyText then some (.object [])
    else if text = reachText then some reachValue
    else if text = recordText 116 then some (recordValue "t")
    else if text = recordText 117 then some (recordValue "u")
    else if text = frontendText then some frontendValue
    else none
  toVec value :=
    if value.same reachValue then reachText
    else if value.same (recordValue "t") then recordText 116
    else if value.same (recordValue "u") then recordText 117
    else emptyText
  manifest text :=
    if text = filesText 97 then some (filesManifest "a")
    else if text = filesText 98 then some (filesManifest "b")
    else none
  manifestToVec manifest := if manifest = filesManifest "a" then filesText 97 else filesText 98
  support value := if value.same reachValue then some [("test/m", ["t"])] else none
  declaration text := if text = frontendText then some frontendDeclaration else none
  declarationToVec _ := frontendText

/-- A run of one test, with what else its archive holds. -/
def storedRun (id startedAt : String) (test : UInt8) (others : List (String × List UInt8)) :
    StoredRun :=
  { id := id
    metadata := {
      startedAt := startedAt
      command := ["npm", "test"]
      integrity := {
        schemaVersion := 1
        instrumenterVersion := "1"
        fingerprint := {
          source := "s"
          tests := "t"
          dependencies := "d"
          configuration := "c"
          instrumenter := "i"
          execution := "e"
          combined := "x"
          sourceFiles := 1 } }
      merged := none
      recordedBy := some "5" }
    archive := collect (fun entry => makeEntry entry.1 entry.2)
      ([("coverage-model.json", emptyText), ("frontend.json", frontendText),
        ("manifest.json", emptyText), ("records.jsonl", recordText test)] ++ others)
    testFiles := none }

def exampleReaders : Readers Unit :=
  { sha256 := id
    loads := fun files => { files := files, unfollowed := none }
    namedBy := fun _ => []
    onlyAdded := fun _ _ _ => none
    describe := fun _ _ => "" }

def storingGzip : Archive.Gzip :=
  { compress := id
    decompress := fun bytes => { bytes := bytes, damaged := false, trailing := [] } }

def shardInventory : RunInventory :=
  { runs := [storedRun "p" "1" 116 [], storedRun "q" "2" 117 []], rejected := [] }

def mergedShards : Outcome String (List EvidenceArchiveEntry × Archive.Published) :=
  mergeCoverageRuns textsSerde storingGzip "5" shardInventory exampleReaders (fun _ => none)
    ["p", "q"] "m" false

/-- Two runs of the test `t` that recorded a mock as it was; one of `u` since. -/
def changedInventory : RunInventory :=
  { runs := [
      storedRun "p" "1" 116 [("source-inputs.json", filesText 97), ("support-reach.json", reachText)],
      storedRun "q" "2" 116 [("source-inputs.json", filesText 97), ("support-reach.json", reachText)],
      storedRun "r" "3" 117 [("source-inputs.json", filesText 98)]]
    rejected := [] }

def mergedChanged : Outcome String (List EvidenceArchiveEntry × Archive.Published) :=
  mergeCoverageRuns textsSerde storingGzip "5" changedInventory exampleReaders (fun _ => none)
    ["p", "q", "r"] "m" false

theorem clean_of_storedRun {id startedAt : String} {test : UInt8}
    {others : List (String × List UInt8)} {archive : List EvidenceArchiveEntry}
    (stored : (storedRun id startedAt test others).archive = .ok archive)
    (isKnown : test = 116 ∨ test = 117)
    (reaching : ∀ other ∈ others, other.1 = sourceInputsPath ∨ other.2 = reachText)
    {entry : EvidenceArchiveEntry} (member : entry ∈ archive) (evidence : IsEvidence entry) :
    Clean textsSerde "m" (recordsOf textsSerde entry.contents) := by
  obtain ⟨⟨path, contents⟩, listed, made⟩ := mem_of_collect stored member
  obtain ⟨samePath, sameContents⟩ := makeEntry_ok made
  have text : contents = recordText 116 ∨ contents = recordText 117 ∨ contents = reachText := by
    rcases List.mem_append.mp listed with own | other
    · simp only [List.mem_cons, Prod.mk.injEq, List.not_mem_nil, or_false] at own
      rcases own with ⟨here, _⟩ | ⟨here, _⟩ | ⟨here, _⟩ | ⟨_, here⟩
      · exact absurd (samePath.trans here ▸ by decide) evidence.1
      · exact absurd (samePath.trans here ▸ by decide) evidence.1
      · exact absurd (samePath.trans here ▸ by decide) evidence.1
      · rcases isKnown with first | second
        · exact Or.inl (first ▸ here)
        · exact Or.inr (Or.inl (second ▸ here))
    · rcases reaching _ other with here | here
      · exact absurd (samePath.trans here) evidence.2
      · exact Or.inr (Or.inr here)
  have clean : ∀ value, value = recordValue "t" ∨ value = recordValue "u" ∨ value = reachValue →
      WrittenClean textsSerde (rewriteScopeRunIds "m" value) := by
    intro value known
    rcases known with rfl | rfl | rfl <;>
      exact ⟨by decide +kernel, by decide +kernel, rfl⟩
  intro value among
  rw [sameContents] at among
  apply clean
  rcases text with rfl | rfl | rfl
  · exact Or.inl (List.mem_singleton.mp among)
  · exact Or.inr (Or.inl (List.mem_singleton.mp among))
  · exact Or.inr (Or.inr (List.mem_singleton.mp among))

theorem shards_clean {inputs : List Input}
    (read : readInputs textsSerde "5" shardInventory ["p", "q"] = .ok inputs) :
    AllClean textsSerde "m" inputs := by
  intro input member entry inside evidence
  obtain ⟨run, stored, archived⟩ := readInputs_ok read member
  simp only [shardInventory, List.mem_cons, List.not_mem_nil, or_false] at stored
  rcases stored with rfl | rfl
  · exact clean_of_storedRun archived (Or.inl rfl) (by simp) inside evidence
  · exact clean_of_storedRun archived (Or.inr rfl) (by simp) inside evidence

theorem shards_keeps_iff :
    ∃ merged published inputs, mergedShards = .ok (merged, published) ∧
      readInputs textsSerde "5" shardInventory ["p", "q"] = .ok inputs ∧
      (KeepsMeasurements textsSerde "m" inputs merged ↔
        CurrentSomewhere textsSerde
          { readers := exampleReaders
            text := fun _ => none
            known := shardInventory.runs
            allowChanged := false } inputs) := by
  obtain ⟨⟨merged, published⟩, ok⟩ :=
    isOk_iff.mp (show mergedShards.isOk = true by decide +kernel)
  obtain ⟨inputs, read, iff_⟩ := mergeCoverageRuns_keeps_iff (fun _ => shards_clean) ok
  exact ⟨merged, published, inputs, ok, read, iff_⟩

theorem changed_clean {inputs : List Input}
    (read : readInputs textsSerde "5" changedInventory ["p", "q", "r"] = .ok inputs) :
    AllClean textsSerde "m" inputs := by
  intro input member entry inside evidence
  obtain ⟨run, stored, archived⟩ := readInputs_ok read member
  simp only [changedInventory, List.mem_cons, List.not_mem_nil, or_false] at stored
  rcases stored with rfl | rfl | rfl
  · exact clean_of_storedRun archived (Or.inl rfl) (by simp [sourceInputsPath]) inside evidence
  · exact clean_of_storedRun archived (Or.inl rfl) (by simp [sourceInputsPath]) inside evidence
  · exact clean_of_storedRun archived (Or.inr rfl) (by simp [sourceInputsPath]) inside evidence

def changedSetting : Setting Unit :=
  { readers := exampleReaders
    text := fun _ => none
    known := changedInventory.runs
    allowChanged := false }

theorem changed_outOfDate {inputs : List Input}
    (read : readInputs textsSerde "5" changedInventory ["p", "q", "r"] = .ok inputs) :
    (∃ input ∈ inputs, Measures textsSerde input "t") ∧
      ∀ shard < inputs.length, ∀ input ∈ inputs[shard]?, Measures textsSerde input "t" →
        "t" ∈ outOfDate textsSerde changedSetting inputs shard :=
  Yields.of_ok (P := fun inputs => (∃ input ∈ inputs, Measures textsSerde input "t") ∧
    ∀ shard < inputs.length, ∀ input ∈ inputs[shard]?, Measures textsSerde input "t" →
      "t" ∈ outOfDate textsSerde changedSetting inputs shard) (by decide +kernel) read

/-- Both old runs have the test measured again, by each other: the merge succeeds and
no record of it is left. -/
theorem staleShards_lose_test :
    ∃ merged published inputs, mergedChanged = .ok (merged, published) ∧
      readInputs textsSerde "5" changedInventory ["p", "q", "r"] = .ok inputs ∧
      ¬ KeepsMeasurements textsSerde "m" inputs merged := by
  obtain ⟨⟨merged, published⟩, ok⟩ :=
    isOk_iff.mp (show mergedChanged.isOk = true by decide +kernel)
  obtain ⟨inputs, read, made⟩ := mergeCoverageRuns_ok ok
  obtain ⟨measured, stale⟩ := changed_outOfDate read
  refine ⟨merged, published, inputs, ok, read, ?_⟩
  intro keeps
  obtain ⟨shard, input, known, measures, current⟩ :=
    CurrentSomewhere.of_keeps (changed_clean read) made keeps "t" measured
  have inside : shard < inputs.length := (List.getElem?_eq_some_iff.mp known).1
  exact current (stale shard inside input known measures)

end Examples

end Supercov.Merge
