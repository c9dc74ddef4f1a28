import Mathlib.Data.Finset.Card
import Supercov.Request.Protocol

/-!
# Executions apart

After a run's repeated executions have been renamed, each phase is one result's, what a
result says of its own phases still says it of them, and nothing else of it has changed.
What it says of another's phases says it of none, where one still declares them.
-/

namespace Supercov.Request

open Outcome
open Report (RawTestResult RuntimeSnapshot RuntimeEvent ServerRecord CoveragePhase CoverageManifest)

section Fresh

/-- The name of the phase's `count`th execution. -/
def numbered (id : String) (count : Nat) : String := id ++ "~" ++ toString count

theorem toList_numbered (id : String) (count : Nat) :
    (numbered id count).toList = id.toList ++ '~' :: Nat.toDigits 10 count := by
  simp [numbered, Nat.repr]

theorem numbered_inj {id other : String} {count count' : Nat} :
    numbered id count = numbered other count' ↔ id = other ∧ count = count' := by
  refine ⟨fun same => ?_, fun ⟨same, same'⟩ => by rw [same, same']⟩
  have unmarked (n : Nat) : ∀ c ∈ (Nat.toDigits 10 n).reverse, decide (c ≠ '~') = true := by
    intro c member
    have digit := Nat.isDigit_of_mem_toDigits (by decide) (by decide) (List.mem_reverse.mp member)
    refine decide_eq_true fun mark => ?_
    rw [mark] at digit
    cases digit
  have reversed (text : String) (n : Nat) : ((numbered text n).toList.reverse).span (· ≠ '~') =
      ((Nat.toDigits 10 n).reverse, '~' :: text.toList.reverse) := by
    rw [toList_numbered, List.reverse_append, List.reverse_cons, List.append_assoc,
      List.span_eq_takeWhile_dropWhile, List.takeWhile_append_of_pos (unmarked n),
      List.dropWhile_append_of_pos (unmarked n)]
    simp
  have both := (reversed id count).symm.trans ((congrArg (fun text : String =>
    text.toList.reverse.span (· ≠ '~')) same).trans (reversed other count'))
  simp only [Prod.mk.injEq, List.reverse_inj, List.cons.injEq, true_and] at both
  refine ⟨String.toList_inj.mp both.2, ?_⟩
  simpa using congrArg (fun digits => Nat.ofDigitChars 10 digits 0) both.1

theorem freshCount_spec {declared : List String} {id : String} {fuel count : Nat}
    (free : ∃ more < fuel, numbered id (count + more + 1) ∉ declared) :
    numbered id (freshCount declared id fuel count) ∉ declared := by
  induction fuel generalizing count with
  | zero =>
    obtain ⟨more, few, -⟩ := free
    exact absurd few (Nat.not_lt_zero more)
  | succ fuel ih =>
    unfold freshCount
    split
    · rename_i taken
      obtain ⟨more, few, absent⟩ := free
      cases more with
      | zero => exact absurd taken absent
      | succ more =>
        refine ih ⟨more, Nat.lt_of_succ_lt_succ few, ?_⟩
        rwa [Nat.add_right_comm count 1 more]
    · assumption

theorem freshCount_not_mem (declared : List String) (id : String) (count : Nat) :
    numbered id (freshCount declared id (declared.length + 1) count) ∉ declared := by
  refine freshCount_spec ?_
  by_contra taken
  push Not at taken
  have distinct : ((List.range (declared.length + 1)).map fun more =>
      numbered id (count + more + 1)).Nodup := by
    refine List.nodup_range.map fun more other same => ?_
    have := (numbered_inj.mp same).2
    omega
  have within := (distinct.subperm fun name member => by
    obtain ⟨more, few, rfl⟩ := List.mem_map.mp member
    exact taken more (List.mem_range.mp few)).length_le
  rw [List.length_map, List.length_range] at within
  exact absurd within (Nat.not_succ_le_self _)

end Fresh

section Renamed

variable {declared : List String} {phases : List CoveragePhase}

/-- A name that was free for each of the phases, and for no other. -/
structure Names (declared : List String) (phases : List CoveragePhase)
    (names : List (String × String)) : Prop where
  sorted : Ordered.Sorted names
  own : ∀ phase ∈ phases, ∃ count, names.lookup phase.id = some (numbered phase.id count) ∧
    numbered phase.id count ∉ declared
  only : ∀ id, id ∉ phases.map (·.id) → names.lookup id = none

theorem names_foldl (counts : List (String × Nat)) :
    Names declared phases (phases.foldl (renamePhase declared) (counts, [])).2 := by
  induction phases using List.reverseRecOn with
  | nil => exact ⟨.nil, by simp, fun _ _ => rfl⟩
  | append_singleton phases phase ih =>
    rw [List.foldl_append, List.foldl_cons, List.foldl_nil]
    generalize phases.foldl (renamePhase declared) (counts, []) = held at ih
    refine ⟨ih.sorted.put _ _, fun other member => ?_, fun id other => ?_⟩
    · simp only [renamePhase, Ordered.lookup_put]
      split_ifs with same
      · exact ⟨_, by rw [same, numbered], by rw [same]; exact freshCount_not_mem declared phase.id _⟩
      · rcases List.mem_append.mp member with member | member
        · exact ih.own other member
        · exact absurd (congrArg CoveragePhase.id (List.mem_singleton.mp member)) same
    · simp only [List.map_append, List.map_singleton, List.mem_append, List.mem_singleton,
        not_or] at other
      simp only [renamePhase, Ordered.lookup_put, if_neg other.2]
      exact ih.only id other.1

variable {names : List (String × String)}

theorem Names.renamed_own (named : Names declared phases names) {id : String}
    (own : id ∈ phases.map (·.id)) :
    ∃ count, renamed names id = numbered id count ∧ renamed names id ∉ declared := by
  obtain ⟨phase, member, rfl⟩ := List.mem_map.mp own
  obtain ⟨count, found, free⟩ := named.own phase member
  refine ⟨count, ?_, ?_⟩
  · rw [renamed, found, Option.getD_some]
  · rwa [renamed, found, Option.getD_some]

theorem Names.renamed_other (named : Names declared phases names) {id : String}
    (other : id ∉ phases.map (·.id)) : renamed names id = id := by
  rw [renamed, named.only id other, Option.getD_none]

theorem Names.mem_values (named : Names declared phases names) {name : String} :
    name ∈ names.map (·.2) ↔ name ∈ phases.map fun phase => renamed names phase.id := by
  rw [List.mem_map, List.mem_map]
  constructor
  · rintro ⟨⟨id, name⟩, among, rfl⟩
    have found := (named.sorted.mem_iff_lookup).mp among
    obtain ⟨phase, member, rfl⟩ : ∃ phase ∈ phases, phase.id = id := by
      by_contra other
      rw [named.only id (by simpa using other)] at found
      cases found
    exact ⟨phase, member, by rw [renamed, found, Option.getD_some]⟩
  · rintro ⟨phase, member, rfl⟩
    obtain ⟨count, found, -⟩ := named.own phase member
    refine ⟨_, named.sorted.mem_iff_lookup.mpr found, ?_⟩
    rw [renamed, found, Option.getD_some]

theorem Names.nodup (named : Names declared phases names) (distinct : (phases.map (·.id)).Nodup) :
    (phases.map fun phase => renamed names phase.id).Nodup := by
  have apart : ((phases.map (·.id)).map (renamed names)).Nodup := by
    refine distinct.map_on fun id own id' own' same => ?_
    obtain ⟨count, named, -⟩ := named.renamed_own own
    obtain ⟨count', named', -⟩ := Names.renamed_own ‹_› own'
    rw [named, named'] at same
    exact (numbered_inj.mp same).1
  rwa [List.map_map] at apart

end Renamed

section Apart

/-- A result with its phases under other names, and what it says of phases changed. -/
def withPhases (names : String → String) (change : String → Option String) (raw : RawTestResult) :
    RawTestResult :=
  { changeReferences change raw with
    phases := raw.phases.map fun phase =>
      { phase with id := names phase.id, causedByPhaseId := phase.causedByPhaseId.map names } }

def phaseIds (raw : RawTestResult) : List String := raw.phases.map (·.id)

@[simp] theorem phaseIds_withPhases (names : String → String) (change : String → Option String)
    (raw : RawTestResult) : phaseIds (withPhases names change raw) = (phaseIds raw).map names := by
  simp only [phaseIds, withPhases, List.map_map]
  rfl

theorem changeReferences_withPhases (names : String → String) (first second : String → Option String)
    (raw : RawTestResult) :
    changeReferences second (withPhases names first raw) =
      withPhases names (fun id => (first id).bind second) raw := by
  simp only [withPhases, changeReferences, List.map_map, Function.comp_def, Option.bind_assoc]

theorem withPhases_id (raw : RawTestResult) : withPhases id some raw = raw := by
  simp [withPhases, changeReferences]

/-- One result's phases are named apart from all before, and declared under those names. -/
structure Separates (separation after : Separation) (names : String → String)
    (raw separated : RawTestResult) : Prop where
  same : separated = withPhases names (fun id => some (names id)) raw
  other : ∀ id, id ∉ phaseIds raw → names id = id
  distinct : (phaseIds separated).Nodup
  free : ∀ id ∈ phaseIds separated, id ∉ separation.declared
  declared : ∀ id, id ∈ after.declared ↔ id ∈ separation.declared ∨ id ∈ phaseIds separated

theorem separateResult_separates (separation : Separation) {raw : RawTestResult}
    (distinct : (phaseIds raw).Nodup) :
    ∃ names, Separates separation (separateResult separation raw).1 names raw
      (separateResult separation raw).2 := by
  unfold separateResult
  split
  · have named : Names separation.declared raw.phases _ := names_foldl separation.executions
    generalize raw.phases.foldl (renamePhase separation.declared) (separation.executions, []) = held
      at named
    refine ⟨renamed held.2, rfl, fun id other => named.renamed_other other, ?_, ?_, fun id => ?_⟩
    · have apart := named.nodup distinct
      simp only [phaseIds, renameResult, List.map_map]
      exact apart
    · intro id member
      simp only [phaseIds, renameResult, List.map_map, List.mem_map] at member
      obtain ⟨phase, among, rfl⟩ := member
      obtain ⟨count, -, free⟩ := named.renamed_own (List.mem_map_of_mem (f := (·.id)) among)
      exact free
    · rw [List.mem_append, named.mem_values]
      simp only [phaseIds, renameResult, List.map_map]
      rfl
  · rename_i fresh
    refine ⟨id, (withPhases_id raw).symm, fun _ _ => rfl, distinct, fun id member => ?_, fun id => ?_⟩
    · obtain ⟨phase, among, rfl⟩ := List.mem_map.mp member
      exact fun taken => fresh (List.any_eq_true.mpr ⟨phase, among, decide_eq_true taken⟩)
    · exact List.mem_append

/-- A result after its run's executions have been renamed. -/
def Renames (raw separated : RawTestResult) : Prop :=
  ∃ names : String → String, separated = withPhases names (fun id => some (names id)) raw ∧
    ∀ id, id ∉ phaseIds raw → names id = id

theorem separateFrom_spec {separation : Separation} {rawResults : List RawTestResult}
    (distinct : ∀ raw ∈ rawResults, (phaseIds raw).Nodup) :
    List.Forall₂ Renames rawResults (separateFrom separation rawResults) ∧
      (declaredPhases (separateFrom separation rawResults)).Nodup ∧
      ∀ id ∈ declaredPhases (separateFrom separation rawResults), id ∉ separation.declared := by
  induction rawResults generalizing separation with
  | nil => exact ⟨.nil, List.nodup_nil, fun _ member => absurd member List.not_mem_nil⟩
  | cons raw rest ih =>
    obtain ⟨first, others⟩ := List.forall_mem_cons.mp distinct
    obtain ⟨names, separates⟩ := separateResult_separates separation first
    obtain ⟨renames, apart, free⟩ := ih others
    refine ⟨.cons ⟨names, separates.same, separates.other⟩ renames, ?_, fun id member => ?_⟩
    · refine separates.distinct.append apart fun id own later => ?_
      exact free id later ((separates.declared id).mpr (.inr own))
    · rcases List.mem_append.mp member with own | later
      · exact separates.free id own
      · exact fun before => free id later ((separates.declared id).mpr (.inl before))

theorem separateRepeatedExecutions_spec {rawResults : List RawTestResult}
    (distinct : ∀ raw ∈ rawResults, (phaseIds raw).Nodup) :
    List.Forall₂ Renames rawResults (separateRepeatedExecutions rawResults) ∧
      (declaredPhases (separateRepeatedExecutions rawResults)).Nodup := by
  obtain ⟨renames, apart, -⟩ :=
    separateFrom_spec distinct
  exact ⟨renames, apart⟩

/-- A result follows its phases: each under its name, what was said of them of the same, and
what was said of another's as it was or of none. -/
def Follows (raw after : RawTestResult) : Prop :=
  ∃ (names : String → String) (change : String → Option String),
    after = withPhases names change raw ∧
    (∀ id ∈ phaseIds raw, change id = some (names id)) ∧
    ∀ id, id ∉ phaseIds raw → names id = id ∧ (change id = none ∨ change id = some id)

/-- What is left of a reference. -/
def released (own declared : List String) (id : String) : Option String :=
  if id ∉ own ∧ id ∈ declared then none else some id

theorem released_own {own declared : List String} {id : String} (member : id ∈ own) :
    released own declared id = some id :=
  if_neg fun away => away.1 member

theorem releaseResult_withPhases (names : String → String) (declared : List String)
    (raw : RawTestResult) :
    releaseResult declared (withPhases names (fun id => some (names id)) raw) =
      withPhases names (fun id => released ((phaseIds raw).map names) declared (names id)) raw := by
  rw [← phaseIds_withPhases names (fun id => some (names id)) raw]
  exact changeReferences_withPhases names (fun id => some (names id)) _ raw

theorem Renames.follows {raw separated : RawTestResult} (renames : Renames raw separated)
    (declared : List String) : Follows raw (releaseResult declared separated) := by
  obtain ⟨names, rfl, other⟩ := renames
  refine ⟨names, fun id => released ((phaseIds raw).map names) declared (names id),
    releaseResult_withPhases names declared raw,
    fun id own => released_own (List.mem_map_of_mem own), fun id away => ⟨other id away, ?_⟩⟩
  dsimp only [released]
  rw [other id away]
  split
  · exact .inl rfl
  · exact .inr rfl

theorem declaredPhases_releaseLeakedPhases (rawResults : List RawTestResult) :
    declaredPhases (releaseLeakedPhases rawResults) = declaredPhases rawResults := by
  simp only [declaredPhases, releaseLeakedPhases, List.flatMap_map]
  rfl

/-- Each execution of a run's tests stands apart from the others, and is otherwise as it was. -/
structure Apart (rawResults after : List RawTestResult) : Prop where
  distinct : (declaredPhases after).Nodup
  followed : List.Forall₂ Follows rawResults after

theorem apart_of_distinct {rawResults : List RawTestResult}
    (distinct : ∀ raw ∈ rawResults, (phaseIds raw).Nodup) :
    Apart rawResults (releaseLeakedPhases (separateRepeatedExecutions rawResults)) := by
  obtain ⟨renames, apart⟩ := separateRepeatedExecutions_spec distinct
  refine ⟨(declaredPhases_releaseLeakedPhases _).symm ▸ apart, ?_⟩
  exact List.forall₂_map_right_iff.mpr (renames.imp fun _ _ renamed => renamed.follows _)

def Refers (raw : RawTestResult) (id : String) : Prop :=
  (∃ phase ∈ raw.phases, phase.causedByPhaseId = some id) ∨ some id ∈ referencesOf raw

theorem referencesOf_withPhases (names : String → String) (change : String → Option String)
    (raw : RawTestResult) :
    referencesOf (withPhases names change raw) = (referencesOf raw).map (·.bind change) := by
  simp only [referencesOf, withPhases, changeReferences, List.flatMap_append, List.flatMap_map,
    List.map_flatMap, List.map_map, List.map_append, List.map_singleton, Function.comp_def]

theorem refers_own {raw separated : RawTestResult} {declared : List String}
    (renames : Renames raw separated)
    (causes : ∀ phase ∈ raw.phases, ∀ cause ∈ phase.causedByPhaseId, cause ∈ phaseIds raw)
    (references : ∀ id, some id ∈ referencesOf raw → id ∈ phaseIds raw ∨ id ∈ declared) {id : String}
    (refers : Refers (releaseResult declared separated) id) :
    id ∈ phaseIds (releaseResult declared separated) := by
  obtain ⟨names, rfl, other⟩ := renames
  rw [releaseResult_withPhases] at refers ⊢
  rw [phaseIds_withPhases]
  rcases refers with ⟨phase', member, caused⟩ | referred
  · obtain ⟨phase, among, rfl⟩ := List.mem_map.mp member
    obtain ⟨cause, own, rfl⟩ := Option.map_eq_some_iff.mp caused
    exact List.mem_map_of_mem (causes phase among cause own)
  · rw [referencesOf_withPhases, List.mem_map] at referred
    obtain ⟨reference, among, bound⟩ := referred
    obtain ⟨old, rfl, kept⟩ := Option.bind_eq_some_iff.mp bound
    by_cases own : old ∈ phaseIds raw
    · rw [released_own (List.mem_map_of_mem own)] at kept
      cases kept
      exact List.mem_map_of_mem own
    · have within := (references old among).resolve_left own
      rw [other old own, released] at kept
      split_ifs at kept with away
      cases kept
      by_contra absent
      exact away ⟨absent, within⟩

theorem exists_of_forall₂ {Item Made : Type} {related : Item → Made → Prop} {items : List Item}
    {made : List Made} (all : List.Forall₂ related items made) {result : Made}
    (member : result ∈ made) : ∃ item ∈ items, related item result := by
  induction all with
  | nil => exact absurd member List.not_mem_nil
  | cons first _ ih =>
    rcases List.mem_cons.mp member with rfl | member
    · exact ⟨_, List.mem_cons_self, first⟩
    · obtain ⟨item, among, own⟩ := ih member
      exact ⟨item, List.mem_cons_of_mem _ among, own⟩

end Apart

section Validated

variable {runner : RunnerDeclaration} {runId : String}

/-- What a refusal over phases says of what it refuses. -/
structure Blames (phases : List String) (refers : String → Prop) (error : FrontendProtocolError) :
    Prop where
  duplicate : ∀ id, error = .duplicatePhase id → ¬ phases.Nodup
  unknown : ∀ id, error = .unknownPhaseReference id → present id = false ∨ refers id

theorem blames_other {phases : List String} {refers : String → Prop} {error : FrontendProtocolError}
    (duplicate : ∀ id, error ≠ .duplicatePhase id)
    (unknown : ∀ id, error ≠ .unknownPhaseReference id) : Blames phases refers error :=
  ⟨fun id same => absurd same (duplicate id), fun id same => absurd same (unknown id)⟩

theorem requireScope_ends {raw : RawTestResult} {phases : List String} {refers : String → Prop} :
    (requireScope runner raw runId).Ends (fun _ => True) (Blames phases refers) := by
  have missed (axis : String) : Blames phases refers (missing runner axis) :=
    blames_other (fun _ => nofun) fun _ => nofun
  unfold requireScope
  dsimp only
  cases raw.scope with
  | some scope =>
    refine .refuseIf (fun _ => blames_other (fun _ => nofun) fun _ => nofun) fun _ =>
      .refuseIf (fun _ => missed _) fun _ => .refuseIf (fun _ => missed _) fun _ => ?_
    split
    · cases raw.retry with
      | none => exact missed _
      | some retry => exact ends_refuseIf fun _ => blames_other (fun _ => nofun) fun _ => nofun
    · trivial
  | none =>
    exact .refuseIf (fun _ => missed _) fun _ => ends_refuseIf fun _ => missed _

theorem requirePhases_ends {phases : List CoveragePhase} {globalPhases : List String}
    {refers : String → Prop} :
    (phases.foldlM (requirePhase runner) ([], globalPhases)).Ends
      (fun held => held = (phases.map (·.id), globalPhases ++ phases.map (·.id)))
      (Blames (globalPhases ++ phases.map (·.id)) refers) := by
  refine Ends.foldlM (fun (before : List CoveragePhase) held =>
    held = (before.map (·.id), globalPhases ++ before.map (·.id))) (by simp) ?_
  rintro before phase after rfl held rfl
  have repeats (twice : phase.id ∈ globalPhases ++ before.map (·.id)) :
      ¬ (globalPhases ++ (before ++ phase :: after).map (·.id)).Nodup := by
    rw [List.map_append, List.map_cons, ← List.append_assoc]
    exact fun distinct => (List.nodup_append.mp distinct).2.2 _ twice _ (List.mem_cons_self ..) rfl
  unfold requirePhase
  refine .refuseIf (fun _ => blames_other (fun _ => nofun) fun _ => nofun) fun _ =>
    .refuseIf (fun _ => blames_other (fun _ => nofun) fun _ => nofun) fun _ =>
    .refuseIf (fun own => ⟨fun _ _ => repeats (List.mem_append_right _ own), fun _ => nofun⟩) fun _ =>
    .refuseIf (fun held => ⟨fun _ _ => repeats held, fun _ => nofun⟩) fun _ => ?_
  simp [Ends, List.append_assoc]

theorem requireReference_ends {own phases : List String} {reference : Option String}
    {refers : String → Prop} (said : ∀ id, reference = some id → id ∉ own → refers id) :
    (requireReference own reference).Ends (fun _ => True) (Blames phases refers) := by
  cases reference with
  | none => trivial
  | some id =>
    refine ends_refuseIf fun wrong => ⟨fun _ => nofun, fun id' same => ?_⟩
    cases same
    exact wrong.imp_right (said id rfl)

theorem requireAcyclic_ends {causes : List (String × String)} {phases : List String}
    {refers : String → Prop} :
    (requireAcyclic causes).Ends (fun _ => True) (Blames phases refers) :=
  Ends.forEach fun _ _ => ends_refuseIf fun _ => blames_other (fun _ => nofun) fun _ => nofun

theorem requireExactIdentities_ends {raw : RawTestResult} {globalPhases : List String} :
    (requireExactIdentities runner runId globalPhases raw).Ends
      (fun all => all = globalPhases ++ phaseIds raw)
      (Blames (globalPhases ++ phaseIds raw) fun id => Refers raw id ∧ id ∉ phaseIds raw) := by
  unfold requireExactIdentities
  refine .refuseIf (fun _ => blames_other (fun _ => nofun) fun _ => nofun) fun _ =>
    .refuseIf (fun _ => blames_other (fun _ => nofun) fun _ => nofun) fun _ =>
    requireScope_ends.bind fun _ _ => requirePhases_ends.bind ?_
  rintro _ rfl
  refine (Ends.forEach fun phase member => requireReference_ends fun id caused away =>
    ⟨.inl ⟨phase, member, caused⟩, away⟩).bind fun _ _ => ?_
  refine requireAcyclic_ends.bind fun _ _ => ?_
  refine (Ends.forEach fun reference member => requireReference_ends fun id same away =>
    ⟨.inr (same ▸ member), away⟩).bind fun _ _ => ?_
  rfl

theorem validateFrontendReportRequest_ends {declaration : RunDeclaration}
    {manifest : CoverageManifest} {rawResults : List RawTestResult} :
    (validateFrontendReportRequest declaration manifest runId rawResults).Ends (fun _ => True)
      (Blames (declaredPhases rawResults) fun id =>
        ∃ raw ∈ rawResults, Refers raw id ∧ id ∉ phaseIds raw) := by
  have limitations : (manifestLimitationIds manifest).Ends (fun _ => True)
      (Blames (declaredPhases rawResults) fun id =>
        ∃ raw ∈ rawResults, Refers raw id ∧ id ∉ phaseIds raw) := by
    refine Ends.foldlM (fun _ _ => True) trivial fun _ limitation _ _ ids _ => ?_
    unfold addManifestLimitation
    split
    · exact blames_other (fun _ => nofun) fun _ => nofun
    · exact .refuseIf (fun _ => blames_other (fun _ => nofun) fun _ => nofun) fun _ =>
        .refuseIf (fun _ => blames_other (fun _ => nofun) fun _ => nofun) fun _ => trivial
  unfold validateFrontendReportRequest
  cases validateFrontendRunDeclaration declaration with
  | refused error => exact blames_other (fun _ => nofun) fun _ => nofun
  | crashed => trivial
  | ok done =>
    refine limitations.bind fun ids _ =>
      .refuseIf (fun _ => blames_other (fun _ => nofun) fun _ => nofun) fun _ => ?_
    refine Ends.bind (P := fun _ => True) ?_ fun _ _ => ?_
    · refine (Ends.foldlM (fun before held => held = declaredPhases before) rfl ?_).mono
        (fun _ _ => trivial) fun _ blames => blames
      rintro before raw after rfl held rfl
      unfold requireResult
      split
      · exact blames_other (fun _ => nofun) fun _ => nofun
      · refine requireExactIdentities_ends.mono (fun all same => ?_) fun error blames =>
          ⟨fun id same distinct => blames.duplicate id same ?_, fun id same => ?_⟩
        · simp only [same, declaredPhases, List.flatMap_append, List.flatMap_singleton]
          rfl
        · rw [declaredPhases, List.flatMap_append, List.flatMap_cons, ← List.append_assoc] at distinct
          exact (List.nodup_append.mp distinct).1
        · exact (blames.unknown id same).imp_right fun away =>
            ⟨raw, List.mem_append_right _ (List.mem_cons_self ..), away⟩
    · split
      · exact blames_other (fun _ => nofun) fun _ => nofun
      · trivial

end Validated

section Executions

/-- Repeated executions stand apart and no phase is refused as declared twice.  Where a result's
causes are its own phases, and its references its own or of a phase that the run declares once
its executions have been renamed, each is of its own phases or of none in the end, and none is
refused that is not blank or holds a control character. -/
theorem phases_apart {rawResults after : List RawTestResult}
    (distinct : ∀ raw ∈ rawResults, (phaseIds raw).Nodup)
    (ends : after = releaseLeakedPhases (separateRepeatedExecutions rawResults)) :
    Apart rawResults after ∧
    (∀ declaration manifest runId id,
      validateFrontendReportRequest declaration manifest runId after ≠
        .refused (.duplicatePhase id)) ∧
    ((∀ raw ∈ rawResults, ∀ phase ∈ raw.phases, ∀ cause ∈ phase.causedByPhaseId,
        cause ∈ phaseIds raw) →
      (∀ raw ∈ rawResults, ∀ reference ∈ referencesOf raw, ∀ id ∈ reference,
        id ∈ phaseIds raw ∨ id ∈ declaredPhases (separateRepeatedExecutions rawResults)) →
      (∀ raw ∈ after, ∀ id, Refers raw id → id ∈ phaseIds raw) ∧
      ∀ declaration manifest runId id,
        validateFrontendReportRequest declaration manifest runId after =
          .refused (.unknownPhaseReference id) → present id = false) := by
  subst ends
  have apart := apart_of_distinct distinct
  have blames (declaration : RunDeclaration) (manifest : CoverageManifest) (runId : String) :
      (validateFrontendReportRequest declaration manifest runId
        (releaseLeakedPhases (separateRepeatedExecutions rawResults))).Ends _ _ :=
    validateFrontendReportRequest_ends
  refine ⟨apart, fun declaration manifest runId id refused => ?_, fun causes references => ?_⟩
  · have blamed := blames declaration manifest runId
    rw [refused] at blamed
    exact blamed.duplicate id rfl apart.distinct
  · have own : ∀ raw ∈ releaseLeakedPhases (separateRepeatedExecutions rawResults), ∀ id,
        Refers raw id → id ∈ phaseIds raw := by
      intro raw member id refers
      obtain ⟨separated, among, rfl⟩ := List.mem_map.mp member
      obtain ⟨raw, given, renames⟩ :=
        exists_of_forall₂ (separateRepeatedExecutions_spec distinct).1 among
      exact refers_own renames (causes raw given)
        (fun id among => references raw given (some id) among id rfl) refers
    refine ⟨own, fun declaration manifest runId id refused => ?_⟩
    have blamed := blames declaration manifest runId
    rw [refused] at blamed
    refine (blamed.unknown id rfl).resolve_right ?_
    rintro ⟨raw, member, refers, away⟩
    exact away (own raw member id refers)

/-- A test's result with its phases and their causes, and what its server did in which. -/
def execution (phases : List (String × Option String)) (server : List String) : RawTestResult where
  testId := some "t"
  scope := none
  test := "t"
  testFile := none
  title := none
  retry := some 0
  status := some "passed"
  expectedStatus := none
  flaky := false
  provenance := { runner := "unit", kind := "unit", project := none, source := "unit", tags := [] }
  role := "test"
  attribution := "exact"
  phases := phases.map fun phase =>
    { id := phase.1
      kind := "assertion"
      operation := "expect"
      source := none
      causedByPhaseId := phase.2
      startedAtMs := 0
      endedAtMs := none
      status := none
      error := none }
  runtime := []
  browser := []
  server := server.map fun phase =>
    { recordType := "hit"
      vector := none
      id := some "p"
      timestampMs := none
      phaseId := some phase
      scope := none
      request := none }
  span := none

def ranTwice : List RawTestResult :=
  [execution [("a", none)] ["a"], execution [("a", none), ("b", some "a")] ["b"],
    execution [("c", none)] ["a"]]

theorem phases_apart_ranTwice :
    (∀ raw ∈ releaseLeakedPhases (separateRepeatedExecutions ranTwice), ∀ id,
      Refers raw id → id ∈ phaseIds raw) ∧
    ∀ declaration manifest runId id,
      validateFrontendReportRequest declaration manifest runId
          (releaseLeakedPhases (separateRepeatedExecutions ranTwice)) =
        .refused (.unknownPhaseReference id) → present id = false :=
  (phases_apart (by decide +kernel) rfl).2.2 (by decide +kernel) (by decide +kernel)

def unitDeclaration : RunDeclaration where
  protocolVersion := 2
  frontendId := "unit"
  frontendVersion := "v1"
  language := "unit"
  structuralSource := .nativeImport
  runners :=
    [{ runner := "unit"
       detail :=
        { executionModel := .serialInProcess
          attribution :=
            { run := .exact, worker := .aggregate, test := .aggregate, retry := .aggregate
              phase := .aggregate, action := .aggregate, assertion := .aggregate }
          limitations :=
            [{ id := "l", scopes := [.worker, .test, .retry, .phase, .action, .assertion]
               reason := "r" }] } }]
  structuralLimitations := []

def unitManifest : CoverageManifest where
  decisions := []
  points := []
  branches := []
  limitations := []
  unmeasured := []
  scope := none

/-- A phase that only a repeated execution declared: what another result says of it is left. -/
def leakedIntoRepeated : List RawTestResult :=
  [execution [("a", none)] ["b"], execution [("a", none), ("b", none)] []]

def blankPhase : List RawTestResult :=
  [execution [("", none)] [""]]

/-- Both lists declare each phase that is referred to, and both are refused. -/
theorem not_phases_apart :
    (∀ rawResults ∈ [blankPhase, leakedIntoRepeated],
      (∀ raw ∈ rawResults, (phaseIds raw).Nodup) ∧
        ∀ raw ∈ rawResults, ∀ reference ∈ referencesOf raw, ∀ id ∈ reference,
          id ∈ declaredPhases rawResults) ∧
      ∀ rawResults ∈ [blankPhase, leakedIntoRepeated],
        ∃ id ∈ ["", "b"], validateFrontendReportRequest unitDeclaration unitManifest "run"
          (releaseLeakedPhases (separateRepeatedExecutions rawResults)) =
            .refused (.unknownPhaseReference id) := by
  decide +kernel

end Executions

end Supercov.Request
