import Supercov.Report.Counted
import Mathlib.Data.List.Perm.Basic

/-!
# The order of the evidence

Results, their snapshots and what is in them may come in any order: what was covered
is the same.  An event that is neither a hit nor a decision with its vector is passed
over before its phase is declared and refused after, so that an order may be refused
that another is not.
-/

namespace Supercov.Report

open Analysis (McdcVector)
open Pointwise (Below)

/-- The list in another order, its items as the relation lets them differ. -/
def Rearranged {α : Type} (R : α → α → Prop) (items others : List α) : Prop :=
  ∃ middle, items.Perm middle ∧ List.Forall₂ R middle others

structure DecisionSnapshot.Rearranges (decision other : DecisionSnapshot) : Prop where
  id : decision.id = other.id
  vectors : decision.vectors.Perm other.vectors

structure RuntimeSnapshot.Rearranges (snapshot other : RuntimeSnapshot) : Prop where
  decisions : Rearranged DecisionSnapshot.Rearranges snapshot.decisions other.decisions
  hits : snapshot.hits.Perm other.hits
  events : snapshot.events.Perm other.events
  phaseId : snapshot.phaseId = other.phaseId

structure RawTestResult.Rearranges (raw other : RawTestResult) : Prop where
  runtime : Rearranged RuntimeSnapshot.Rearranges raw.runtime other.runtime
  browser : Rearranged RuntimeSnapshot.Rearranges raw.browser other.browser
  server : raw.server.Perm other.server
  same : other =
    { raw with runtime := other.runtime, browser := other.browser, server := other.server }

theorem Rearranged.mem_flatMap_iff {α β : Type} {R : α → α → Prop} {items others : List α}
    {f : α → List β} (rearranged : Rearranged R items others)
    (same : ∀ item other, R item other → ∀ x, x ∈ f item ↔ x ∈ f other) (x : β) :
    x ∈ items.flatMap f ↔ x ∈ others.flatMap f := by
  obtain ⟨middle, perm, related⟩ := rearranged
  rw [(perm.flatMap_right f).mem_iff]
  clear perm
  induction related with
  | nil => rfl
  | cons head _ ih =>
    rw [List.flatMap_cons, List.flatMap_cons, List.mem_append, List.mem_append, ih,
      same _ _ head x]

section Items

variable (manifest : CoverageManifest)

theorem decisionItems_rearranged {decision other : DecisionSnapshot}
    (rearranges : decision.Rearranges other) (item : Item) :
    item ∈ decisionItems manifest decision ↔ item ∈ decisionItems manifest other := by
  rw [mem_decisionItems, mem_decisionItems, rearranges.id]
  simp only [rearranges.vectors.mem_iff]

theorem snapshotItems_rearranged {snapshot other : RuntimeSnapshot}
    (rearranges : snapshot.Rearranges other) (item : Item) :
    item ∈ snapshotItems manifest snapshot ↔ item ∈ snapshotItems manifest other := by
  rw [snapshotItems, snapshotItems, List.mem_append, List.mem_append,
    rearranges.decisions.mem_flatMap_iff (fun _ _ => decisionItems_rearranged manifest) item,
    (rearranges.hits.map Item.hit).mem_iff]

theorem itemsOf_rearranged {raw other : RawTestResult} (rearranges : raw.Rearranges other)
    (item : Item) : item ∈ itemsOf manifest raw ↔ item ∈ itemsOf manifest other := by
  rw [itemsOf, itemsOf, List.mem_append, List.mem_append, List.flatMap_append, List.flatMap_append,
    List.mem_append, List.mem_append,
    rearranges.runtime.mem_flatMap_iff (fun _ _ => snapshotItems_rearranged manifest) item,
    rearranges.browser.mem_flatMap_iff (fun _ _ => snapshotItems_rearranged manifest) item,
    (rearranges.server.flatMap_right _).mem_iff]

theorem logOf_rearranged {rawResults others : List RawTestResult}
    (rearranged : Rearranged RawTestResult.Rearranges rawResults others) (entry : String × Item) :
    entry ∈ logOf manifest rawResults ↔ entry ∈ logOf manifest others := by
  apply rearranged.mem_flatMap_iff
  intro raw other rearranges entry
  have id : rawTestId raw = rawTestId other := by
    rw [rearranges.same]
    rfl
  rw [id]
  simp only [List.mem_map, itemsOf_rearranged manifest rearranges]

theorem logOf_subset {rawResults more : List RawTestResult} (all : rawResults ⊆ more) :
    logOf manifest rawResults ⊆ logOf manifest more := by
  intro entry member
  obtain ⟨raw, among, logged⟩ := List.mem_flatMap.mp member
  exact List.mem_flatMap.mpr ⟨raw, all among, logged⟩

end Items

def Reads {α : Type} (outcome : Outcome ReportError α) : Prop :=
  (∃ value, outcome = .ok value) ∨ ∃ event, outcome = .refused (.invalidEvent event)

namespace Reads

variable {α β : Type}

theorem ok (value : α) : Reads (.ok value) := Or.inl ⟨value, rfl⟩

theorem bind {outcome : Outcome ReportError α} {next : α → Outcome ReportError β}
    (reads : Reads outcome) (then_ : ∀ value, Reads (next value)) : Reads (outcome >>= next) := by
  rcases reads with ⟨value, rfl⟩ | ⟨event, rfl⟩
  · exact then_ value
  · exact Or.inr ⟨event, rfl⟩

theorem foldlM {step : β → α → Outcome ReportError β} {items : List α}
    (each : ∀ state, ∀ item ∈ items, Reads (step state item)) (init : β) :
    Reads (items.foldlM step init) := by
  induction items generalizing init with
  | nil => exact ok init
  | cons item rest ih =>
    rw [List.foldlM_cons]
    apply bind (each init item List.mem_cons_self)
    exact ih fun state item member => each state item (List.mem_cons_of_mem _ member)

theorem event (ordered : List CoveragePhase) (ingest : Ingest) (event : RuntimeEvent) :
    Reads (ingest.event ordered event) := by
  rw [Ingest.event]
  split
  · exact ok _
  · dsimp only
    split_ifs
    · exact ok _
    · exact ok _
    · split
      · exact ok _
      · exact Or.inr ⟨_, rfl⟩
    · exact Or.inr ⟨_, rfl⟩

theorem snapshot (manifest : CoverageManifest) (test : String) (ordered : List CoveragePhase)
    (browser : Bool) (ingest : Ingest) (snapshot : RuntimeSnapshot) :
    Reads (ingest.snapshot manifest test ordered browser snapshot) := by
  apply bind (foldlM (fun state item _ => event ordered state item) _)
  intro noted
  exact ok _

end Reads

def ServerRecord.Formed (record : ServerRecord) : Prop :=
  (record.recordType = "decision" ∧ record.id.isSome ∧ record.vector.isSome) ∨
    (record.recordType = "hit" ∧ record.id.isSome)

theorem serverRecord_isOk_iff {manifest : CoverageManifest} {test : String}
    {ordered : List CoveragePhase} {ingest : Ingest} {record : ServerRecord} :
    (∃ ingest', ingest.serverRecord manifest test ordered record = .ok ingest') ↔
      record.Formed := by
  rw [Ingest.serverRecord, ServerRecord.Formed]
  by_cases decision : record.recordType = "decision"
  · rw [if_pos decision]
    cases named : record.id with
    | none => simp [decision]
    | some id =>
      cases seen : record.vector with
      | none => simp [decision]
      | some vector =>
        dsimp only
        split <;> simp [decision]
  · rw [if_neg decision]
    by_cases hit : record.recordType = "hit"
    · rw [if_pos hit]
      cases named : record.id <;> simp [hit]
    · rw [if_neg hit]
      simp [decision, hit]

theorem ingestResults_reads (manifest : CoverageManifest) {rawResults : List RawTestResult}
    (formed : ∀ raw ∈ rawResults, ∀ record ∈ raw.server, record.Formed) :
    Reads (ingestResults manifest rawResults) := by
  apply Reads.foldlM
  intro ingest raw member
  apply Reads.bind (Reads.foldlM (fun _ _ _ => Reads.snapshot ..) _)
  intro run
  apply Reads.bind (Reads.foldlM (fun _ _ _ => Reads.snapshot ..) _)
  intro browsed
  apply Reads.foldlM
  intro state record served
  exact Or.inl (serverRecord_isOk_iff.mpr (formed raw member record served))

theorem formed_of_ingestResults {manifest : CoverageManifest} {rawResults : List RawTestResult}
    {ingest : Ingest} (read : ingestResults manifest rawResults = .ok ingest) :
    ∀ raw ∈ rawResults, ∀ record ∈ raw.server, record.Formed := by
  intro raw member record served
  obtain ⟨before, after, step⟩ := Outcome.step_of_foldlM read member
  obtain ⟨_, _, rest⟩ := Outcome.bind_eq_ok.mp step
  obtain ⟨_, _, rest⟩ := Outcome.bind_eq_ok.mp rest
  obtain ⟨before, after, step⟩ := Outcome.step_of_foldlM rest served
  exact serverRecord_isOk_iff.mp ⟨after, step⟩

section Built

variable {declared : CoverageManifest} {rawResults rawResults' : List RawTestResult}
  {generatedAt : String} {model : CoverageModelDeclaration} {view view' : CoverageView}

theorem createCoverageView_grows (built : createCoverageView declared rawResults generatedAt model =
      .ok view)
    (built' : createCoverageView declared rawResults' generatedAt model = .ok view')
    (all : logOf (settled declared) rawResults ⊆ logOf (settled declared) rawResults') :
    Below view.flags view'.flags ∧ Below view.summary.counts view'.summary.counts := by
  obtain ⟨ingest, decisions, branches, read, built⟩ := exists_built built
  obtain ⟨ingest', decisions', branches', read', built'⟩ := exists_built built'
  obtain ⟨noted, -⟩ := Noted.ingestResults read
  obtain ⟨noted', -⟩ := Noted.ingestResults read'
  have sees := noted.sees noted' all
  exact ⟨flags_grow sees noted.tested noted'.tested built built',
    counts_grow sees noted.tested noted'.tested built built'⟩

theorem createCoverageView_of_ingest {ingest' : Ingest}
    (built : createCoverageView declared rawResults generatedAt model = .ok view)
    (read' : ingestResults (settled declared) rawResults' = .ok ingest')
    (all : logOf (settled declared) rawResults' ⊆ logOf (settled declared) rawResults) :
    ∃ view', createCoverageView declared rawResults' generatedAt model = .ok view' := by
  obtain ⟨ingest, decisions, branches, read, built⟩ := exists_built built
  obtain ⟨noted, -⟩ := Noted.ingestResults read
  obtain ⟨noted', -⟩ := Noted.ingestResults read'
  have sees := noted'.sees noted all
  obtain ⟨⟨decisions', branches'⟩, decided'⟩ := decisionResults_isOk sees ⟨_, built.decided⟩
  obtain ⟨grow, -⟩ :=
    decisionResults_grow sees noted'.tested noted.tested decided' built.decided
  obtain ⟨summary, total, summarized, -⟩ := built.summary
  have fit := summaryForResults_isOk_iff.mp ⟨summary, summarized⟩
  apply createCoverageView_isOk read' decided'
  intro result kept
  have related := Pointwise.filter (p := fun result : DecisionResult =>
      result.decision.id ∉ declinedOf (settled declared))
    (q := fun result : DecisionResult => result.decision.id ∉ declinedOf (settled declared))
    grow fun _ _ more => by rw [more.decision]
  rw [← built.decisions] at related
  obtain ⟨whole, member, more⟩ := Pointwise.exists_right related kept
  obtain ⟨some, uniform⟩ := fit whole member
  rw [DecisionResult.Fits, more.decision]
  exact ⟨some, fun vector seen => uniform vector (more.vectors seen)⟩

theorem createCoverageView_reads (built : createCoverageView declared rawResults generatedAt model =
      .ok view)
    (formed : ∀ raw ∈ rawResults', ∀ record ∈ raw.server, record.Formed)
    (all : logOf (settled declared) rawResults' ⊆ logOf (settled declared) rawResults) :
    Reads (createCoverageView declared rawResults' generatedAt model) := by
  rcases ingestResults_reads (settled declared) formed with ⟨ingest', read'⟩ | ⟨event, refused⟩
  · exact Or.inl (createCoverageView_of_ingest built read' all)
  · apply Or.inr
    refine ⟨event, ?_⟩
    rw [createCoverageView, refused]
    rfl

/-- In another order the same evidence is refused for an event, or covers the same;
and more evidence covers no less. -/
theorem createCoverageView_unordered
    (built : createCoverageView declared rawResults generatedAt model = .ok view) :
    (∀ others, Rearranged RawTestResult.Rearranges rawResults others →
      (∃ event, createCoverageView declared others generatedAt model =
        .refused (.invalidEvent event)) ∨
      ∃ view', createCoverageView declared others generatedAt model = .ok view' ∧
        view'.flags = view.flags ∧ view'.summary.counts = view.summary.counts) ∧
    ∀ more view', rawResults ⊆ more →
      createCoverageView declared more generatedAt model = .ok view' →
        Below view.flags view'.flags ∧ Below view.summary.counts view'.summary.counts := by
  constructor
  · intro others rearranged
    have same := logOf_rearranged (settled declared) rearranged
    have formed : ∀ raw ∈ others, ∀ record ∈ raw.server, record.Formed := by
      obtain ⟨ingest, decisions, branches, read, -⟩ := exists_built built
      intro raw member record served
      obtain ⟨middle, perm, related⟩ := rearranged
      obtain ⟨source, among, rearranges⟩ := Pointwise.exists_left related member
      exact formed_of_ingestResults read source (perm.mem_iff.mpr among) record
        (rearranges.server.mem_iff.mpr served)
    rcases createCoverageView_reads built formed fun entry => (same entry).mpr with
      ⟨view', built'⟩ | refused
    · obtain ⟨flags, counts⟩ := createCoverageView_grows built built' fun entry => (same entry).mp
      obtain ⟨flags', counts'⟩ :=
        createCoverageView_grows built' built fun entry => (same entry).mpr
      exact Or.inr ⟨view', built', flags'.antisymm flags, counts'.antisymm counts⟩
    · exact Or.inl refused
  · intro more view' all built'
    exact createCoverageView_grows built built' (logOf_subset (settled declared) all)

end Built

/-- A test that reached `p` and saw one vector of `d`. -/
def reaching : RawTestResult :=
  { ranOnce "passed" with
    runtime := [
      { decisions := [{ id := "d", vectors := [{ values := [some true], outcome := true }] }]
        hits := ["p"]
        events := []
        phaseId := none }] }

/-- A record of the same test, with an event `odd` of a phase it does not declare. -/
def oddlyWatched : RawTestResult :=
  { ranOnce "passed" with
    runtime := [
      { decisions := []
        hits := []
        events := [{ eventType := "odd", id := "p", vector := none, timestampMs := 0,
                     phaseId := some "q", environment := "server" }]
        phaseId := none }] }

def declaring : RawTestResult :=
  { ranOnce "passed" with
    phases := [{ id := "q", kind := "test", operation := "o", source := none,
                 causedByPhaseId := none, startedAtMs := 0, endedAtMs := none, status := none,
                 error := none }] }

theorem rearranged_pair (first second : RawTestResult) :
    Rearranged RawTestResult.Rearranges [first, second] [second, first] := by
  have refl {α : Type} {R : α → α → Prop} (each : ∀ item, R item item) (items : List α) :
      Rearranged R items items := ⟨items, List.Perm.refl _, List.forall₂_same.mpr fun item _ => each item⟩
  have snapshot (snapshot : RuntimeSnapshot) : snapshot.Rearranges snapshot :=
    ⟨refl (fun _ => ⟨rfl, List.Perm.refl _⟩) _, List.Perm.refl _, List.Perm.refl _, rfl⟩
  have own (raw : RawTestResult) : raw.Rearranges raw :=
    ⟨refl snapshot _, refl snapshot _, List.Perm.refl _, rfl⟩
  exact ⟨[second, first], List.Perm.swap _ _ _, .cons (own second) (.cons (own first) .nil)⟩

theorem createCoverageView_unordered_pair :
    (∃ event, createCoverageView (oneDecision []) [ranOnce "passed", reaching] "" bareModel =
      .refused (.invalidEvent event)) ∨
    ∃ view view', createCoverageView (oneDecision []) [reaching, ranOnce "passed"] "" bareModel =
        .ok view ∧
      createCoverageView (oneDecision []) [ranOnce "passed", reaching] "" bareModel = .ok view' ∧
      view'.flags = view.flags ∧ view'.summary.counts = view.summary.counts := by
  have built : createCoverageView (oneDecision []) [reaching, ranOnce "passed"] "" bareModel =
      .ok _ := rfl
  rcases (createCoverageView_unordered built).1 _ (rearranged_pair _ _) with refused | ⟨view', same⟩
  · exact Or.inl refused
  · exact Or.inr ⟨_, view', built, same⟩

/-- An event of no known type is passed over before its phase is declared, and
refused after. -/
theorem oddlyWatched_ordered :
    (∃ view, createCoverageView (oneDecision []) [oddlyWatched, declaring] "" bareModel =
      .ok view) ∧
    Rearranged RawTestResult.Rearranges [oddlyWatched, declaring] [declaring, oddlyWatched] ∧
    createCoverageView (oneDecision []) [declaring, oddlyWatched] "" bareModel =
      .refused (.invalidEvent "odd") :=
  ⟨⟨_, rfl⟩, rearranged_pair _ _, rfl⟩

end Supercov.Report
