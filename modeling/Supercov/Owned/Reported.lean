import Supercov.Owned.Credited
import Supercov.Owned.Written
import Supercov.Runtime.GoTests

/-!
# From a probe to the report

What the processes of a Go run store and complete while their tests run one by one is written, read
back, joined, made into results and shown in a view.  A test is credited with what happened while it
was open.
-/

namespace Supercov.Owned

open Analysis (McdcVector)
open Archive (ByteString)
open Report
open Supercov.Runtime (Word listAt)
open Supercov.Runtime.Go (Account Call Claims Fact Serially Suite TestRecord harvest namesOf
  namesOf_harvest sheet sheet_harvest uint64 writeLocked writeLocked_eq)

section Read

variable {widen : Nat → Word}

theorem reached_evidence (widens : Widens widen) {test : TestAccount} (fits : test.Fits)
    (byProbe : Index → Option String) (id : String) :
    id ∈ (test.evidence widen).reached byProbe ↔
      ∃ hit ∈ test.probes, byProbe (.ofNat 32 hit.1) = some id := by
  have listed := (TestAccount.readAs widens fits).listed
  constructor
  · rintro ⟨hit, member, answers⟩
    obtain ⟨own, among, same⟩ :=
      List.mem_map.mp ((listed hit.1).mp (List.mem_map_of_mem member))
    refine ⟨own, among, ?_⟩
    rw [same, BitVec.ofNat_toNat, BitVec.setWidth_eq]
    exact answers
  · rintro ⟨hit, member, answers⟩
    have low : (BitVec.ofNat 32 hit.1).toNat = hit.1 := by
      rw [BitVec.toNat_ofNat, Nat.mod_eq_of_lt (fits.probes hit member).1]
    obtain ⟨read, among, same⟩ := List.mem_map.mp
      ((listed (.ofNat 32 hit.1)).mpr (low.symm ▸ List.mem_map_of_mem member))
    exact ⟨read, among, same ▸ answers⟩

theorem evaluated_evidence (widens : Widens widen) (test : TestAccount)
    (manifest : CoverageManifest) (seen : String × McdcVector) :
    seen ∈ (test.evidence widen).evaluated manifest ↔
      ∃ index decision, manifest.decisions[index]? = some decision ∧
        ∃ hit ∈ test.vectors, BitVec.ofNat 32 index = BitVec.ofNat 32 hit.1 ∧
          seen = (decision.id, unpackVector hit.2 (decision.conditions.length % 256)) := by
  simp only [OwnedTestEvidence.evaluated, evaluatedBy, TestAccount.evidence, Set.mem_ofPred_eq,
    List.mem_map, PackedVector.mk.injEq, widens _]
  refine exists_congr fun index => exists_congr fun decision => and_congr_right fun _ => ?_
  constructor
  · rintro ⟨key, ⟨hit, member, own, rfl⟩, same⟩
    exact ⟨hit, member, own.symm, same⟩
  · rintro ⟨hit, member, own, same⟩
    exact ⟨hit.2, ⟨hit, member, own.symm, rfl⟩, same⟩

theorem known_of_mem_listAt {Item Entry : Type} {items : List Item} {field : Item → List Entry}
    {index : Nat} {entry : Entry} (member : entry ∈ listAt items field index) :
    ∃ item, items[index]? = some item := by
  cases known : items[index]? with
  | some item => exact ⟨item, rfl⟩
  | none =>
    rw [listAt, known] at member
    cases member

end Read

/-- A package of a Go run whose tests ran one by one: what its process did, the file it wrote, and
what was read of that. -/
structure TestedPackage where
  directory : String
  declaredIn : String → Option String
  probes : Nat
  conditions : List Nat
  calls : List Call
  file : ByteString
  evidence : OwnedEvidence
  serially : Serially calls (.start probes conditions)
  fits : (harvest ((Suite.start probes conditions).run calls).runtime).account.Fits
  written : file.bytes = writeLocked ((Suite.start probes conditions).run calls).runtime
  read : readEvidence file = .ok evidence

namespace TestedPackage

def suite (package : TestedPackage) : Suite :=
  (Suite.start package.probes package.conditions).run package.calls

def happened (package : TestedPackage) : Account := package.suite.account

def package (package : TestedPackage) : Package where
  directory := package.directory
  declaredIn := package.declaredIn
  evidence := package.evidence

def named (package : TestedPackage) : String × List String :=
  (package.directory, package.happened.tests.map Prod.fst)

variable {package : TestedPackage}

theorem kept (package : TestedPackage) : package.suite.Kept :=
  (Suite.Kept.start package.probes package.conditions).run package.serially

theorem evidence_eq (package : TestedPackage) :
    package.evidence = (harvest package.suite.runtime).account.evidence uint64 := by
  have transported := package.written
  rw [writeLocked_eq] at transported
  exact Outcome.ok.inj (package.read.symm.trans (readEvidence_transport transported))

theorem tests_evidence (package : TestedPackage) : package.evidence.tests =
    (harvest package.suite.runtime).records.map fun record => record.account.evidence uint64 := by
  rw [evidence_eq]
  exact List.map_map

theorem namesOf_records (package : TestedPackage) :
    namesOf (harvest package.suite.runtime).records = package.happened.tests :=
  (namesOf_harvest package.suite.runtime).trans package.kept.named

theorem named_package (package : TestedPackage) : package.package.named = package.named := by
  rw [Package.named, named, TestedPackage.package, tests_evidence, ← namesOf_records, namesOf,
    List.map_map, List.map_map]
  rfl

theorem mem_evidence {test : Nat} {record : TestRecord}
    (known : (harvest package.suite.runtime).records[test]? = some record) :
    record.account.evidence uint64 ∈ package.package.evidence.tests := by
  rw [TestedPackage.package, tests_evidence]
  exact List.mem_map_of_mem (List.mem_of_getElem? known)

theorem known_of_fact {test : Nat} {fact : Fact}
    (during : (some test, fact) ∈ package.happened.facts) :
    ∃ record, (harvest package.suite.runtime).records[test]? = some record := by
  have sound := package.kept.sound
  have held : fact ∈ (sheet (harvest package.suite.runtime)).accounts test := by
    rw [sheet_harvest sound.attributed sound.stores]
    exact sound.exact_.mem_accounts.mpr during
  cases fact with
  | stored probe =>
    exact known_of_mem_listAt (show (probe, 2) ∈ listAt _ TestRecord.probes test from held)
  | completed decision key =>
    exact known_of_mem_listAt (show (decision, key) ∈ listAt _ TestRecord.vectors test from held)

theorem attributed_of_fact {test : Nat} {record : TestRecord} {fact : Fact}
    (known : (harvest package.suite.runtime).records[test]? = some record)
    (during : (some test, fact) ∈ package.happened.facts) : record.unattributed = false := by
  let start := Suite.start package.probes package.conditions
  have begun : Claims start.runtime.records start.runtime.current := .nil
  have claims : Claims (harvest package.suite.runtime).records package.suite.runtime.current :=
    (begun.run package.calls).harvest
  have accounts := package.kept.accounts
  by_contra unattributed
  obtain ⟨noProbes, noVectors⟩ :=
    claims.empty record (List.mem_of_getElem? known) (by simpa using unattributed)
  cases fact with
  | stored probe =>
    have member := (accounts.ownStores test record known (probe, 2)).mpr ⟨rfl, during⟩
    rw [noProbes] at member
    cases member
  | completed decision key =>
    have member := (accounts.ownVectors test record known (decision, key)).mpr during
    rw [noVectors] at member
    cases member

/-- What a fact of a package is in a view of the run. -/
def Tells {Detail Model : Type} (inputs : OwnedRunInputs Detail Model) : Fact → Item → Prop
  | .stored probe, .hit id => inputs.byProbe (.ofNat 32 probe) = some id
  | .completed number key, .vector id vector =>
    ∃ index decision, inputs.manifest.decisions[index]? = some decision ∧
      BitVec.ofNat 32 index = BitVec.ofNat 32 number ∧
        (id, vector) = (decision.id, unpackVector key (decision.conditions.length % 256))
  | _, _ => False

variable {Detail Model : Type} {digest : List String → String} {inputs : OwnedRunInputs Detail Model}

theorem says_iff {test : Nat} {record : TestRecord}
    (known : (harvest package.suite.runtime).records[test]? = some record) (item : Item) :
    (record.account.evidence uint64).Says inputs item ↔
      ∃ fact, (some test, fact) ∈ package.happened.facts ∧ Tells inputs fact item := by
  have accounts := package.kept.accounts
  have fits : record.account.Fits :=
    package.fits.tests _ (List.mem_map_of_mem (List.mem_of_getElem? known))
  cases item with
  | hit id =>
    rw [OwnedTestEvidence.Says, reached_evidence uint64_widens fits]
    constructor
    · rintro ⟨hit, member, answers⟩
      exact ⟨.stored hit.1, ((accounts.ownStores test record known hit).mp member).2, answers⟩
    · rintro ⟨_ | _, during, tells⟩
      · exact ⟨_, (accounts.ownStores test record known (_, 2)).mpr ⟨rfl, during⟩, tells⟩
      · exact tells.elim
  | vector id vector =>
    rw [OwnedTestEvidence.Says, evaluated_evidence uint64_widens]
    constructor
    · rintro ⟨index, decision, declared, hit, member, own, same⟩
      exact ⟨.completed hit.1 hit.2, (accounts.ownVectors test record known hit).mp member, index,
        decision, declared, own, same⟩
    · rintro ⟨_ | ⟨number, key⟩, during, tells⟩
      · exact tells.elim
      · obtain ⟨index, decision, declared, own, same⟩ := tells
        exact ⟨index, decision, declared, (number, key),
          (accounts.ownVectors test record known (number, key)).mpr during, own, same⟩

theorem reached_iff (byProbe : Index → Option String) (id : String) :
    id ∈ package.evidence.reached byProbe ↔ ∃ label probe,
      (label, .stored probe) ∈ package.happened.facts ∧ byProbe (.ofNat 32 probe) = some id := by
  have accounts := package.kept.accounts
  have total (index : Nat) : package.evidence.global.getD index 0 ≠ 0 ↔
      (harvest package.suite.runtime).global[index]? = some 2 := by
    have held : package.evidence.global[index]? =
        ((harvest package.suite.runtime).global[index]?).map fun total =>
          (uint64 total).setWidth 32 := by
      rw [evidence_eq]
      exact List.getElem?_map
    rw [List.getD_eq_getElem?_getD, held]
    cases found : (harvest package.suite.runtime).global[index]? with
    | none => simp
    | some total =>
      rcases accounts.totals total (List.mem_of_getElem? found) with rfl | rfl <;> decide
  simp only [OwnedEvidence.reached, Set.mem_ofPred_eq, total, accounts.stores]
  constructor
  · rintro ⟨probe, ⟨label, during⟩, answers⟩
    exact ⟨label, probe, during, answers⟩
  · rintro ⟨label, probe, during, answers⟩
    exact ⟨probe, ⟨label, during⟩, answers⟩

theorem exists_record {test : Nat} {name status : String}
    (ran : package.happened.tests[test]? = some (name, status)) :
    ∃ record, (harvest package.suite.runtime).records[test]? = some record ∧ record.name = name := by
  rw [← namesOf_records, namesOf, List.getElem?_map] at ran
  obtain ⟨record, known, same⟩ := Option.map_eq_some_iff.mp ran
  exact ⟨record, known, congrArg Prod.fst same⟩

end TestedPackage

section Reported

open TestedPackage (Tells attributed_of_fact exists_record known_of_fact mem_evidence reached_iff
  says_iff)

variable {Detail Model : Type} {digest : List String → String} {inputs : OwnedRunInputs Detail Model}
  {packages : List TestedPackage} {generatedAt : String} {model : CoverageModelDeclaration}
  {view : CoverageView}

theorem named_packages (packages : List TestedPackage) :
    (packages.map TestedPackage.package).map Package.named = packages.map TestedPackage.named := by
  rw [List.map_map]
  exact List.map_congr_left fun package _ => package.named_package

/-- A test that can be told apart is credited with what happened while it was open, and with nothing
else. -/
theorem test_credits_iff
    (viewed : Viewed digest inputs (packages.map TestedPackage.package) generatedAt model view)
    {package : TestedPackage} (among : package ∈ packages) {test : Nat} {name status : String}
    (ran : package.happened.tests[test]? = some (name, status))
    (apart : ToldApart (packages.map TestedPackage.named) inputs.declaration.language
      package.directory name) (shown : Shown) :
    view.Credits (testIdOf package.directory name) shown ↔
      ∃ fact, (some test, fact) ∈ package.happened.facts ∧
        ∃ item, Tells inputs fact item ∧ Serves (settled inputs.manifest) item shown := by
  obtain ⟨record, known, rfl⟩ := exists_record ran
  have member : (package.package, record.account.evidence uint64) ∈
      recordsOf (packages.map TestedPackage.package) :=
    mem_recordsOf.mpr ⟨List.mem_map_of_mem among, mem_evidence known⟩
  rw [← named_packages] at apart
  refine (record_credits_iff member apart viewed shown).trans ?_
  constructor
  · rintro ⟨-, item, said, serves⟩
    obtain ⟨fact, during, tells⟩ := (says_iff known item).mp said
    exact ⟨fact, during, item, tells, serves⟩
  · rintro ⟨fact, during, item, tells, serves⟩
    exact ⟨attributed_of_fact known during, item,
      (says_iff known item).mpr ⟨fact, during, tells⟩, serves⟩

/-- Where no two tests share a name, a view credits something to somebody exactly where a probe was
stored that serves it, in a test or in none, or a vector completed in a test. -/
theorem run_credits_iff
    (viewed : Viewed digest inputs (packages.map TestedPackage.package) generatedAt model view)
    (distinct : ((packages.map TestedPackage.named).flatMap Prod.snd).Nodup) (shown : Shown) :
    (∃ credited, view.Credits credited shown) ↔
      ∃ package ∈ packages, ∃ label fact, (label, fact) ∈ package.happened.facts ∧
        (label = none → ∃ probe, fact = .stored probe) ∧
        ∃ item, Tells inputs fact item ∧ Serves (settled inputs.manifest) item shown := by
  rw [← named_packages] at distinct
  rw [exists_credits_iff distinct viewed]
  constructor
  · rintro ⟨item, ⟨record, ⟨⟨_, inside, held⟩, -⟩, said⟩ | ⟨id, rfl, reached⟩, serves⟩
    · obtain ⟨package, among, rfl⟩ := List.mem_map.mp inside
      rw [TestedPackage.package, package.tests_evidence] at held
      obtain ⟨own, member, rfl⟩ := List.mem_map.mp held
      obtain ⟨test, known⟩ := List.mem_iff_getElem?.mp member
      obtain ⟨fact, during, tells⟩ := (says_iff known item).mp said
      exact ⟨package, among, some test, fact, during, by simp, item, tells, serves⟩
    · obtain ⟨_, inside, there⟩ := (reached_mergeEvidence inputs.byProbe _ id).mp reached
      obtain ⟨_, listed, rfl⟩ := List.mem_map.mp inside
      obtain ⟨package, among, rfl⟩ := List.mem_map.mp listed
      obtain ⟨label, probe, during, answers⟩ := (reached_iff inputs.byProbe id).mp there
      exact ⟨package, among, label, .stored probe, during, fun _ => ⟨probe, rfl⟩, .hit id, answers,
        serves⟩
  · rintro ⟨package, among, label, fact, during, outside, item, tells, serves⟩
    refine ⟨item, ?_, serves⟩
    cases label with
    | none =>
      -- Outside of tests it is the totals that have it.
      obtain ⟨probe, rfl⟩ := outside rfl
      cases item with
      | hit id =>
        refine .inr ⟨id, rfl, (reached_mergeEvidence inputs.byProbe _ id).mpr ⟨package.evidence, ?_,
          (reached_iff inputs.byProbe id).mpr ⟨none, probe, during, tells⟩⟩⟩
        exact List.mem_map_of_mem (List.mem_map_of_mem among)
      | vector decision vector => exact tells.elim
    | some test =>
      obtain ⟨record, known⟩ := known_of_fact during
      exact .inl ⟨record.account.evidence uint64,
        ⟨⟨package.package, List.mem_map_of_mem among, mem_evidence known⟩,
          attributed_of_fact known during⟩,
        (says_iff known item).mpr ⟨fact, during, tells⟩⟩

def storingCalls : List Call := [.store 0, .enter "TestStore", .store 1, .leave 0]

/-- A package whose one test stores a probe, and one more is stored outside it. -/
def storing : TestedPackage where
  directory := "shop"
  declaredIn := fun _ => none
  probes := 2
  conditions := []
  calls := storingCalls
  file := ⟨writeLocked ((Suite.start 2 []).run storingCalls).runtime, by decide +kernel⟩
  evidence := (harvest ((Suite.start 2 []).run storingCalls).runtime).account.evidence uint64
  serially := by decide +kernel
  fits := ⟨by decide, fun test member => ⟨by revert test; decide, by revert test; decide⟩, by decide⟩
  written := rfl
  read := readEvidence_transport (writeLocked_eq _)

def statement (id : String) (line : Nat) : PointMeta where
  id := id
  kind := .statement
  file := "shop/store.go"
  line := line
  column := 1
  source := ""
  label := none

def storingInputs : OwnedRunInputs Unit Unit :=
  { namesakeInputs with
    manifest := { namesakeInputs.manifest with points := [statement "s" 1, statement "t" 2] } }

theorem viewed_storing : ∃ view,
    Viewed (fun _ => "") storingInputs ([storing].map TestedPackage.package) "" bareModel view := by
  refine Outcome.isOk_iff.mp ?_
  decide +kernel

theorem facts_storing : storing.happened.facts = [(none, .stored 0), (some 0, .stored 1)] := by
  decide +kernel

theorem test_credits_storing : ∃ view,
    Viewed (fun _ => "") storingInputs ([storing].map TestedPackage.package) "" bareModel view ∧
      view.Credits (testIdOf "shop" "TestStore") (.point "t") := by
  have ran : storing.happened.tests[0]? = some ("TestStore", "passed") := rfl
  have apart : ToldApart ([storing].map TestedPackage.named) "go" "shop" "TestStore" :=
    ⟨by decide +kernel, by decide +kernel, by decide +kernel⟩
  obtain ⟨view, viewed⟩ := viewed_storing
  refine ⟨view, viewed, (test_credits_iff viewed (List.mem_singleton_self _) ran apart _).mpr
    ⟨.stored 1, ?_, .hit "t", rfl, rfl, statement "t" 2, by decide +kernel, rfl, by decide +kernel⟩⟩
  simp [facts_storing]

/-- What was stored before the test is credited all the same. -/
theorem run_credits_storing : ∃ view,
    Viewed (fun _ => "") storingInputs ([storing].map TestedPackage.package) "" bareModel view ∧
      ∃ credited, view.Credits credited (.point "s") := by
  obtain ⟨view, viewed⟩ := viewed_storing
  refine ⟨view, viewed, (run_credits_iff viewed (by decide +kernel) _).mpr
    ⟨storing, List.mem_singleton_self _, none, .stored 0, ?_, fun _ => ⟨0, rfl⟩, .hit "s", rfl, rfl,
      statement "s" 1, by decide +kernel, rfl, by decide +kernel⟩⟩
  simp [facts_storing]

end Reported

end Supercov.Owned
