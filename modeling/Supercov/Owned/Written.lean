import Supercov.Owned.Transport
import Supercov.Runtime.Go
import Supercov.Runtime.Jvm

/-!
# What the runtimes write is read back

The Go and the Java runtime write one format, the one widening its unsigned numbers to
a word and the other its signed ones.  The reader drops what the widening added, so it
has the run as the runtime held it.
-/

namespace Supercov

open Archive (ByteString)
open JsonText (utf8)

namespace Runtime.Go

open Owned (put putCount putText putAll TestAccount RunAccount)

def uint64 (value : Nat) : Word := BitVec.ofNat 64 value

def writeRecord (record : TestRecord) : List UInt8 :=
  putCount (utf8 record.name.toList).length ++ utf8 record.name.toList ++
    (putCount (utf8 record.status.toList).length ++ utf8 record.status.toList) ++
    put (if record.unattributed then 1 else 0) ++
    -- Neither a runner nor tags.
    put 0 ++ put 0 ++
    (putCount record.probes.length ++
      record.probes.flatMap fun hit => put (uint64 hit.1) ++ put (uint64 hit.2)) ++
    (putCount record.vectors.length ++
      record.vectors.flatMap fun hit => put (uint64 hit.1) ++ put hit.2)

def writeLocked (state : State) : List UInt8 :=
  let state := harvest state
  (putCount state.global.length ++ state.global.flatMap fun value => put (uint64 value)) ++
    (putCount state.records.length ++ state.records.flatMap writeRecord) ++
    (putCount state.decisions.length ++ state.decisions.flatMap fun decision =>
      put (uint64 decision.width) ++
        (putCount decision.runWide.length ++ decision.runWide.flatMap put))

def TestRecord.account (record : TestRecord) : TestAccount where
  name := record.name
  status := record.status
  unattributed := record.unattributed
  runner := ""
  tags := []
  probes := record.probes
  vectors := record.vectors

def State.account (state : State) : RunAccount where
  global := state.global
  tests := state.records.map TestRecord.account
  decisions := state.decisions.map fun decision => (decision.width, decision.runWide)

theorem writeRecord_eq (record : TestRecord) :
    writeRecord record = record.account.transport uint64 := by
  have none : putText "" = put 0 := rfl
  have noTags : putAll putText [] = put 0 := rfl
  simp only [writeRecord, TestAccount.transport, TestRecord.account, none, noTags]
  rfl

theorem writeLocked_eq (state : State) :
    writeLocked state = (harvest state).account.transport uint64 := by
  have records := funext writeRecord_eq
  simp only [writeLocked, RunAccount.transport, State.account, putAll, List.length_map,
    List.flatMap_map, records]

end Runtime.Go

namespace Runtime.Jvm

open Owned (put putCount putText putAll TestAccount RunAccount)

/-- The conversion of an `int` to a `long`, which repeats its sign. -/
def toLong (value : Nat) : Word := (BitVec.ofNat 32 value).signExtend 64

def writeRecord (record : Record) : List UInt8 :=
  putCount (utf8 record.name.toList).length ++ utf8 record.name.toList ++
    (putCount (utf8 record.status.toList).length ++ utf8 record.status.toList) ++
    put (if record.unattributed then 1 else 0) ++
    (putCount (utf8 record.runner.toList).length ++ utf8 record.runner.toList) ++
    (putCount record.tags.length ++ record.tags.flatMap fun tag =>
      putCount (utf8 tag.toList).length ++ utf8 tag.toList) ++
    (putCount record.probes.length ++
      record.probes.flatMap fun hit => put (toLong hit.1) ++ put (toLong hit.2)) ++
    (putCount record.vectors.length ++
      record.vectors.flatMap fun hit => put (toLong hit.1) ++ put hit.2)

def write (state : State) : List UInt8 :=
  let state := harvest state
  (putCount state.global.length ++ state.global.flatMap fun value => put (toLong value)) ++
    (putCount state.records.length ++ state.records.flatMap writeRecord) ++
    (putCount state.decisions.length ++ state.decisions.flatMap fun decision =>
      put (toLong decision.width) ++
        (putCount decision.runWide.length ++ decision.runWide.flatMap put))

def Record.account (record : Record) : TestAccount where
  name := record.name
  status := record.status
  unattributed := record.unattributed
  runner := record.runner
  tags := record.tags
  probes := record.probes
  vectors := record.vectors

def State.account (state : State) : RunAccount where
  global := state.global
  tests := state.records.map Record.account
  decisions := state.decisions.map fun decision => (decision.width, decision.runWide)

theorem writeRecord_eq (record : Record) :
    writeRecord record = record.account.transport toLong := by
  simp only [writeRecord, TestAccount.transport, Record.account]
  rfl

theorem write_eq (state : State) : write state = (harvest state).account.transport toLong := by
  have records := funext writeRecord_eq
  simp only [write, RunAccount.transport, State.account, putAll, List.length_map,
    List.flatMap_map, records]

end Runtime.Jvm

namespace Owned

open Supercov.Runtime (Word)

/-- The numbers are what the runtimes' types hold: 32 bits to a total, a probe and an
index, and a byte to a width. -/
structure TestAccount.Fits (test : TestAccount) : Prop where
  probes : ∀ hit ∈ test.probes, hit.1 < 2 ^ 32 ∧ hit.2 < 2 ^ 32
  vectors : ∀ hit ∈ test.vectors, hit.1 < 2 ^ 32

structure RunAccount.Fits (run : RunAccount) : Prop where
  global : ∀ total ∈ run.global, total < 2 ^ 32
  tests : ∀ test ∈ run.tests, test.Fits
  widths : ∀ decision ∈ run.decisions, decision.1 < 2 ^ 8

/-- The test as it was held.  Of a probe that is listed twice the later value is read. -/
structure TestAccount.ReadAs (test : TestAccount) (evidence : OwnedTestEvidence) : Prop where
  name : evidence.name = test.name
  status : evidence.status = test.status
  unattributed : evidence.unattributed = test.unattributed
  runner : evidence.runner = test.runner
  tags : evidence.tags.Nodup ∧ evidence.tags.Sublist test.tags ∧
    ∀ tag ∈ test.tags, tag ∈ evidence.tags
  listed : ∀ index, index ∈ evidence.probes.map Prod.fst ↔
    index.toNat ∈ test.probes.map Prod.fst
  probes : ∀ index value, (index, value) ∈ evidence.probes ↔
    test.probes.reverse.lookup index.toNat = some value.toNat
  vectors : evidence.vectors.map (fun vector => (vector.decision.toNat, vector.key)) = test.vectors

structure RunAccount.ReadAs (run : RunAccount) (evidence : OwnedEvidence) : Prop where
  global : evidence.global.map BitVec.toNat = run.global
  tests : List.Forall₂ TestAccount.ReadAs run.tests evidence.tests
  widths : evidence.widths = run.decisions.map Prod.fst
  decisionVectors : evidence.decisionVectors = run.decisions.map Prod.snd

/-- The bytes are read as the run, and no proper part of them from the front is read. -/
structure RunAccount.ReadFrom (run : RunAccount) (input : ByteString) : Prop where
  whole : ∃ evidence, readEvidence input = .ok evidence ∧ run.ReadAs evidence
  cut : ∀ short : ByteString, short.bytes <+: input.bytes → short.bytes ≠ input.bytes →
    ∃ error, readEvidence short = .refused error

/-- The lower half of a widened number is the number. -/
def Widens (widen : Nat → Word) : Prop :=
  ∀ value, (widen value).setWidth 32 = BitVec.ofNat 32 value

theorem uint64_widens : Widens Runtime.Go.uint64 := by
  intro value
  exact BitVec.setWidth_ofNat_of_le (by decide) value

theorem toLong_widens : Widens Runtime.Jvm.toLong := by
  intro value
  apply BitVec.eq_of_getLsbD_eq
  intro index low
  have within : index < 64 := by omega
  rw [Runtime.Jvm.toLong, BitVec.getLsbD_setWidth, BitVec.getLsbD_signExtend, if_pos low]
  simp [low, within]

section Read

variable {widen : Nat → Word}

theorem toNat_of_widens (widens : Widens widen) {value : Nat} (fits : value < 2 ^ 32) :
    ((widen value).setWidth 32).toNat = value := by
  rw [widens, BitVec.toNat_ofNat, Nat.mod_eq_of_lt fits]

theorem width_of_widens (widens : Widens widen) {value : Nat} (fits : value < 2 ^ 8) :
    ((widen value).setWidth 8).toNat = value := by
  have through : (widen value).setWidth 8 = ((widen value).setWidth 32).setWidth 8 := by
    rw [BitVec.setWidth_setWidth_of_le _ (by decide)]
  rw [through, widens, BitVec.setWidth_ofNat_of_le (by decide), BitVec.toNat_ofNat,
    Nat.mod_eq_of_lt fits]

theorem foldl_pushNew (tags : List String) {made : List String} (distinct : made.Nodup) :
    (tags.foldl pushNew made).Nodup ∧ (tags.foldl pushNew made).Sublist (made ++ tags) ∧
      ∀ tag, tag ∈ tags.foldl pushNew made ↔ tag ∈ made ∨ tag ∈ tags := by
  induction tags generalizing made with
  | nil => simp [distinct]
  | cons tag tags ih =>
    rw [List.foldl_cons, pushNew]
    split
    · next known =>
      obtain ⟨nodup, sublist, members⟩ := ih distinct
      refine ⟨nodup, sublist.trans ?_, ?_⟩
      · exact (List.sublist_cons_self tag tags).append_left made
      · intro other
        rw [members, List.mem_cons]
        constructor
        · exact Or.imp_right Or.inr
        · rintro (old | rfl | later)
          · exact Or.inl old
          · exact Or.inl known
          · exact Or.inr later
    · next fresh =>
      have more : (made ++ [tag]).Nodup :=
        List.nodup_append.mpr ⟨distinct, List.nodup_singleton tag, by grind⟩
      obtain ⟨nodup, sublist, members⟩ := ih more
      rw [List.append_assoc, List.singleton_append] at sublist
      refine ⟨nodup, sublist, ?_⟩
      intro other
      rw [members, List.mem_append, List.mem_singleton, List.mem_cons, or_assoc]

def probesOf (widen : Nat → Word) (test : TestAccount) : List (Index × BitVec 32) :=
  test.probes.map fun hit => ((widen hit.1).setWidth 32, (widen hit.2).setWidth 32)

theorem probes_evidence (test : TestAccount) :
    (test.evidence widen).probes = Ordered.extend [] (probesOf widen test) := by
  rw [probesOf, Ordered.extend, List.foldl_map]
  rfl

theorem lookup_probes (widens : Widens widen) {probes : List (Nat × Nat)}
    (fits : ∀ hit ∈ probes, hit.1 < 2 ^ 32 ∧ hit.2 < 2 ^ 32) (index : Index) :
    (probes.map fun hit => ((widen hit.1).setWidth 32, (widen hit.2).setWidth 32)).lookup index =
      (probes.lookup index.toNat).map (BitVec.ofNat 32) := by
  induction probes with
  | nil => rfl
  | cons hit probes ih =>
    have others := ih fun other member => fits other (List.mem_cons_of_mem _ member)
    have low := toNat_of_widens widens (fits hit List.mem_cons_self).1
    rw [List.map_cons, Ordered.lookup_cons_ite, Ordered.lookup_cons_ite, others]
    have same : index = (widen hit.1).setWidth 32 ↔ index.toNat = hit.1 := by
      rw [← BitVec.toNat_inj, low]
    by_cases here : index.toNat = hit.1
    · rw [if_pos here, if_pos (same.mpr here), widens hit.2, Option.map_some]
    · rw [if_neg here, if_neg (mt same.mp here)]

theorem value_of_lookup {probes : List (Nat × Nat)}
    (fits : ∀ hit ∈ probes, hit.1 < 2 ^ 32 ∧ hit.2 < 2 ^ 32) {index value : Nat}
    (found : probes.lookup index = some value) : value < 2 ^ 32 := by
  obtain ⟨before, after, rfl, _⟩ := List.lookup_eq_some_iff.mp found
  exact (fits (index, value) (by simp)).2

theorem lookup_evidence (widens : Widens widen) {test : TestAccount} (fits : test.Fits)
    (index : Index) :
    (test.evidence widen).probes.lookup index =
      (test.probes.reverse.lookup index.toNat).map (BitVec.ofNat 32) := by
  have later : ∀ hit ∈ test.probes.reverse, hit.1 < 2 ^ 32 ∧ hit.2 < 2 ^ 32 :=
    fun hit member => fits.probes hit (List.mem_reverse.mp member)
  rw [probes_evidence, Ordered.lookup_extend, List.lookup_nil, Option.or_none, probesOf,
    ← List.map_reverse, lookup_probes widens later]

theorem TestAccount.readAs (widens : Widens widen) {test : TestAccount} (fits : test.Fits) :
    test.ReadAs (test.evidence widen) where
  name := rfl
  status := rfl
  unattributed := rfl
  runner := rfl
  tags := by
    obtain ⟨nodup, sublist, members⟩ := foldl_pushNew test.tags List.nodup_nil
    exact ⟨nodup, sublist, fun tag member => (members tag).mpr (Or.inr member)⟩
  listed := by
    intro index
    have known : index.toNat ∈ test.probes.map Prod.fst ↔
        index.toNat ∈ test.probes.reverse.map Prod.fst := by
      rw [List.map_reverse, List.mem_reverse]
    rw [known, Ordered.mem_keys_iff_lookup, Ordered.mem_keys_iff_lookup, lookup_evidence widens fits,
      ← Option.isSome_iff_exists, ← Option.isSome_iff_exists, Option.isSome_map]
  probes := by
    intro index value
    have sorted : Ordered.Sorted (test.evidence widen).probes := by
      rw [probes_evidence]
      exact Ordered.Sorted.extend List.Pairwise.nil _
    have later : ∀ hit ∈ test.probes.reverse, hit.1 < 2 ^ 32 ∧ hit.2 < 2 ^ 32 :=
      fun hit member => fits.probes hit (List.mem_reverse.mp member)
    rw [sorted.mem_iff_lookup, lookup_evidence widens fits, Option.map_eq_some_iff]
    constructor
    · rintro ⟨held, found, rfl⟩
      rw [found, BitVec.toNat_ofNat, Nat.mod_eq_of_lt (value_of_lookup later found)]
    · intro found
      exact ⟨value.toNat, found, BitVec.eq_of_toNat_eq (by simp)⟩
  vectors := by
    rw [TestAccount.evidence, List.map_map]
    apply (List.map_congr_left _).trans (List.map_id _)
    intro hit member
    exact Prod.ext (toNat_of_widens widens (fits.vectors hit member)) rfl

theorem RunAccount.readAs (widens : Widens widen) {run : RunAccount} (fits : run.Fits) :
    run.ReadAs (run.evidence widen) where
  global := by
    rw [RunAccount.evidence, OwnedEvidence.ofTable, List.map_map]
    apply (List.map_congr_left _).trans (List.map_id _)
    intro total member
    exact toNat_of_widens widens (fits.global total member)
  tests := by
    apply List.forall₂_map_right_iff.mpr
    apply List.forall₂_same.mpr
    intro test member
    exact TestAccount.readAs widens (fits.tests test member)
  widths := by
    refine List.map_map.trans (List.map_congr_left ?_)
    intro decision member
    exact width_of_widens widens (fits.widths decision member)
  decisionVectors := List.map_map

theorem RunAccount.readFrom (widens : Widens widen) {run : RunAccount} (fits : run.Fits)
    {input : ByteString} (written : input.bytes = run.transport widen) : run.ReadFrom input where
  whole := ⟨run.evidence widen, readEvidence_transport written, RunAccount.readAs widens fits⟩
  cut := by
    intro short ahead proper
    rw [written] at ahead proper
    exact readEvidence_cut (written ▸ input.length_lt) ahead proper

end Read

/-- The two runtimes and the reader speak one format, and the reader ends with evidence
or an error whatever it is given. -/
theorem transport_readFrom :
    (∀ (state : Runtime.Go.State) (input : ByteString),
      (Runtime.Go.harvest state).account.Fits → input.bytes = Runtime.Go.writeLocked state →
      (Runtime.Go.harvest state).account.ReadFrom input) ∧
    (∀ (state : Runtime.Jvm.State) (input : ByteString),
      (Runtime.Jvm.harvest state).account.Fits → input.bytes = Runtime.Jvm.write state →
      (Runtime.Jvm.harvest state).account.ReadFrom input) ∧
    ∀ input : ByteString, readEvidence input ≠ .crashed := by
  refine ⟨?_, ?_, readEvidence_safe⟩
  · intro state input fits written
    rw [Runtime.Go.writeLocked_eq] at written
    exact RunAccount.readFrom uint64_widens fits written
  · intro state input fits written
    rw [Runtime.Jvm.write_eq] at written
    exact RunAccount.readFrom toLong_widens fits written

section Written

def goState : Runtime.Go.State :=
  Runtime.Go.p 1 (Runtime.Go.enterTest "TestStore" (Runtime.Go.arm 2 [2]))

/-- A test with tags, one of them twice, and a total whose sign is repeated. -/
def jvmState : Runtime.Jvm.State where
  hits := [0, 2]
  global := [2 ^ 32 - 1, 0]
  decisions := [{ Runtime.Jvm.DecisionState.armed 2 with runWide := [3] }]
  records := [{
    name := "store()"
    runner := "junit"
    tags := ["slow", "db", "slow"]
    status := "failed"
    unattributed := false
    probes := [(0, 2)]
    vectors := [(0, 3)] }]
  current := some 0
  openTests := 1
  overlapped := false
  concurrentRecord := none

theorem transport_readFrom_states :
    (∃ input : ByteString, input.bytes = Runtime.Go.writeLocked goState ∧
      (Runtime.Go.harvest goState).account.ReadFrom input) ∧
    ∃ input : ByteString, input.bytes = Runtime.Jvm.write jvmState ∧
      (Runtime.Jvm.harvest jvmState).account.ReadFrom input := by
  have goFits : (Runtime.Go.harvest goState).account.Fits :=
    ⟨by decide, fun test member => ⟨by revert test; decide, by revert test; decide⟩, by decide⟩
  have jvmFits : (Runtime.Jvm.harvest jvmState).account.Fits :=
    ⟨by decide, fun test member => ⟨by revert test; decide, by revert test; decide⟩, by decide⟩
  refine ⟨⟨⟨Runtime.Go.writeLocked goState, by decide +kernel⟩, rfl, ?_⟩,
    ⟨Runtime.Jvm.write jvmState, by decide +kernel⟩, rfl, ?_⟩
  · exact transport_readFrom.1 goState _ goFits rfl
  · exact transport_readFrom.2.1 jvmState _ jvmFits rfl

end Written

end Owned

end Supercov
