import Supercov.Analysis.Independence
import Supercov.Merge.Runs
import Supercov.Runtime.Ledger

/-!
# The run an owned frontend publishes

What the processes of a run wrote becomes one run's evidence, and that becomes
one result for each test, with a background result for what no test claimed.
Digests of names are a parameter.
-/

namespace Supercov.Owned

open Analysis (McdcVector)
open Merge (FrontendRunDeclaration)
open Ordered (setOf)
open Supercov.Runtime

/-- A 32-bit index, of a probe or of a decision. -/
abbrev Index := BitVec 32

structure PackedVector where
  decision : Index
  key : Word
  deriving DecidableEq, Repr

structure OwnedTestEvidence where
  name : String
  /-- How the test ended: `passed`, `failed` or `skipped`. -/
  status : String
  runner : String
  tags : List String
  /-- Whether nothing can say what the test reached. -/
  unattributed : Bool
  probes : List (Index × BitVec 32)
  vectors : List PackedVector
  deriving DecidableEq, Repr

def OwnedTestEvidence.empty : OwnedTestEvidence where
  name := ""
  status := ""
  runner := ""
  tags := []
  unattributed := false
  probes := []
  vectors := []

/-- What one process wrote, or all of a run's: the totals of every probe, a
record for each test, and the width and the distinct keys of each decision. -/
structure OwnedEvidence where
  global : List (BitVec 32)
  tests : List OwnedTestEvidence
  widths : List Nat
  decisionVectors : List (List Word)
  aligned : decisionVectors.length = widths.length

def OwnedEvidence.empty : OwnedEvidence where
  global := []
  tests := []
  widths := []
  decisionVectors := []
  aligned := rfl

def unpackVector (key : Word) (width : Nat) : McdcVector :=
  let evaluated := maskOf key
  let values := maskOf (key >>> packedValueShift)
  { values := (List.range width).map fun index =>
      -- A shift takes its distance modulo the width of the word.
      let bit := bit (index % 64)
      if evaluated &&& bit ≠ 0 then some (values &&& bit ≠ 0) else none
    outcome := (key >>> packedOutcomeShift) &&& 1 = 1 }

structure OwnedTestOutcome where
  name : String
  package : String
  file : Option String
  status : String
  runner : String
  attributed : Bool
  deriving DecidableEq, Repr

section Tables

variable {Item Other : Type}

def resize (items : List Item) (length : Nat) (fill : Item) : List Item :=
  items ++ List.replicate (length - items.length) fill

def updateEach (update : Item → Other → Item) : List Item → List Other → List Item
  | item :: items, other :: others => update item other :: updateEach update items others
  | items, _ => items

variable (update : Item → Other → Item)

@[simp]
theorem length_updateEach (items : List Item) (others : List Other) :
    (updateEach update items others).length = items.length := by
  induction items generalizing others with
  | nil => rfl
  | cons item items ih =>
    cases others with
    | nil => rfl
    | cons other others => simp [updateEach, ih]

@[simp]
theorem length_resize (items : List Item) (length : Nat) (fill : Item) :
    (resize items length fill).length = max items.length length := by
  rw [resize, List.length_append, List.length_replicate, Nat.add_comm, Nat.sub_add_eq_max,
    Nat.max_comm]

theorem getElem?_updateEach (items : List Item) (others : List Other) (index : Nat) :
    (updateEach update items others)[index]? =
      (items[index]?).map fun item => (others[index]?).elim item (update item) := by
  induction items generalizing others index with
  | nil => rfl
  | cons item items ih =>
    cases others with
    | nil => simp [updateEach]
    | cons other others =>
      cases index with
      | zero => rfl
      | succ index => simpa [updateEach] using ih others index

theorem getD_resize (items : List Item) (length index : Nat) (fill : Item) :
    (resize items length fill).getD index fill = items.getD index fill := by
  simp only [resize, List.getD_eq_getElem?_getD]
  rcases Nat.lt_or_ge index items.length with inside | past
  · rw [List.getElem?_append_left inside]
  · rw [List.getElem?_append_right past, List.getElem?_eq_none past, List.getElem?_replicate]
    split <;> rfl

theorem getD_updateEach_resize (items : List Item) (others : List Other) (fill : Item)
    (index : Nat) :
    (updateEach update (resize items others.length fill) others).getD index fill =
      (others[index]?).elim (items.getD index fill) (update (items.getD index fill)) := by
  have held := getD_resize items others.length index fill
  simp only [List.getD_eq_getElem?_getD] at held ⊢
  rw [getElem?_updateEach, ← held]
  cases found : (resize items others.length fill)[index]? with
  | some item =>
    rfl
  | none =>
    have past : others[index]? = none := by
      rw [List.getElem?_eq_none_iff, length_resize, max_le_iff] at found
      exact List.getElem?_eq_none found.2
    rw [past]
    rfl

end Tables

/-- `merged` with what one more process wrote. -/
def mergePart (merged part : OwnedEvidence) : OwnedEvidence where
  global := updateEach (· ||| ·) (resize merged.global part.global.length 0) part.global
  tests := merged.tests ++ part.tests
  widths := updateEach max (resize merged.widths part.widths.length 0) part.widths
  decisionVectors :=
    updateEach (fun seen keys => keys.foldl including seen)
      (resize merged.decisionVectors part.widths.length []) part.decisionVectors
  aligned := by simp [merged.aligned]

def mergeEvidence (parts : List OwnedEvidence) : OwnedEvidence := parts.foldl mergePart .empty

end Supercov.Owned
