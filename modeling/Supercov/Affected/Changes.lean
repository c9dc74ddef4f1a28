import Mathlib.Logic.Relation
import Supercov.Units.Changes

/-!
# What moved between a run and a checkout

A run keeps a fingerprint of every file it captured.  A later checkout is judged file by
file and, where a parser reads the file on both sides, declaration by declaration.
-/

namespace Supercov.Affected

open Supercov.Units

abbrev File := Text

structure Fingerprint (Digest : Type) where
  sha256 : Digest
  /-- Absent for a file no parser reads. -/
  code : Option (Code Digest)
  deriving DecidableEq

/-- How one captured file moved between two runs. -/
inductive FileChange (Digest : Type) where
  | same
  /-- Only comments changed: no program can tell. -/
  | commentsOnly
  /-- Not among the previous run's inputs. -/
  | added
  | removed
  /-- No parser reads the file on one side or the other; its bytes moved. -/
  | bytes
  | code (before after : Code Digest) (diff : Diff) (narrow : Bool)

section Judged

variable {Digest : Type} [DecidableEq Digest]

def Fingerprint.sameBytes (fingerprint other : Fingerprint Digest) : Bool :=
  fingerprint.sha256 = other.sha256

def fileChange (before after : Option (Fingerprint Digest)) (probed : Option (List Nat)) :
    Option (FileChange Digest) :=
  match before, after with
  | none, after => after.map fun _ => .added
  | some _, none => some .removed
  | some before, some after =>
    if before.sameBytes after then some .same
    else
      match before.code, after.code with
      | some old, some new =>
        if old.semantic = new.semantic then some .commentsOnly
        else
          let diff := old.diff new
          some (.code old new diff (probed.any fun probed => diff.narrow old probed))
      | _, _ => some .bytes

end Judged

section Described

variable {Digest : Type}

def describeUnit (unit : CodeUnit Digest) : Text :=
  if unit.path = [] then utf8 "top level"
  else unit.path ++ utf8 " (line " ++ decimal unit.line ++ utf8 ")"

def named (units : List (CodeUnit Digest)) : Text :=
  let names := units.map describeUnit
  if names.length = 0 then utf8 "nothing"
  else if names.length ≤ 4 then (utf8 ", ").intercalate names
  else
    (utf8 ", ").intercalate (names.take 3) ++ utf8 ", and " ++ decimal (names.length - 3) ++
      utf8 " more"

def pick (code : Code Digest) (indices : List Nat) : List (CodeUnit Digest) :=
  indices.filterMap (code.units[·]?)

/-- Every unit that moved, by name: what changed, what arrived, what went. -/
def describe (before after : Code Digest) (diff : Diff) : Text :=
  let parts :=
    (if diff.changed = [] then [] else [named (pick before diff.changed)]) ++
    (if diff.added = [] then [] else [utf8 "added " ++ named (pick after diff.added)]) ++
    (if diff.removed = [] then [] else [utf8 "removed " ++ named (pick before diff.removed)])
  if parts = [] then utf8 "declarations" else (utf8 "; ").intercalate parts

end Described

section Reach

variable {Digest : Type}

/-- A unit and everything it sits inside, innermost first.  Where a parent is no unit the
walk stops the program, and where parents go round it does not end. -/
def ancestors (code : Code Digest) : Nat → Nat → Option (List Nat)
  | 0, _ => none
  | fuel + 1, index => do
    let unit ← code.units[index]?
    match unit.parent with
    | none => return [index]
    | some parent =>
      let outer ← ancestors code fuel parent
      return index :: outer

def reachOf (code : Option (Code Digest)) (unit : Nat) : Option (List Nat) :=
  match code with
  | some code =>
    if unit < code.units.length then ancestors code code.units.length unit else some [unit]
  | none => some [unit]

/-- What was run, and everything it sits inside. -/
def reach (code : Option (Code Digest)) (units : List Nat) : Option (List Nat) := do
  let each ← units.mapM (reachOf code)
  return each.flatten

def Within (code : Option (Code Digest)) : Nat → Nat → Prop :=
  Relation.ReflTransGen fun unit holder =>
    ∃ code' ∈ code, ∃ unit' ∈ code'.units[unit]?, unit'.parent = some holder

theorem mem_ancestors {code : Code Digest} {fuel index holder : Nat} {outer : List Nat}
    (walked : ancestors code fuel index = some outer) :
    holder ∈ outer ↔ Within (some code) index holder := by
  induction fuel generalizing index outer with
  | zero => cases walked
  | succ fuel ih =>
    obtain ⟨unit, found, walked⟩ := Option.bind_eq_some_iff.mp walked
    unfold Within
    rw [Relation.ReflTransGen.cases_head_iff]
    cases parent : unit.parent with
    | none =>
      rw [parent] at walked
      cases walked
      constructor
      · intro own
        exact .inl (List.mem_singleton.mp own).symm
      · rintro (rfl | ⟨next, ⟨_, ⟨⟩, unit', found', parent'⟩, -⟩)
        · exact List.mem_singleton_self _
        · cases found.symm.trans found'
          cases parent.symm.trans parent'
    | some next =>
      rw [parent] at walked
      obtain ⟨rest, onward, same⟩ := Option.bind_eq_some_iff.mp walked
      cases same
      rw [List.mem_cons, ih onward, eq_comm]
      constructor
      · rintro (rfl | within)
        · exact .inl rfl
        · exact .inr ⟨next, ⟨code, rfl, unit, found, parent⟩, within⟩
      · rintro (rfl | ⟨next', ⟨_, ⟨⟩, unit', found', parent'⟩, within⟩)
        · exact .inl rfl
        · cases found.symm.trans found'
          cases parent.symm.trans parent'
          exact .inr within

theorem within_iff_eq {code : Option (Code Digest)} {unit holder : Nat}
    (absent : ∀ code' ∈ code, code'.units[unit]? = none) : Within code unit holder ↔ unit = holder := by
  unfold Within
  rw [Relation.ReflTransGen.cases_head_iff]
  constructor
  · rintro (same | ⟨next, ⟨code', member, unit', found, -⟩, -⟩)
    · exact same
    · cases (absent code' member).symm.trans found
  · exact .inl

theorem exists_of_mapM {Item Made : Type} {make : Item → Option Made} {items : List Item}
    {made : List Made} (all : items.mapM make = some made) :
    (∀ item ∈ items, ∃ result ∈ made, make item = some result) ∧
      ∀ result ∈ made, ∃ item ∈ items, make item = some result := by
  induction items generalizing made with
  | nil =>
    cases all
    simp
  | cons item items ih =>
    rw [List.mapM_cons] at all
    obtain ⟨first, own, all⟩ := Option.bind_eq_some_iff.mp all
    obtain ⟨rest, others, same⟩ := Option.bind_eq_some_iff.mp all
    cases same
    obtain ⟨forward, backward⟩ := ih others
    constructor
    · intro item' member
      rcases List.mem_cons.mp member with rfl | member
      · exact ⟨first, List.mem_cons_self .., own⟩
      · obtain ⟨result, among, own'⟩ := forward item' member
        exact ⟨result, List.mem_cons_of_mem _ among, own'⟩
    · intro result member
      rcases List.mem_cons.mp member with rfl | member
      · exact ⟨item, List.mem_cons_self .., own⟩
      · obtain ⟨item', among, own'⟩ := backward result member
        exact ⟨item', List.mem_cons_of_mem _ among, own'⟩

theorem mem_reachOf {code : Option (Code Digest)} {unit holder : Nat} {outer : List Nat}
    (walked : reachOf code unit = some outer) : holder ∈ outer ↔ Within code unit holder := by
  unfold reachOf at walked
  cases code with
  | none =>
    cases walked
    rw [within_iff_eq (by simp), List.mem_singleton, eq_comm]
  | some code =>
    dsimp only at walked
    split at walked
    · exact mem_ancestors walked
    · next beyond =>
      cases walked
      rw [within_iff_eq (by simpa using beyond), List.mem_singleton, eq_comm]

theorem mem_reach {code : Option (Code Digest)} {units ran : List Nat} {holder : Nat}
    (reached : reach code units = some ran) :
    holder ∈ ran ↔ ∃ unit ∈ units, Within code unit holder := by
  obtain ⟨each, walked, same⟩ := Option.bind_eq_some_iff.mp reached
  cases same
  obtain ⟨forward, backward⟩ := exists_of_mapM walked
  rw [List.mem_flatten]
  constructor
  · rintro ⟨outer, among, member⟩
    obtain ⟨unit, listed, made⟩ := backward outer among
    exact ⟨unit, listed, (mem_reachOf made).mp member⟩
  · rintro ⟨unit, listed, within⟩
    obtain ⟨outer, among, made⟩ := forward unit listed
    exact ⟨outer, among, (mem_reachOf made).mpr within⟩

end Reach

end Supercov.Affected
