import Supercov.Affected.Changes

/-!
# What a change is

A declaration is changed or removed where the one that stands for it in the later view is
another text, or is gone.  The comparison of two views by path tells this wherever no two
declarations share a path.
-/

namespace Supercov.Affected

open Supercov.Units

section Views

variable {Digest : Type}

/-- The declaration that stands in another view for the one at an index: of those under its
path, the one with as many before it. -/
def counterpart (old new : Code Digest) (index : Nat) : Option (CodeUnit Digest) := do
  let unit ← old.units[index]?
  let earlier := (old.units.take index).countP (·.path = unit.path)
  (new.units.filter (·.path = unit.path))[earlier]?

/-- The declaration at an index was changed or removed. -/
def Moved (old new : Code Digest) (index : Nat) : Prop :=
  ∃ unit ∈ old.units[index]?, ∀ unit' ∈ counterpart old new index, unit'.digest ≠ unit.digest

def SamePaths (old new : Code Digest) : Prop :=
  old.units.map (·.path) = new.units.map (·.path)

/-- A unit that can only be used by running it, and that holds a probe of its own. -/
def ProbedCode (old : Code Digest) (probed : List Nat) (index : Nat) : Prop :=
  ∃ unit ∈ old.units[index]?, unit.isCode ∧ index ∈ probed

/-- Nothing moved but bodies of probed code: the declarations are the same, in the same
order. -/
structure BodiesOnly (old new : Code Digest) (probed : List Nat) : Prop where
  paths : SamePaths old new
  structural : old.structural = new.structural
  bodies : ∀ index, Moved old new index → ProbedCode old probed index

end Views

section Files

variable {Digest : Type}

/-- A unit of a captured file was changed or removed: with the file, by any change where no
parser reads both sides, or as a declaration of it, unless no program can tell. -/
def UnitMoved (before : Fingerprint Digest) (after : Option (Fingerprint Digest)) (index : Nat) :
    Prop :=
  match after with
  | none => True
  | some after =>
    before.sha256 ≠ after.sha256 ∧
      match before.code, after.code with
      | some old, some new => old.semantic ≠ new.semantic ∧ Moved old new index
      | _, _ => True

/-- The change of a captured file, if any, is confined to bodies of probed code. -/
def Confined (before : Fingerprint Digest) (after : Option (Fingerprint Digest))
    (probed : Option (List Nat)) : Prop :=
  match after with
  | none => False
  | some after =>
    before.sha256 = after.sha256 ∨
      match before.code, after.code with
      | some old, some new =>
        old.semantic = new.semantic ∨ ∃ probed' ∈ probed, BodiesOnly old new probed'
      | _, _ => False

end Files

section Compared

variable {Digest : Type} {old new : Code Digest} {index : Nat}

/-- A declaration moved, and the last under its path in the later view has its old text. -/
def Hidden (old new : Code Digest) (index : Nat) : Prop :=
  Moved old new index ∧
    ∃ unit ∈ old.units[index]?, ∃ unit' ∈ new.byPath unit.path, unit'.digest = unit.digest

theorem mem_indices {code : Code Digest} {condition : CodeUnit Digest → Bool} :
    index ∈ code.indices condition ↔ ∃ unit ∈ code.units[index]?, condition unit = true := by
  unfold Code.indices
  constructor
  · intro member
    obtain ⟨⟨unit, index'⟩, among, rfl⟩ := List.mem_map.mp member
    obtain ⟨among, holds⟩ := List.mem_filter.mp among
    exact ⟨unit, by simpa [List.mem_zipIdx_iff_getElem?] using among, holds⟩
  · rintro ⟨unit, found, holds⟩
    refine List.mem_map.mpr ⟨(unit, index), List.mem_filter.mpr ⟨?_, holds⟩, rfl⟩
    simpa [List.mem_zipIdx_iff_getElem?] using found

theorem byPath_eq_none_iff {code : Code Digest} {path : Text} :
    code.byPath path = none ↔ ∀ unit ∈ code.units, unit.path ≠ path := by
  unfold Code.byPath
  simp [List.find?_eq_none]

end Compared

section Told

variable {Digest : Type} [DecidableEq Digest] {old new : Code Digest} {index : Nat}

theorem mem_changed : index ∈ (old.diff new).changed ↔
    ∃ unit ∈ old.units[index]?, ∃ unit' ∈ new.byPath unit.path, unit'.digest ≠ unit.digest := by
  simp only [Code.diff, mem_indices, Option.any_eq_true, decide_eq_true_eq]
  rfl

theorem mem_removed : index ∈ (old.diff new).removed ↔
    ∃ unit ∈ old.units[index]?, new.byPath unit.path = none := by
  simp only [Code.diff, mem_indices, Option.isNone_iff_eq_none]

theorem moved_of_removed (removed : index ∈ (old.diff new).removed) : Moved old new index := by
  obtain ⟨unit, found, gone⟩ := mem_removed.mp removed
  refine ⟨unit, found, fun unit' member => ?_⟩
  obtain ⟨unit'', found', stands⟩ := Option.bind_eq_some_iff.mp member
  cases found.symm.trans found'
  have among := List.mem_filter.mp (List.mem_of_getElem? stands)
  exact absurd (by simpa using among.2) (byPath_eq_none_iff.mp gone unit' among.1)

theorem hidden_of_moved (moved : Moved old new index) (unchanged : index ∉ (old.diff new).changed)
    (kept : index ∉ (old.diff new).removed) : Hidden old new index := by
  refine ⟨moved, ?_⟩
  obtain ⟨unit, found, -⟩ := moved
  refine ⟨unit, found, ?_⟩
  cases stands : new.byPath unit.path with
  | none => exact absurd (mem_removed.mpr ⟨unit, found, stands⟩) kept
  | some unit' =>
    refine ⟨unit', rfl, ?_⟩
    by_contra other
    exact unchanged (mem_changed.mpr ⟨unit, found, unit', stands, other⟩)

theorem mem_narrow {probed : List Nat} (narrow : (old.diff new).narrow old probed) :
    old.structural = new.structural ∧ (old.diff new).removed = [] ∧
      ∀ index ∈ (old.diff new).changed, ProbedCode old probed index := by
  unfold Diff.narrow at narrow
  simp only [Bool.and_eq_true, Bool.not_eq_eq_eq_not, Bool.not_true, List.isEmpty_iff] at narrow
  obtain ⟨⟨⟨structural, -⟩, removed⟩, changed⟩ := narrow
  refine ⟨by simpa [Code.diff] using structural, removed, fun index member => ?_⟩
  have holds := List.all_eq_true.mp changed index member
  rw [Bool.and_eq_true, List.contains_iff_mem] at holds
  obtain ⟨unit, found, code⟩ := (Option.any_eq_true _ _).mp holds.1
  exact ⟨unit, found, code, holds.2⟩

theorem bodiesOnly_iff {probed : List Nat} (narrow : (old.diff new).narrow old probed) :
    BodiesOnly old new probed ↔
      SamePaths old new ∧ ∀ index, Hidden old new index → ProbedCode old probed index := by
  obtain ⟨structural, removed, changed⟩ := mem_narrow narrow
  constructor
  · intro only
    exact ⟨only.paths, fun index hidden => only.bodies index hidden.1⟩
  · rintro ⟨paths, hidden⟩
    refine ⟨paths, structural, fun index moved => ?_⟩
    by_cases told : index ∈ (old.diff new).changed
    · exact changed index told
    · exact hidden index (hidden_of_moved moved told (by simp [removed]))

end Told

end Supercov.Affected
