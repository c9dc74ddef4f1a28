import Supercov.Go.Tree

/-!
# Jumps over what the instrumenter declares

Go lets no `goto` jump over a declaration in its label's block.  A range loop's flag is declared
only where the function has no `goto`; the flag of a switch with a `fallthrough` is declared
wherever the switch stands.
-/

namespace Supercov.Go

open PlacedTree (Place)

/-- The kinds that the grammar has in a list of statements and under a label, and nowhere else. -/
def Kind.isListed : Kind → Bool
  | .forStatement | .labeledStatement => true
  | kind => kind.isSwitch

def Kind.holdsStatements : Kind → Bool
  | .statementList | .labeledStatement => true
  | _ => false

mutual

/-- Loops, switches and labels stand where the grammar has statements. -/
def grammatical (parent : Kind) : Node → Bool
  | .node data children =>
    (!data.kind.isListed || parent.holdsStatements) && grammaticalAmong data.kind children

def grammaticalAmong (parent : Kind) : List Node → Bool
  | [] => true
  | child :: children => grammatical parent child && grammaticalAmong parent children

end

/-- What the grammar promises of a file's tree. -/
structure Grammatical (root : Node) : Prop where
  file : Node.kind root = .sourceFile
  listed : grammatical (.other "") root = true

theorem grammaticalAmong_iff {parent : Kind} {children : List Node} :
    grammaticalAmong parent children = true ↔ ∀ child ∈ children, grammatical parent child = true := by
  induction children with
  | nil => simp [grammaticalAmong]
  | cons child children ih => rw [grammaticalAmong, Bool.and_eq_true, ih, List.forall_mem_cons]

section Places

variable {root : Node}

theorem grammatical_of_subtree? {place : Place} {node : Node} {parent : Kind}
    (holds : grammatical parent root = true) (stands : root.subtree? place = some node) :
    ∃ parent, grammatical parent node = true := by
  induction place generalizing node with
  | nil =>
    cases stands
    exact ⟨parent, holds⟩
  | cons index above ih =>
    obtain ⟨⟨data, children⟩, stands, child⟩ := Option.bind_eq_some_iff.mp stands
    obtain ⟨outer, holds⟩ := ih stands
    rw [grammatical, Bool.and_eq_true, grammaticalAmong_iff] at holds
    exact ⟨data.kind, holds.2 node (List.mem_of_getElem? child)⟩

theorem parent_of_listed (grammar : Grammatical root) {place : Place} {node : Node}
    (stands : root.subtree? place = some node) (listed : (Node.kind node).isListed = true) :
    ∃ index above parent, place = index :: above ∧ root.subtree? above = some parent ∧
      (Node.kind parent).holdsStatements = true := by
  cases place with
  | nil =>
    cases stands
    rw [grammar.file] at listed
    cases listed
  | cons index above =>
    obtain ⟨⟨data, children⟩, stands', child⟩ := Option.bind_eq_some_iff.mp stands
    refine ⟨index, above, _, rfl, stands', ?_⟩
    obtain ⟨outer, holds⟩ := grammatical_of_subtree? grammar.listed stands'
    rw [grammatical, Bool.and_eq_true, grammaticalAmong_iff] at holds
    have own := holds.2 node (List.mem_of_getElem? child)
    obtain ⟨data', children'⟩ := node
    rw [grammatical, Bool.and_eq_true, Bool.or_eq_true] at own
    refine own.1.resolve_left fun unlisted => ?_
    rw [show data'.kind.isListed = true from listed] at unlisted
    cases unlisted

def listPlace (root : Node) (place : Place) : Option Place :=
  root.nearest (fun data => data.kind = .statementList) place

theorem isAt_of_subtree? {wanted : NodeData → Bool} {place : Place} {node : Node}
    (stands : root.subtree? place = some node) : root.isAt wanted place = wanted node.label := by
  rw [PlacedTree.isAt, stands, Option.any_some]

theorem functionPlace_of_listed (grammar : Grammatical root) {place : Place} {node : Node}
    (stands : root.subtree? place = some node) (listed : (Node.kind node).isListed = true) :
    ∃ list, listPlace root place = some list ∧
      functionPlace root place = functionPlace root list := by
  induction place generalizing node with
  | nil =>
    obtain ⟨index, above, parent, same, -⟩ := parent_of_listed grammar stands listed
    cases same
  | cons index above ih =>
    obtain ⟨index', above', parent, same, stands', holds⟩ := parent_of_listed grammar stands listed
    cases same
    have inList : listPlace root (index :: above) = listPlace root above := by
      refine PlacedTree.nearest_above ((isAt_of_subtree? stands).trans ?_)
      refine decide_eq_false fun same => ?_
      rw [show Node.kind node = _ from same] at listed
      cases listed
    have inFunction : functionPlace root (index :: above) = functionPlace root above := by
      refine PlacedTree.nearest_above ((isAt_of_subtree? stands).trans ?_)
      change ((Node.kind node).isFunction || decide (Node.kind node = .sourceFile)) = false
      cases kind : Node.kind node <;> rw [kind] at listed <;> first | rfl | cases listed
    rw [inList, inFunction]
    cases kind : Node.kind parent <;> rw [kind] at holds <;> try cases holds
    · exact ⟨above, PlacedTree.nearest_of_isAt ((isAt_of_subtree? stands').trans
        (decide_eq_true kind)), rfl⟩
    · exact ih stands' (by rw [kind]; rfl)

theorem flaggedStatement_listed (grammar : Grammatical root) {place : Place} {node : Node}
    (stands : root.subtree? place = some node) (listed : (Node.kind node).isListed = true) :
    ∃ statement, root.subtree? (flaggedStatement root place) = some statement ∧
      (Node.kind statement).isListed = true ∧
      functionPlace root (flaggedStatement root place) = functionPlace root place := by
  obtain ⟨index, above, parent, rfl, stands', holds⟩ := parent_of_listed grammar stands listed
  rw [flaggedStatement, isAt_of_subtree? stands']
  split
  · rename_i labeled
    have kind : Node.kind parent = .labeledStatement := of_decide_eq_true labeled
    refine ⟨parent, stands', by rw [kind]; rfl, ?_⟩
    refine (PlacedTree.nearest_above ((isAt_of_subtree? stands).trans ?_)).symm
    change ((Node.kind node).isFunction || decide (Node.kind node = .sourceFile)) = false
    cases kind : Node.kind node <;> rw [kind] at listed <;> first | rfl | cases listed
  · exact ⟨node, stands, listed, rfl⟩

end Places

section Law

variable (source : List UInt8) (root : Node)

def labelOf (node : Node) : Option (List UInt8) :=
  (Node.childOfKind node .labelName).map fun label => Node.text label source

/-- A `goto` and the label it names, both of one function. -/
structure JumpsTo (jump target : Place) (goto label : Node) : Prop where
  stands : root.subtree? jump = some goto
  ends : root.subtree? target = some label
  isGoto : Node.kind goto = .gotoStatement
  isLabel : Node.kind label = .labeledStatement
  named : labelOf source goto = labelOf source label
  function : functionPlace root jump = functionPlace root target

/-- A declaration put at a byte before a statement is one that the jump would pass. -/
def Passes (statement : Place) (offset : Nat) (target : Place) (goto label : Node) : Prop :=
  listPlace root statement = listPlace root target ∧ Node.endByte goto ≤ offset ∧
    offset ≤ Node.startByte label

/-- No jump passes a declaration that the instrumenter makes. -/
def KeepsGoto : Prop :=
  ∀ declared ∈ flagEdits root, ∀ jump target goto label,
    JumpsTo source root jump target goto label →
      ¬ Passes root declared.1 declared.2.offset target goto label

/-- No jump passes a switch one of whose clauses ends with a `fallthrough`, or its label. -/
def FallthroughsApart : Prop :=
  ∀ place ∈ walked [] root, ∀ node statement, root.subtree? place = some node →
    (Node.kind node).isSwitch = true →
    (∃ clause ∈ clausesOf node, (endingFallthrough clause).isSome) →
    root.subtree? (flaggedStatement root place) = some statement →
      ∀ jump target goto label, JumpsTo source root jump target goto label →
        ¬ Passes root (flaggedStatement root place) (Node.startByte statement) target goto label

variable {source root}

/-- The function of a jump has a `goto`. -/
theorem inFunctionWithGoto_of_jumpsTo (grammar : Grammatical root) {place jump target : Place}
    {goto label : Node} (jumps : JumpsTo source root jump target goto label)
    (same : functionPlace root place = functionPlace root target) :
    inFunctionWithGoto root place = true := by
  rw [inFunctionWithGoto, same, ← jumps.function]
  have held : (functionPlace root jump).isSome := by
    have ofFile : root.isAt (fun data => data.kind.isFunction || data.kind = .sourceFile) [] = true := by
      rw [isAt_of_subtree? (PlacedTree.subtree?_nil root)]
      exact Bool.or_eq_true_iff.mpr (.inr (decide_eq_true grammar.file))
    clear jumps same
    induction jump with
    | nil => rw [functionPlace, PlacedTree.nearest_of_isAt ofFile]; rfl
    | cons index above ih =>
      rw [functionPlace, PlacedTree.nearest]
      split
      · rfl
      · exact ih
  obtain ⟨function, found⟩ := Option.isSome_iff_exists.mp held
  obtain ⟨inner, rfl⟩ := PlacedTree.nearest_suffix found
  have stands := jumps.stands
  rw [PlacedTree.subtree?_append] at stands
  obtain ⟨node, at', below⟩ := Option.bind_eq_some_iff.mp stands
  rw [found, Option.bind_some, at', Option.any_some]
  exact PlacedTree.any_of_subtree? below
    (PlacedTree.any_of_label (decide_eq_true jumps.isGoto))

theorem mem_flagEdits {declared : Place × GoEdit} :
    declared ∈ flagEdits root ↔ ∃ place ∈ walked [] root,
      flagDeclaration root place = some declared :=
  List.mem_filterMap

/-- The flags of loops stand in no function with a jump, so that jumps stay legal exactly where
none passes a switch with a `fallthrough`. -/
theorem keepsGoto_iff (grammar : Grammatical root) :
    KeepsGoto source root ↔ FallthroughsApart source root := by
  constructor
  · intro keeps place among node statement stands switch falls before
    refine keeps (flaggedStatement root place,
      { offset := Node.startByte statement, rank := 90
        text := "var " ++ flagName "_scvFell" node ++ " bool; " })
      (mem_flagEdits.mpr ⟨place, among, ?_⟩)
    have other : Node.kind node ≠ .forStatement := fun same => by rw [same] at switch; cases switch
    have any : (clausesOf node).any (fun clause => (endingFallthrough clause).isSome) = true :=
      List.any_eq_true.mpr falls
    simp only [flagDeclaration, stands, Option.bind_eq_bind, Option.bind_some, if_neg other, switch,
      any, if_true, before]
    rfl
  · intro apart declared member jump target goto label jumps passes
    obtain ⟨place, among, made⟩ := mem_flagEdits.mp member
    obtain ⟨node, stands, made⟩ := Option.bind_eq_some_iff.mp made
    dsimp only at made
    split at made
    · rename_i loop
      have listed : (Node.kind node).isListed = true := by rw [loop]; rfl
      obtain ⟨statement, before, listed', within⟩ := flaggedStatement_listed grammar stands listed
      split at made
      · rename_i free
        rw [before] at made
        cases made
        obtain ⟨list, inList, inFunction⟩ := functionPlace_of_listed grammar before listed'
        obtain ⟨list', inList', inFunction'⟩ :=
          functionPlace_of_listed grammar jumps.ends (by rw [jumps.isLabel]; rfl)
        cases inList.symm.trans (passes.1.trans inList')
        have has := inFunctionWithGoto_of_jumpsTo grammar jumps
          (within.symm.trans (inFunction.trans inFunction'.symm))
        simp [has] at free
      · cases made
    · split at made
      · rename_i switch
        split at made
        · rename_i falls
          obtain ⟨statement, before, made⟩ := Option.bind_eq_some_iff.mp made
          cases made
          exact apart place among node statement stands switch (List.any_eq_true.mp falls) before
            jump target goto label jumps passes
        · cases made
      · cases made

end Law

section Skipped

def part (kind : Kind) (startByte endByte : Nat) (children : List Node) : Node :=
  .node { kind, field := "", named := true, startByte, endByte } children

/-- A function that jumps over a switch, to a label at its end. -/
def skippedText : String :=
  "package p\n\nfunc f(n int) \x7b\n\tif n == 0 \x7b\n\t\tgoto done\n\t\x7d\n\tswitch n \x7b\n" ++
    "\tcase 1:\n\t\tfallthrough\n\tcase 2:\n\t\x7d\ndone:\n\x7d\n"

/-- One clause of the switch falls through into the other. -/
def skippedSwitch : Node :=
  part .expressionSwitchStatement 56 101
    [part (.other "identifier") 63 64 [],
      part .expressionCase 68 89
        [part (.other "expression_list") 73 74 [],
          part .statementList 78 89 [part .fallthroughStatement 78 89 []]],
      part .expressionCase 91 98 [part (.other "expression_list") 96 97 []]]

def skipped : Node :=
  part .sourceFile 0 110
    [part (.other "package_clause") 0 9 [part (.other "package_identifier") 8 9 []],
      part .functionDeclaration 11 109
        [part (.other "identifier") 16 17 [],
          part (.other "parameter_list") 17 24 [],
          part .block 25 109
            [part .statementList 28 107
              [part (.other "if_statement") 28 54
                [part (.other "binary_expression") 31 37 [],
                  part .block 38 54
                    [part .statementList 42 51
                      [part .gotoStatement 42 51 [part .labelName 47 51 []]]]],
                skippedSwitch,
                part .labeledStatement 102 107 [part .labelName 102 106 []]]]]]

theorem skipped_grammatical : Grammatical skipped where
  file := rfl
  listed := by decide +kernel

theorem keepsGoto_iff_skipped :
    KeepsGoto skippedText.toUTF8.toList skipped ↔
      FallthroughsApart skippedText.toUTF8.toList skipped :=
  keepsGoto_iff skipped_grammatical

/-- The flag of the switch stands between the jump and its label. -/
theorem not_keepsGoto_skipped :
    (flagEdits skipped).map Prod.snd =
      [{ offset := 56, rank := 90, text := "var _scvFell56 bool; " }] ∧
    ¬ KeepsGoto skippedText.toUTF8.toList skipped := by
  refine ⟨by decide +kernel, fun keeps => ?_⟩
  refine keeps ([1, 0, 2, 1], { offset := 56, rank := 90, text := "var _scvFell56 bool; " })
    (by decide +kernel) [0, 0, 1, 0, 0, 2, 1] [2, 0, 2, 1]
    (part .gotoStatement 42 51 [part .labelName 47 51 []])
    (part .labeledStatement 102 107 [part .labelName 102 106 []])
    ⟨rfl, rfl, rfl, rfl, by decide +kernel, by decide +kernel⟩ ⟨by decide +kernel, by decide, by decide⟩

end Skipped

end Supercov.Go
