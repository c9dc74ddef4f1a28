import Supercov.Go.Jumps
import Supercov.Go.Selected

/-!
# Clauses in the rewritten text and in its runs

Where every `fallthrough` is the last that is named in its clause, no clause without statements
touches the brace of a switch that gets a `default`, and no two alternatives of a switch have one
label, each probe stands in its clause and a run records the alternatives it selects.
-/

open scoped List

namespace Supercov.Go

open PlacedTree (Place)

section Law

variable (source : List UInt8) (runtime : String) (probe : Place → Nat → Nat) (root : Node)

/-- What the instrumenter collects for a file: the edits of each switch together, and after them
none that would stand right of a `default` at one place with it. -/
structure Collected (edits : List GoEdit) : Prop where
  within : ∀ edit ∈ edits, edit.offset ≤ source.length
  switches : ∀ place ∈ walked [] root, ∃ before after,
    edits = before ++ (switchEditsAt runtime probe root place).map SwitchEdit.edit ++ after ∧
      ∀ edit ∈ after, edit.rank ≤ 100

/-- A place in the body of a clause: behind what is matched and before its statements. -/
structure Clause.InBody (clause : Clause) (offset : Nat) : Prop where
  head : ∀ child ∈ clause.node.children.takeWhile (fun child => Node.kind child ≠ .statementList),
    Node.endByte child ≤ offset
  body : ∀ child ∈ clause.node.children.dropWhile (fun child => Node.kind child ≠ .statementList),
    offset ≤ Node.startByte child
  inside : Node.startByte clause.node ≤ offset ∧ offset ≤ Node.endByte clause.node

/-- In the text the probe of each clause stands in its body, and an added `default` behind all the
clauses, their probes and all else that is inserted in them. -/
def ClausesStand (edits : List GoEdit) : Prop :=
  ∀ place node, root.subtree? place = some node → (Node.kind node).isSwitch = true →
    (∀ (number : Nat) (clause : Clause), (clausesAt place node)[number]? = some clause →
      ∃ edit, edit = clauseEdit runtime probe place node
          (fallenInto (clausesAt place node) number) clause number ∧
        clause.InBody edit.edit.offset ∧ Stands source edits edit.edit) ∧
    (needsDefault node = true → ∃ edit, edit = defaultEdit runtime probe place node ∧
      Stands source edits edit.edit ∧ edit.edit.offset < Node.endByte node ∧
      (∀ clause ∈ clausesAt place node, Node.endByte clause.node ≤ edit.edit.offset) ∧
      (∀ (number : Nat) (clause : Clause), (clausesAt place node)[number]? = some clause →
        StandBoth source edits (clauseEdit runtime probe place node
          (fallenInto (clausesAt place node) number) clause number).edit edit.edit) ∧
      ∃ before after, edits = before ++ (switchEditsAt runtime probe root place).map SwitchEdit.edit
          ++ after ∧
        ∀ inner ∈ after, inner.offset ≤ edit.edit.offset → StandBoth source edits inner edit.edit)

def identity (alternative : Alternative) : Option (Place × List UInt8) := do
  let node ← root.subtree? alternative.1
  let label ← (labels source node)[alternative.2]?
  return (alternative.1, label)

/-- A run of a function of the file as it is. -/
def RunsAsWritten (meaning : Meaning) (function : Place) (memory : meaning.Memory)
    (outcome : Outcome meaning.Exit) (memory' : meaning.Memory) (selected : List Alternative) : Prop :=
  ∃ flags recorded, Runs root .none meaning (.auto function (meaning.called function)) quiet memory
    outcome flags memory' selected recorded

def RunsRewritten (meaning : Meaning) (function : Place) (memory : meaning.Memory)
    (outcome : Outcome meaning.Exit) (memory' : meaning.Memory)
    (selected recorded : List Alternative) : Prop :=
  ∃ flags, Runs root (insertionsOf (allSwitchEdits runtime probe root)) meaning
    (.auto function (meaning.called function)) quiet memory outcome flags memory' selected recorded

/-- A function runs as it does as written, and an alternative is recorded exactly where it is
selected. -/
def RecordsSelected : Prop :=
  ∀ (meaning : Meaning) (function : Place) (kind : Kind), kindAt root function = some kind →
    kind.isFunction = true → ∀ memory outcome memory' selected,
      (RunsAsWritten root meaning function memory outcome memory' selected ↔
        ∃ recorded, RunsRewritten runtime probe root meaning function memory outcome memory' selected
          recorded) ∧
      ∀ recorded, RunsRewritten runtime probe root meaning function memory outcome memory' selected
          recorded →
        ∀ place node number label, root.subtree? place = some node →
          (Node.kind node).isSwitch = true → (labels source node)[number]? = some label →
            (some (place, label) ∈ recorded.map (identity source root) ↔ (place, number) ∈ selected)

/-- No clause without statements ends where the brace of a switch that gets a `default` stands. -/
def ClausesApart : Prop :=
  ∀ place node, root.subtree? place = some node → (Node.kind node).isSwitch = true →
    needsDefault node = true → ∀ clause ∈ clausesAt place node, clause.statements = none →
      Node.endByte clause.node ≠ Node.endByte node - 1

def LabelsApart : Prop :=
  ∀ place node, root.subtree? place = some node → (Node.kind node).isSwitch = true →
    (labels source node).Nodup

end Law

section Order

theorem inOrder_append {limit start : Nat} {before after : List Node}
    (ordered : inOrder limit start (before ++ after) = true) :
    (∀ child ∈ before, start ≤ Node.startByte child ∧ Node.startByte child ≤ Node.endByte child ∧
      Node.endByte child ≤ limit ∧ ∀ other ∈ after, Node.endByte child ≤ Node.startByte other) ∧
    (∀ child ∈ after, start ≤ Node.startByte child ∧ Node.startByte child ≤ Node.endByte child ∧
      Node.endByte child ≤ limit) ∧ start ≤ limit := by
  induction before generalizing start with
  | nil =>
    refine ⟨nofun, ?_⟩
    rw [List.nil_append] at ordered
    induction after generalizing start with
    | nil => exact ⟨nofun, of_decide_eq_true ordered⟩
    | cons child after ih =>
      simp only [inOrder, Bool.and_eq_true, decide_eq_true_eq] at ordered
      obtain ⟨⟨first, own⟩, ordered⟩ := ordered
      obtain ⟨later, last⟩ := ih ordered
      refine ⟨List.forall_mem_cons.mpr ⟨⟨first, own, last⟩, fun other member => ?_⟩, by omega⟩
      have ⟨after, rest⟩ := later other member
      exact ⟨by omega, rest⟩
  | cons child before ih =>
    simp only [List.cons_append, inOrder, Bool.and_eq_true, decide_eq_true_eq] at ordered
    obtain ⟨⟨first, own⟩, ordered⟩ := ordered
    obtain ⟨early, late, last⟩ := ih ordered
    refine ⟨List.forall_mem_cons.mpr ⟨⟨first, own, last, fun other member => (late other member).1⟩,
      fun other member => ?_⟩, fun other member => ?_, by omega⟩
    · have ⟨after, rest⟩ := early other member
      exact ⟨by omega, rest⟩
    · have ⟨after, rest⟩ := late other member
      exact ⟨by omega, rest⟩

variable {root : Node} {place : Place} {node : Node} {clause : Clause}

theorem Parsed.inOrder {found : Node} (parsed : Parsed root)
    (stands : root.subtree? place = some found) :
    Go.inOrder (Node.endByte found) (Node.startByte found) found.children = true := by
  have own := parsed.at stands
  simp only [isParsed, Bool.and_eq_true] at own
  exact own.1.1.2

theorem Parsed.clause_end (parsed : Parsed root) (stands : root.subtree? place = some node)
    (isSwitch : (Node.kind node).isSwitch = true) (among : clause ∈ clausesAt place node) :
    Node.startByte clause.node ≤ Node.endByte clause.node ∧
      Node.endByte clause.node ≤ Node.endByte node - 1 ∧ 0 < Node.endByte node := by
  have own := parsed.at stands
  simp only [isParsed, Bool.and_eq_true, Bool.or_eq_true] at own
  have brace := own.2.resolve_left fun other => by
    rw [show node.label.kind.isSwitch = true from isSwitch] at other
    cases other
  obtain ⟨index, child, isCase, -⟩ := mem_clausesAt.mp among
  cases last : node.children.getLast? with
  | none =>
    rw [List.getLast?_eq_none_iff.mp last] at child
    cases child
  | some close =>
    rw [last, Option.any_some] at brace
    simp only [Bool.and_eq_true, Bool.not_eq_true', decide_eq_true_eq] at brace
    obtain ⟨before, parted⟩ := List.getLast?_eq_some_iff.mp last
    have ordered := parsed.inOrder stands
    rw [parted] at ordered
    have member := List.mem_of_getElem? child
    rw [parted] at member
    obtain ⟨early, late, -⟩ := inOrder_append ordered
    obtain ⟨-, own, -, after⟩ := early clause.node ((List.mem_append.mp member).resolve_right fun other => by
      rw [List.mem_singleton.mp other, brace.1.1] at isCase
      cases isCase)
    have ends : Node.endByte close = Node.endByte node := brace.2
    have byte : Node.startByte close + 1 = Node.endByte close := brace.1.2
    have first := after close List.mem_cons_self
    exact ⟨own, by omega, by omega⟩

theorem find?_eq_head? {α : Type*} (wanted : α → Bool) (list : List α) :
    list.find? wanted = (list.dropWhile fun one => !wanted one).head? := by
  induction list with
  | nil => rfl
  | cons head list ih =>
    rw [List.find?_cons, List.dropWhile_cons]
    cases wanted head with
    | true => rfl
    | false => exact ih

theorem Parsed.inBody (parsed : Parsed root) (stands : root.subtree? place = some node)
    (isSwitch : (Node.kind node).isSwitch = true) (among : clause ∈ clausesAt place node) :
    clause.InBody clause.probeOffset ∧
      (clause.statements ≠ none → clause.probeOffset < Node.endByte clause.node) := by
  have stands' := clausesAt_subtree? stands among
  have ordered := parsed.inOrder stands'
  obtain ⟨span, -⟩ := parsed.clause_end stands isSwitch among
  rw [← List.takeWhile_append_dropWhile (p := fun child : Node => child.kind ≠ .statementList)
    (l := clause.node.children)] at ordered
  obtain ⟨early, late, -⟩ := inOrder_append ordered
  have found : clause.statements.map Prod.snd =
      (clause.node.children.dropWhile fun child : Node => child.kind ≠ .statementList).head? := by
    have same := find?_eq_head? (fun child : Node => decide (child.kind = .statementList))
      clause.node.children
    rw [Clause.statements, Option.map_map]
    nth_rewrite 1 [← List.zipIdx_map_fst 0 clause.node.children, List.find?_map] at same
    simp only [decide_not]
    exact same
  cases holds : clause.statements with
  | none =>
    rw [holds] at found
    have none := List.head?_eq_none_iff.mp found.symm
    rw [Clause.probeOffset, holds]
    refine ⟨⟨fun child member => (early child member).2.2.1, fun child member => ?_, span,
      Nat.le_refl _⟩, fun other => absurd rfl other⟩
    rw [none] at member
    cases member
  | some body =>
    obtain ⟨index, child, kind, at'⟩ := clause.statements_eq_some holds
    rw [holds, Option.map_some] at found
    obtain ⟨rest, parted⟩ := List.head?_eq_some_iff.mp found.symm
    have offset : clause.probeOffset = Node.startByte body.2 := by rw [Clause.probeOffset, holds]
    have here : body.2 ∈ clause.node.children.dropWhile fun child : Node =>
        child.kind ≠ .statementList := parted ▸ List.mem_cons_self
    obtain ⟨after, own, before⟩ := late body.2 here
    have placed : root.subtree? body.1 = some body.2 := by
      rw [at', PlacedTree.subtree?_cons, stands']
      exact child
    have spans := parsed.at placed
    simp only [isParsed, Bool.and_eq_true, Bool.or_eq_true, decide_eq_true_eq] at spans
    have some : Node.startByte body.2 < Node.endByte body.2 :=
      (spans.1.2.resolve_left fun other => other kind).1
    rw [offset]
    refine ⟨⟨fun child member => (early child member).2.2.2 body.2 here, fun child member => ?_,
      after, by omega⟩, fun _ => by omega⟩
    rw [parted] at member ordered
    rcases List.mem_cons.mp member with rfl | member
    · exact Nat.le_refl _
    · rw [← List.singleton_append, ← List.append_assoc] at ordered
      obtain ⟨early', -, -⟩ := inOrder_append ordered
      obtain ⟨-, -, -, first⟩ := early' body.2 (List.mem_append_right _ List.mem_cons_self)
      exact Nat.le_trans own (first child member)

end Order

section Results

variable {source : List UInt8} {runtime : String} {probe : Place → Nat → Nat} {root : Node}

theorem not_comesFirst {left right : GoEdit} (before : left.offset < right.offset) :
    ¬ Woven.ComesFirst GoEdit.offset GoEdit.rank left right := by
  unfold Woven.ComesFirst
  omega

theorem clauseEdit_mem {place : Place} {node : Node} {number : Nat} {clause : Clause}
    (numbered : (clausesAt place node)[number]? = some clause) :
    clauseEdit runtime probe place node (fallenInto (clausesAt place node) number) clause number ∈
      switchEdits runtime probe root place node := by
  simp only [switchEdits, List.mem_append, List.mem_map]
  exact .inl (.inr ⟨(clause, number), List.mk_mem_zipIdx_iff_getElem?.mpr numbered, rfl⟩)

theorem switchEditsAt_eq {place : Place} {node : Node} (stands : root.subtree? place = some node)
    (isSwitch : (Node.kind node).isSwitch = true) :
    switchEditsAt runtime probe root place = switchEdits runtime probe root place node := by
  rw [switchEditsAt, stands]
  exact if_pos isSwitch

/-- Where no empty clause touches the brace, probes and `default` stand where they belong. -/
theorem clausesStand (parsed : Parsed root) (apart : ClausesApart root) {edits : List GoEdit}
    (collected : Collected source runtime probe root edits) :
    ClausesStand source runtime probe root edits := by
  intro place node stands isSwitch
  obtain ⟨before, after, parted, ranks⟩ :=
    collected.switches place (parsed.switch_walked stands isSwitch)
  have own {edit : SwitchEdit} (member : edit ∈ switchEdits runtime probe root place node) :
      edit.edit ∈ edits := by
    rw [parted, switchEditsAt_eq stands isSwitch]
    exact List.mem_append_left _ (List.mem_append_right _ (List.mem_map_of_mem member))
  refine ⟨fun number clause numbered => ?_, fun needed => ?_⟩
  · exact ⟨_, rfl, (parsed.inBody stands isSwitch (List.mem_of_getElem? numbered)).1,
      stands_of_mem collected.within (own (clauseEdit_mem numbered))⟩
  · have among : defaultEdit runtime probe place node ∈ switchEdits runtime probe root place node := by
      rw [switchEdits, if_pos needed]
      exact List.mem_append_right _ List.mem_cons_self
    refine ⟨_, rfl, stands_of_mem collected.within (own among), ?_, fun clause member => ?_,
      fun number clause numbered => ?_, before, after, parted, fun inner member inside => ?_⟩
    · have own := parsed.at stands
      change Node.endByte node - 1 < Node.endByte node
      simp only [isParsed, Bool.and_eq_true, Bool.or_eq_true] at own
      have brace := own.2.resolve_left fun other => by
        rw [show node.label.kind.isSwitch = true from isSwitch] at other
        cases other
      cases last : node.children.getLast? with
      | none => rw [last] at brace; cases brace
      | some close =>
        rw [last, Option.any_some] at brace
        simp only [Bool.and_eq_true, decide_eq_true_eq] at brace
        have ends : Node.endByte close = Node.endByte node := brace.2
        have byte : Node.startByte close + 1 = Node.endByte close := brace.1.2
        omega
    · exact (parsed.clause_end stands isSwitch member).2.1
    · have member := List.mem_of_getElem? numbered
      obtain ⟨body, inside⟩ := parsed.inBody stands isSwitch member
      obtain ⟨-, ends, -⟩ := parsed.clause_end stands isSwitch member
      have first : clause.probeOffset < Node.endByte node - 1 := by
        by_cases holds : clause.statements = none
        · have differ := apart place node stands isSwitch needed clause member holds
          have within := body.inside.2
          have same : clause.probeOffset = Node.endByte clause.node := by
            rw [Clause.probeOffset, holds]
          omega
        · have within := inside holds
          omega
      exact standBoth_of_sublist collected.within (Woven.sublist_leftToRight_of_not
        (own (clauseEdit_mem numbered)) (own among) (not_comesFirst first))
    · have order : [(defaultEdit runtime probe place node).edit, inner] <+ edits := by
        rw [parted, switchEditsAt_eq stands isSwitch, List.append_assoc]
        refine List.Sublist.trans ?_ (List.sublist_append_right before _)
        exact (List.singleton_sublist.mpr (List.mem_map_of_mem among)).append
          (List.singleton_sublist.mpr member)
      refine standBoth_of_sublist collected.within ?_
      by_cases first : Woven.ComesFirst GoEdit.offset GoEdit.rank inner
          (defaultEdit runtime probe place node).edit
      · refine Woven.sublist_leftToRight order ?_
        have rank : (defaultEdit runtime probe place node).edit.rank = 100 := rfl
        have low := ranks inner member
        unfold Woven.ComesFirst at first ⊢
        omega
      · exact Woven.sublist_leftToRight_of_not (parted ▸ List.mem_append_right _ member) (own among)
          first

/-- Where every `fallthrough` is seen and labels differ, an alternative is recorded exactly where
it is selected. -/
theorem recordsSelected (parsed : Parsed root) (last : FallthroughsLast root)
    (labels : LabelsApart source root) : RecordsSelected source runtime probe root := by
  intro meaning function kind has isFunction memory outcome memory' selected
  have records {recorded : List Alternative} (rewritten : RunsRewritten runtime probe root meaning
      function memory outcome memory' selected recorded) : recorded = selected := by
    obtain ⟨flags, runs⟩ := rewritten
    refine (runs.invariant parsed last (fun list => ?_) rfl).same
    rw [Option.some.inj (has.symm.trans list)] at isFunction
    cases isFunction
  refine ⟨⟨fun written => ?_, fun ⟨recorded, rewritten⟩ => ?_⟩, fun recorded rewritten => ?_⟩
  · obtain ⟨flags, recorded, runs⟩ := written
    obtain ⟨flags', recorded', runs⟩ := runs.transfer _ quiet
    exact ⟨recorded', flags', runs⟩
  · obtain ⟨flags, runs⟩ := rewritten
    obtain ⟨flags', recorded', runs⟩ := runs.transfer .none quiet
    exact ⟨flags', recorded', runs⟩
  · rw [records rewritten]
    intro place node number label stands isSwitch labelled
    have own {alternative : Alternative} :
        identity source root alternative = some (place, label) ↔ alternative = (place, number) := by
      obtain ⟨place', number'⟩ := alternative
      constructor
      · intro same
        obtain ⟨node', stands', same⟩ := Option.bind_eq_some_iff.mp same
        obtain ⟨label', labelled', same⟩ := Option.bind_eq_some_iff.mp same
        cases same
        cases stands.symm.trans stands'
        have numbers : number' = number := (List.getElem?_inj
          (List.getElem?_eq_some_iff.mp labelled').1 (labels place' node stands isSwitch)).mp
          (labelled'.trans labelled.symm)
        rw [numbers]
      · rintro ⟨⟩
        simp [identity, stands, labelled]
    rw [List.mem_map]
    constructor
    · rintro ⟨alternative, member, same⟩
      exact own.mp same ▸ member
    · exact fun member => ⟨(place, number), member, own.mpr rfl⟩

/-- In every file whose switches meet the three conditions the clauses' probes stand where they
belong and every run records the alternatives that it selects. -/
theorem clauses_recorded (parsed : Parsed root) (last : FallthroughsLast root)
    (apart : ClausesApart root) (labels : LabelsApart source root) :
    (∀ edits, Collected source runtime probe root edits →
      ClausesStand source runtime probe root edits) ∧ RecordsSelected source runtime probe root :=
  ⟨fun _ => clausesStand parsed apart, recordsSelected parsed last labels⟩

end Results

section Remarked

def token (text : String) (startByte endByte : Nat) : Node :=
  .node { kind := .other text, field := "", named := false, startByte, endByte } []

/-- A function with a switch whose first clause falls through, with or without a remark. -/
def fallingText (remark : String) : String :=
  "package p\n\nfunc f(n int) \x7b\n\tswitch n \x7b\n\tcase 1:\n\t\tfallthrough" ++ remark ++
    "\n\tcase 2:\n\t\x7d\n\x7d\n"

def fallingSwitch (remarks : List Node) (length : Nat) : Node :=
  part .expressionSwitchStatement 28 (73 + length)
    [token "switch" 28 34, part (.other "identifier") 35 36 [], token "\x7b" 37 38,
      part .expressionCase 40 (62 + length)
        [token "case" 40 44, part (.other "expression_list") 45 46 [], token ":" 46 47,
          part .statementList 50 (62 + length)
            (part .fallthroughStatement 50 61 [] :: remarks ++
              [token "\n" (61 + length) (62 + length)])],
      part .expressionCase (63 + length) (70 + length)
        [token "case" (63 + length) (67 + length),
          part (.other "expression_list") (68 + length) (69 + length) [],
          token ":" (69 + length) (70 + length)],
      token "\x7d" (72 + length) (73 + length)]

def falling (remarks : List Node) (length : Nat) : Node :=
  part .sourceFile 0 (76 + length)
    [part (.other "package_clause") 0 9 [part (.other "package_identifier") 8 9 []],
      part .functionDeclaration 11 (75 + length)
        [part (.other "identifier") 16 17 [], part (.other "parameter_list") 17 24 [],
          part .block 25 (75 + length)
            [token "\x7b" 25 26, part .statementList 28 (74 + length)
              [fallingSwitch remarks length, token "\n" (73 + length) (74 + length)],
              token "\x7d" (74 + length) (75 + length)]]]

def countedUp (_ : Place) (alternative : Nat) : Nat := alternative + 1

/-- Where the switch stands, and its two clauses. -/
def fallingPlace : Place := [0, 1, 2, 1]

theorem falling_entries {found : Node} {place : Place}
    (stands : (falling [] 0).subtree? place = some found) :
    ((Node.kind found).isSwitch = true → place = fallingPlace) ∧
      (Node.kind found = .fallthroughStatement → place = [0, 3, 3] ++ fallingPlace) := by
  have among := PlacedTree.mem_placesOf stands []
  rw [List.append_nil] at among
  have all : ∀ entry ∈ PlacedTree.placesOf [] (falling [] 0),
      ((Node.kind entry.2).isSwitch = true → entry.1 = fallingPlace) ∧
        (Node.kind entry.2 = .fallthroughStatement → entry.1 = [0, 3, 3] ++ fallingPlace) := by
    decide +kernel
  exact all (place, found) among

theorem falling_switch {node : Node} {place : Place}
    (stands : (falling [] 0).subtree? place = some node)
    (isSwitch : (Node.kind node).isSwitch = true) :
    place = fallingPlace ∧ node = fallingSwitch [] 0 := by
  cases (falling_entries stands).1 isSwitch
  exact ⟨rfl, (Option.some.inj stands).symm⟩

/-- Without a remark the file meets the three conditions. -/
theorem clauses_recorded_falling :
    (∀ edits, Collected (fallingText "").toUTF8.toList "__supercov" countedUp (falling [] 0) edits →
      ClausesStand (fallingText "").toUTF8.toList "__supercov" countedUp (falling [] 0) edits) ∧
    RecordsSelected (fallingText "").toUTF8.toList "__supercov" countedUp (falling [] 0) := by
  refine clauses_recorded (by decide +kernel) (fun place has => ?_)
    (fun place node stands isSwitch _ clause member empty => ?_)
    (fun place node stands isSwitch => ?_)
  · obtain ⟨node, stands, kind⟩ := Option.map_eq_some_iff.mp has
    cases (falling_entries stands).2 kind
    exact ⟨fallingPlace, 0, fallingSwitch [] 0, _, _, rfl, rfl, rfl, rfl⟩
  · obtain ⟨rfl, rfl⟩ := falling_switch stands isSwitch
    have all : ∀ clause ∈ clausesAt fallingPlace (fallingSwitch [] 0),
        clause.statements.isNone = true → Node.endByte clause.node ≠ 72 := by
      decide +kernel
    exact all clause member (by rw [empty]; rfl)
  · obtain ⟨rfl, rfl⟩ := falling_switch stands isSwitch
    decide +kernel

/-- With a remark behind the `fallthrough` on its line. -/
def remarked : Node := falling [part .comment 62 69 []] 8

/-- The function runs its switch, whose first clause is matched. -/
def fallingScript (place : Place) (control : Nat) : Action Unit :=
  if control ≠ 0 then .finish
  else if place = [1] then .enter 2
  else if place = [2, 1] then .enter 1
  else if place = fallingPlace then .select (some 0)
  else .finish

def fallingMeaning : Meaning where
  Memory := Unit
  Control := Nat
  Exit := Unit
  begins _ := 0
  called _ := 0
  acts place control _ action control' _ :=
    action = fallingScript place control ∧ control' = control + 1
  resumes control _ := control
  lands _ _ := none

theorem remarked_standing :
    ([[2, 1], [1, 2, 1], fallingPlace, [1, 1, 2, 1]].all fun place => standingAt
        (allSwitchEdits "__supercov" countedUp remarked) (.statement place) = []) = true ∧
      standingAt (allSwitchEdits "__supercov" countedUp remarked)
        (.statement ([0, 3, 3] ++ fallingPlace)) = [.hit fallingPlace 0] ∧
      standingAt (allSwitchEdits "__supercov" countedUp remarked)
        (.clauseEnd (4 :: fallingPlace)) = [.hit fallingPlace 1] := by
  refine ⟨?_, ?_, ?_⟩ <;> decide +kernel

/-- A part of that run, with no flag set before or after. -/
abbrev FallingRuns (task : Task Nat) (selected recorded : List Alternative) : Prop :=
  Runs remarked (insertionsOf (allSwitchEdits "__supercov" countedUp remarked)) fallingMeaning task
    quiet () .next quiet () selected recorded

theorem falling_node {place : Place} {selected recorded : List Alternative}
    (member : place ∈ [[2, 1], [1, 2, 1], fallingPlace, [1, 1, 2, 1]])
    (runs : FallingRuns (.bare place) selected recorded) :
    FallingRuns (.node place) selected recorded := by
  refine (Runs.node ?_ runs : FallingRuns (.node place) selected ([] ++ recorded))
  change runInserted (standingAt _ _) quiet = _
  rw [of_decide_eq_true (List.all_eq_true.mp remarked_standing.1 place member)]
  rfl

theorem falling_finish (place : Place) (control : Nat)
    (finishes : fallingScript place control = .finish) : FallingRuns (.auto place control) [] [] :=
  .finish ⟨finishes.symm, rfl⟩

theorem falling_enter {place : Place} {index : Nat} {selected recorded : List Alternative}
    (acts : fallingScript place 0 = .enter index) (enters : Enters remarked place index)
    (child : FallingRuns (.node (index :: place)) selected recorded) :
    FallingRuns (.auto place 0) (selected ++ []) (recorded ++ []) :=
  Runs.enter
    ⟨acts.symm, rfl⟩ enters child nofun
    (falling_finish place 1 rfl)

theorem falling_switch_runs :
    FallingRuns (.auto fallingPlace 0) [(fallingPlace, 0)] [(fallingPlace, 0), (fallingPlace, 1)] := by
  obtain ⟨-, first, second⟩ := remarked_standing
  have one : Runs remarked (insertionsOf (allSwitchEdits "__supercov" countedUp remarked))
      fallingMeaning (.bare (3 :: 3 :: fallingPlace)) quiet () .fell quiet () []
      [(fallingPlace, 0)] := by
    have fell : Runs remarked (insertionsOf (allSwitchEdits "__supercov" countedUp remarked))
        fallingMeaning (.node ([0, 3, 3] ++ fallingPlace)) quiet () .fell quiet () []
        ([(fallingPlace, 0)] ++ []) := by
      refine .node ?_ (.fallthrough rfl)
      change runInserted (standingAt _ (.statement ([0, 3, 3] ++ fallingPlace))) quiet = _
      rw [first]
      rfl
    exact .list rfl (.restFell fell)
  have two : FallingRuns (.clause fallingPlace 1) [] [(fallingPlace, 1)] := by
    refine .clauseEmpty rfl rfl ?_
    change runInserted (standingAt _ (.clauseEnd (4 :: fallingPlace))) quiet = _
    rw [second]
    rfl
  have selects : fallingMeaning.acts fallingPlace (0 : Nat) () (.select (some 0)) (1 : Nat) () :=
    ⟨rfl, rfl⟩
  exact Runs.select selects (.clauseFell rfl rfl one two) (falling_finish fallingPlace 1 rfl)

theorem remarked_runs :
    RunsRewritten "__supercov" countedUp remarked fallingMeaning [1] () .next ()
      [(fallingPlace, 0)] [(fallingPlace, 0), (fallingPlace, 1)] := by
  have newline : FallingRuns (.node [1, 1, 2, 1]) [] [] :=
    falling_node (by decide) (.other rfl nofun nofun (falling_finish _ 0 rfl))
  have switch : FallingRuns (.node fallingPlace) [(fallingPlace, 0)]
      [(fallingPlace, 0), (fallingPlace, 1)] :=
    falling_node (by decide)
      (.other rfl nofun nofun falling_switch_runs)
  have ended : FallingRuns (.rest [1, 2, 1] 2 false) [] [] := .restEnd rfl (by decide)
  have rest : FallingRuns (.rest [1, 2, 1] 1 false) ([] ++ []) ([] ++ []) :=
    Runs.restNext newline ended
  have list : FallingRuns (.rest [1, 2, 1] 0 false) ([(fallingPlace, 0)] ++ [])
      ([(fallingPlace, 0), (fallingPlace, 1)] ++ []) := Runs.restNext switch rest
  have block : FallingRuns (.node [2, 1]) [(fallingPlace, 0)]
      [(fallingPlace, 0), (fallingPlace, 1)] :=
    falling_node (by decide) (.other rfl nofun nofun
      (falling_enter rfl ⟨.block, .statementList, rfl, rfl, by decide⟩
        (falling_node (by decide) (.list rfl list))))
  exact ⟨quiet, falling_enter rfl ⟨.functionDeclaration, .block, rfl, rfl, by decide⟩
    block⟩

/-- The remark is the last that is named in its clause, so that the `fallthrough` is not seen. -/
theorem not_clauses_recorded_remarked :
    Parsed remarked ∧
      ¬ RecordsSelected (fallingText " // next").toUTF8.toList "__supercov" countedUp remarked := by
  refine ⟨by decide +kernel, fun records => ?_⟩
  obtain ⟨-, exact⟩ := records fallingMeaning [1] .functionDeclaration rfl rfl () .next ()
    [(fallingPlace, 0)]
  have recorded := (exact _ remarked_runs fallingPlace
    (fallingSwitch [part .comment 62 69 []] 8) 1 _ rfl rfl rfl).mp (List.mem_cons_of_mem _
      List.mem_cons_self)
  exact absurd recorded (by decide)

end Remarked

end Supercov.Go
