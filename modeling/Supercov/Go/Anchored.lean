import Supercov.Go.Execution

/-!
# What stands before a statement

Of all that is inserted in a file only the declarations of flags and what belongs to the clause
around it stand before a statement: the probe of the clause before its first, the setting of the
flag before its `fallthrough`, and the probe left of the flag where they are one.
-/

open scoped List

namespace Supercov.Go

open PlacedTree (Place)

section Walked

theorem mem_walkedAmong {above : Place} {index : Nat} {children : List Node} {place : Place} :
    place ∈ walkedAmong above index children ↔
      ∃ (after : Nat) (child : Node), children[after]? = some child ∧ Node.isNamed child = true ∧
        place ∈ walked ((index + after) :: above) child := by
  induction children generalizing index with
  | nil => simp [walkedAmong]
  | cons head children ih =>
    rw [walkedAmong, List.mem_append, ih]
    constructor
    · rintro (here | ⟨after, child, stands, named, among⟩)
      · cases named : head.label.named <;> rw [named] at here
        · cases here
        · exact ⟨0, head, rfl, named, here⟩
      · exact ⟨after + 1, child, stands, named, by rwa [Nat.add_assoc, Nat.add_comm 1] at among⟩
    · rintro ⟨after, child, stands, named, among⟩
      cases after with
      | zero =>
        cases stands
        exact .inl (by rwa [if_pos (show head.label.named = true from named)])
      | succ after =>
        exact .inr ⟨after, child, stands, named, by rwa [Nat.add_assoc, Nat.add_comm 1]⟩

theorem mem_walked {place other : Place} {node : Node} :
    other ∈ walked place node ↔ other = place ∨ other ∈ walkedAmong place 0 node.children := by
  cases node
  rw [walked, List.mem_cons]
  rfl

mutual

theorem suffix_of_mem_walked {place other : Place} :
    ∀ {node : Node}, other ∈ walked place node → place <:+ other
  | .node _ children, among => by
    rw [walked, List.mem_cons] at among
    rcases among with rfl | among
    · exact List.suffix_refl _
    · obtain ⟨index, -, suffix⟩ := suffix_of_mem_walkedAmong among
      exact (List.suffix_cons index place).trans suffix

theorem suffix_of_mem_walkedAmong {above other : Place} :
    ∀ {index : Nat} {children : List Node}, other ∈ walkedAmong above index children →
      ∃ later, index ≤ later ∧ (later :: above) <:+ other
  | _, [], among => nomatch among
  | index, child :: children, among => by
    rw [walkedAmong, List.mem_append] at among
    rcases among with among | among
    · split at among
      · exact ⟨index, Nat.le_refl _, suffix_of_mem_walked among⟩
      · cases among
    · obtain ⟨later, after, suffix⟩ := suffix_of_mem_walkedAmong among
      exact ⟨later, Nat.le_of_succ_le after, suffix⟩

end

theorem index_eq_of_suffix {first second : Nat} {above other : Place}
    (one : (first :: above) <:+ other) (two : (second :: above) <:+ other) : first = second := by
  have same := List.suffix_of_suffix_length_le one two (Nat.le_refl _)
  exact (List.cons.inj (same.eq_of_length rfl)).1

mutual

theorem nodup_walked (place : Place) : ∀ node : Node, (walked place node).Nodup
  | .node _ children => by
    rw [walked, List.nodup_cons]
    refine ⟨fun among => ?_, nodup_walkedAmong place 0 children⟩
    obtain ⟨later, -, suffix⟩ := suffix_of_mem_walkedAmong among
    exact absurd suffix.length_le (by rw [List.length_cons]; omega)

theorem nodup_walkedAmong (above : Place) :
    ∀ (index : Nat) (children : List Node), (walkedAmong above index children).Nodup
  | _, [] => List.nodup_nil
  | index, child :: children => by
    rw [walkedAmong, List.nodup_append]
    refine ⟨?_, nodup_walkedAmong above (index + 1) children, fun one among other later same => ?_⟩
    · split
      · exact nodup_walked (index :: above) child
      · exact List.nodup_nil
    · subst same
      split at among
      · obtain ⟨beyond, after, suffix⟩ := suffix_of_mem_walkedAmong later
        cases index_eq_of_suffix (suffix_of_mem_walked among) suffix
        exact Nat.not_succ_le_self _ after
      · cases among

end

end Walked

def inOrder (limit : Nat) : Nat → List Node → Bool
  | start, [] => start ≤ limit
  | start, child :: children =>
    start ≤ Node.startByte child && Node.startByte child ≤ Node.endByte child &&
      inOrder limit (Node.endByte child) children

/-- What the grammar promises of a node: a token has no children, a list of statements begins with
a statement and holds some text, and a switch ends with its brace. -/
def isParsed (data : NodeData) (children : List Node) : Bool :=
  (data.named || children.isEmpty && !data.kind.isSwitch) &&
  inOrder data.endByte data.startByte children &&
  (data.kind ≠ .statementList || data.startByte < data.endByte &&
    children.head?.any fun first : Node => first.startByte = data.startByte) &&
  (!data.kind.isSwitch || children.getLast?.any fun brace : Node =>
    !brace.kind.isCase && brace.startByte + 1 = brace.endByte && brace.endByte = data.endByte)

abbrev Parsed (root : Node) : Prop := PlacedTree.every isParsed root = true

theorem Parsed.at {root node : Node} {place : Place} (parsed : Parsed root)
    (stands : root.subtree? place = some node) : isParsed node.label node.children = true :=
  PlacedTree.holds_of_every (PlacedTree.every_of_subtree? parsed stands)

theorem Parsed.mem_walked {node found : Node} {inner : Place} (parsed : Parsed node)
    (stands : node.subtree? inner = some found) (named : Node.isNamed found = true)
    (place : Place) : inner ++ place ∈ walked place node := by
  induction inner using List.reverseRecOn generalizing node place with
  | nil => exact Go.mem_walked.mpr (.inl rfl)
  | append_singleton inner index ih =>
    rw [PlacedTree.subtree?_snoc] at stands
    obtain ⟨child, at', below⟩ := Option.bind_eq_some_iff.mp stands
    have single : node.subtree? [index] = some child := at'
    have parsed' : Parsed child := PlacedTree.every_of_subtree? parsed single
    have named' : Node.isNamed child = true := by
      cases inner using List.reverseRecOn with
      | nil =>
        cases below
        exact named
      | append_singleton inner last =>
        rw [PlacedTree.subtree?_snoc] at below
        obtain ⟨grand, at'', -⟩ := Option.bind_eq_some_iff.mp below
        have own := parsed'.at (PlacedTree.subtree?_nil child)
        simp only [isParsed, Bool.and_eq_true, Bool.or_eq_true] at own
        refine own.1.1.1.resolve_right fun bare => ?_
        rw [List.isEmpty_iff.mp bare.1] at at''
        cases at''
    rw [Go.mem_walked]
    refine .inr (mem_walkedAmong.mpr ⟨index, child, at', named', ?_⟩)
    rw [List.append_assoc, Nat.zero_add]
    exact ih parsed' below (index :: place)

theorem Parsed.switch_walked {root node : Node} {place : Place} (parsed : Parsed root)
    (stands : root.subtree? place = some node) (switch : (Node.kind node).isSwitch = true) :
    place ∈ walked [] root := by
  have own := parsed.at stands
  simp only [isParsed, Bool.and_eq_true, Bool.or_eq_true] at own
  have named := own.1.1.1.resolve_right fun bare => by
    rw [show node.label.kind.isSwitch = true from switch] at bare
    exact absurd bare.2 (by decide)
  have among := parsed.mem_walked stands named []
  rwa [List.append_nil] at among

section Clauses

theorem mem_clausesAt {place : Place} {node : Node} {clause : Clause} :
    clause ∈ clausesAt place node ↔ ∃ index, node.children[index]? = some clause.node ∧
      (Node.kind clause.node).isCase = true ∧ clause.place = index :: place := by
  rw [clausesAt, List.mem_filterMap]
  constructor
  · rintro ⟨⟨child, index⟩, among, same⟩
    split at same
    · rename_i isCase
      cases same
      exact ⟨index, List.mk_mem_zipIdx_iff_getElem?.mp among, isCase, rfl⟩
    · cases same
  · rintro ⟨index, stands, isCase, same⟩
    refine ⟨(clause.node, index), List.mk_mem_zipIdx_iff_getElem?.mpr stands, ?_⟩
    rw [if_pos isCase, ← same]

theorem nodup_clausesAt (place : Place) (node : Node) : (clausesAt place node).Nodup := by
  refine List.Nodup.filterMap (fun ⟨child, index⟩ ⟨other, index'⟩ clause first second => ?_) ?_
  · dsimp only at first second
    split at first <;> split at second <;> cases first <;> cases second
    rfl
  · exact List.Nodup.of_map Prod.snd (by
      rw [List.zipIdx_map_snd]
      exact List.nodup_range')

theorem clause_eq_of_place {place : Place} {node : Node} {first second : Clause}
    (one : first ∈ clausesAt place node) (two : second ∈ clausesAt place node)
    (same : first.place = second.place) : first = second := by
  obtain ⟨index, stands, -, at'⟩ := mem_clausesAt.mp one
  obtain ⟨index', stands', -, at''⟩ := mem_clausesAt.mp two
  cases first
  cases second
  cases same
  cases at'.symm.trans at''
  cases stands.symm.trans stands'
  rfl

theorem clausesAt_subtree? {root node : Node} {place : Place} {clause : Clause}
    (stands : root.subtree? place = some node) (member : clause ∈ clausesAt place node) :
    root.subtree? clause.place = some clause.node := by
  obtain ⟨index, child, -, at'⟩ := mem_clausesAt.mp member
  rw [at', PlacedTree.subtree?_cons, stands]
  exact child

theorem Clause.statements_eq_some {clause : Clause} {place : Place} {body : Node}
    (holds : clause.statements = some (place, body)) :
    ∃ index, clause.node.children[index]? = some body ∧ Node.kind body = .statementList ∧
      place = index :: clause.place := by
  obtain ⟨⟨child, index⟩, found, same⟩ := Option.map_eq_some_iff.mp holds
  cases same
  have kind := List.find?_some found
  exact ⟨index, List.mk_mem_zipIdx_iff_getElem?.mp (List.mem_of_find?_eq_some found),
    of_decide_eq_true kind, rfl⟩

theorem Clause.fallthrough_eq_some {clause : Clause} {place : Place} {last : Node}
    (ends : clause.fallthrough = some (place, last)) :
    ∃ bodyPlace body index, clause.statements = some (bodyPlace, body) ∧
      body.children[index]? = some last ∧ Node.kind last = .fallthroughStatement ∧
      place = index :: bodyPlace := by
  obtain ⟨⟨bodyPlace, body⟩, holds, ends⟩ := Option.bind_eq_some_iff.mp ends
  obtain ⟨⟨child, index⟩, found, ends⟩ := Option.bind_eq_some_iff.mp ends
  dsimp only at ends
  split at ends
  · rename_i kind
    cases ends
    exact ⟨bodyPlace, body, index, holds, List.mk_mem_zipIdx_iff_getElem?.mp
      (List.mem_filter.mp (List.mem_of_getLast? found)).1, kind, rfl⟩
  · cases ends

end Clauses

section Anchored

def Anchor.switch : Anchor → Place
  | .statement place => place.drop 3
  | .clauseEnd place => place.drop 1
  | .brace place => place

def Inserted.switch : Inserted → Place
  | .declare switch | .fell switch | .hit switch _ | .hitUnlessFell switch _ => switch

def Inserted.isDeclare : Inserted → Bool
  | .declare _ => true
  | _ => false

variable {runtime : String} {probe : Place → Nat → Nat} {root : Node}

theorem Clause.anchor_switch {place : Place} {node : Node} {clause : Clause}
    (member : clause ∈ clausesAt place node) : clause.anchor.switch = place := by
  obtain ⟨index, -, -, at'⟩ := mem_clausesAt.mp member
  rw [Clause.anchor]
  cases holds : clause.statements with
  | none => exact at' ▸ rfl
  | some found =>
    obtain ⟨index', -, -, same⟩ := clause.statements_eq_some holds
    dsimp only
    rw [same, at']
    rfl

theorem fellEdit_eq_some {place : Place} {node : Node} {clause : Clause} {edit : SwitchEdit}
    (member : clause ∈ clausesAt place node) (made : fellEdit place node clause = some edit) :
    edit.anchor.switch = place ∧ edit.inserted = .fell place := by
  obtain ⟨⟨ending, last⟩, ends, rfl⟩ := Option.map_eq_some_iff.mp made
  obtain ⟨index, -, -, at'⟩ := mem_clausesAt.mp member
  obtain ⟨bodyPlace, body, last', holds, -, -, same⟩ := clause.fallthrough_eq_some ends
  obtain ⟨index', -, -, same'⟩ := clause.statements_eq_some holds
  refine ⟨?_, rfl⟩
  change ending.drop 3 = place
  rw [same, same', at']
  rfl

theorem flaggedStatement_suffix (place : Place) : flaggedStatement root place <:+ place := by
  cases place with
  | nil => exact List.suffix_refl _
  | cons index above =>
    rw [flaggedStatement]
    split
    · exact List.suffix_cons index above
    · exact List.suffix_refl _

theorem flagDeclaration_suffix {place before : Place} {edit : GoEdit}
    (made : flagDeclaration root place = some (before, edit)) : before <:+ place := by
  obtain ⟨node, -, made⟩ := Option.bind_eq_some_iff.mp made
  suffices same : before = flaggedStatement root place from same ▸ flaggedStatement_suffix place
  dsimp only at made
  split at made <;> split at made <;> try cases made
  · obtain ⟨statement, -, made⟩ := Option.bind_eq_some_iff.mp made
    cases made
    rfl
  · split at made
    · obtain ⟨statement, -, made⟩ := Option.bind_eq_some_iff.mp made
      cases made
      rfl
    · cases made

theorem clauseEdit_inserted (place : Place) (node : Node) (fallen : Bool) (clause : Clause)
    (index : Nat) : (clauseEdit runtime probe place node fallen clause index).inserted =
      if fallen then .hitUnlessFell place index else .hit place index := rfl

theorem anchor_of_mem {place : Place} {edit : SwitchEdit}
    (member : edit ∈ switchEditsAt runtime probe root place) :
    edit.inserted.switch = place ∧
      if edit.inserted.isDeclare then ∃ before, edit.anchor = .statement before ∧ before <:+ place
      else edit.anchor.switch = place := by
  rw [switchEditsAt] at member
  split at member
  · rename_i node stands
    split at member
    · simp only [switchEdits, List.mem_append, Option.mem_toList, List.mem_filterMap,
        List.mem_map] at member
      rcases member with ((declared | ⟨clause, among, made⟩) | ⟨⟨clause, index⟩, among, rfl⟩) | rest
      · obtain ⟨⟨before, declared⟩, made, rfl⟩ := Option.map_eq_some_iff.mp declared
        exact ⟨rfl, before, rfl, flagDeclaration_suffix made⟩
      · obtain ⟨switch, inserted⟩ := fellEdit_eq_some among made
        rw [inserted]
        exact ⟨rfl, switch⟩
      · have among : clause ∈ clausesAt place node :=
          List.mem_of_getElem? (List.mk_mem_zipIdx_iff_getElem?.mp among)
        rw [clauseEdit_inserted]
        split <;> exact ⟨rfl, clause.anchor_switch among⟩
      · split at rest
        · cases List.mem_singleton.mp rest
          exact ⟨rfl, rfl⟩
        · cases rest
    · cases member
  · cases member

theorem runInserted_filter {inserted : List Inserted} {flags : Flags}
    (apart : ∀ one ∈ inserted, one.isDeclare = true → flags one.switch = false ∧
      ∀ other ∈ inserted, other.isDeclare = false → other.switch ≠ one.switch) :
    runInserted inserted flags = runInserted (inserted.filter fun one => !one.isDeclare) flags := by
  induction inserted generalizing flags with
  | nil => rfl
  | cons head inserted ih =>
    have ⟨own, rest⟩ := List.forall_mem_cons.mp apart
    have after {flags' : Flags} (kept : ∀ one ∈ inserted, one.isDeclare = true →
        flags' one.switch = flags one.switch) :
        runInserted inserted flags' =
          runInserted (inserted.filter fun one => !one.isDeclare) flags' :=
      ih fun one member declares =>
        have ⟨clear, differ⟩ := rest one member declares
        ⟨(kept one member declares).trans clear,
          fun other among => differ other (List.mem_cons_of_mem head among)⟩
    cases head with
    | declare switch =>
      have same : Function.update flags switch false = flags := by
        rw [← show flags switch = false from (own rfl).1, Function.update_eq_self]
      rw [List.filter_cons_of_neg (by simp [Inserted.isDeclare]), runInserted]
      simp only [Inserted.run, same, List.nil_append]
      exact after fun _ _ _ => rfl
    | hit switch alternative =>
      rw [List.filter_cons_of_pos (by rfl), runInserted, runInserted, after]
      exact fun _ _ _ => rfl
    | fell switch =>
      rw [List.filter_cons_of_pos (by rfl), runInserted, runInserted, after]
      intro one member declares
      exact Function.update_of_ne (Ne.symm ((rest one member declares).2 _ List.mem_cons_self rfl)) _ _
    | hitUnlessFell switch alternative =>
      rw [List.filter_cons_of_pos (by rfl), runInserted, runInserted, after]
      intro one member declares
      have differ := (rest one member declares).2 _ List.mem_cons_self rfl
      rw [Inserted.run]
      split
      · exact Function.update_of_ne (Ne.symm differ) _ _
      · rfl

theorem flatMap_single {α β : Type*} {list : List α} {element : α} {image : α → List β}
    (nodup : list.Nodup) (member : element ∈ list)
    (other : ∀ one ∈ list, one ≠ element → image one = []) : list.flatMap image = image element := by
  obtain ⟨before, after, rfl⟩ := List.append_of_mem member
  have ⟨first, last⟩ : element ∉ before ∧ element ∉ after := by
    have ⟨_, second, differ⟩ := List.nodup_append.mp nodup
    exact ⟨fun among => differ element among element List.mem_cons_self rfl,
      (List.nodup_cons.mp second).1⟩
  rw [List.flatMap_append, List.flatMap_cons,
    List.flatMap_eq_nil_iff.mpr fun one among => other one (List.mem_append_left _ among)
      fun same => first (same ▸ among),
    List.flatMap_eq_nil_iff.mpr fun one among => other one
      (List.mem_append_right _ (List.mem_cons_of_mem _ among)) fun same => last (same ▸ among),
    List.nil_append, List.append_nil]

def isAnchored (anchor : Anchor) (edit : SwitchEdit) : Bool :=
  !edit.inserted.isDeclare && edit.anchor = anchor

theorem filter_allSwitchEdits (anchor : Anchor) :
    (allSwitchEdits runtime probe root).filter (isAnchored anchor) =
      if anchor.switch ∈ walked [] root then
        (switchEditsAt runtime probe root anchor.switch).filter (isAnchored anchor)
      else [] := by
  have elsewhere (place : Place) (differ : place ≠ anchor.switch) :
      (switchEditsAt runtime probe root place).filter (isAnchored anchor) = [] := by
    refine List.filter_eq_nil_iff.mpr fun edit member holds => differ ?_
    rw [isAnchored, Bool.and_eq_true, Bool.not_eq_true'] at holds
    have ⟨_, at'⟩ := anchor_of_mem member
    rw [holds.1, if_neg Bool.false_ne_true] at at'
    exact at'.symm.trans (congrArg Anchor.switch (of_decide_eq_true holds.2))
  rw [allSwitchEdits, List.filter_flatMap]
  split
  · rename_i among
    exact flatMap_single (nodup_walked [] root) among fun one _ => elsewhere one
  · rename_i absent
    exact List.flatMap_eq_nil_iff.mpr fun one among =>
      elsewhere one fun same => absent (same ▸ among)

abbrev editsLeftToRight (edits : List SwitchEdit) : List SwitchEdit :=
  Woven.leftToRight (fun edit => edit.edit.offset) (fun edit => edit.edit.rank) edits

theorem mem_standingAt {edits : List SwitchEdit} {anchor : Anchor} {inserted : Inserted} :
    inserted ∈ standingAt edits anchor ↔
      ∃ edit ∈ edits, edit.anchor = anchor ∧ edit.inserted = inserted := by
  simp [standingAt, and_assoc]

theorem runInserted_standingAt {anchor : Anchor} {flags : Flags} (inside : anchor ≠ .statement [])
    (clear : ∀ switch, switch ≠ anchor.switch → flags switch = false) :
    runInserted (standingAt (allSwitchEdits runtime probe root) anchor) flags =
      runInserted ((editsLeftToRight ((allSwitchEdits runtime probe root).filter
        (isAnchored anchor))).map SwitchEdit.inserted) flags := by
  have ofSwitch {one : Inserted}
      (member : one ∈ standingAt (allSwitchEdits runtime probe root) anchor) :
      if one.isDeclare then one.switch ≠ anchor.switch else one.switch = anchor.switch := by
    obtain ⟨edit, among, rfl, rfl⟩ := mem_standingAt.mp member
    obtain ⟨place, -, own⟩ := List.mem_flatMap.mp among
    have ⟨switch, at'⟩ := anchor_of_mem own
    rw [switch]
    split
    · rename_i declares
      rw [if_pos declares] at at'
      obtain ⟨before, same, suffix⟩ := at'
      rw [same] at inside ⊢
      have length := suffix.length_le
      rintro rfl
      change before.length ≤ (before.drop 3).length at length
      rw [List.length_drop] at length
      refine inside (congrArg Anchor.statement (List.length_eq_zero_iff.mp ?_))
      omega
    · rename_i inserts
      rw [if_neg inserts] at at'
      exact at'.symm
  rw [runInserted_filter, standingAt, List.filter_map, List.filter_filter]
  · rw [editsLeftToRight, ← Woven.filter_leftToRight]
    rfl
  · intro one member declares
    have differ := ofSwitch member
    rw [if_pos declares] at differ
    refine ⟨clear _ differ, fun other among inserts => ?_⟩
    have same := ofSwitch among
    rw [inserts, if_neg Bool.false_ne_true] at same
    exact same ▸ differ.symm

end Anchored

section Clause

variable {runtime : String} {probe : Place → Nat → Nat} {root : Node}

def Anchor.clause : Anchor → Place
  | .statement place => place.drop 2
  | .clauseEnd place => place
  | .brace place => place

theorem Clause.anchor_clause (clause : Clause) : clause.anchor.clause = clause.place := by
  rw [Clause.anchor]
  cases holds : clause.statements with
  | none => rfl
  | some found =>
    obtain ⟨index, -, -, same⟩ := clause.statements_eq_some holds
    dsimp only
    rw [same]
    rfl

theorem fellEdit_clause {place : Place} {node : Node} {clause : Clause} {edit : SwitchEdit}
    (made : fellEdit place node clause = some edit) : edit.anchor.clause = clause.place := by
  obtain ⟨⟨ending, last⟩, ends, rfl⟩ := Option.map_eq_some_iff.mp made
  obtain ⟨bodyPlace, body, last', holds, -, -, rfl⟩ := clause.fallthrough_eq_some ends
  obtain ⟨index', -, -, rfl⟩ := clause.statements_eq_some holds
  rfl

/-- What a clause has standing at an anchor, the setting of the flag first. -/
def clauseEdits (runtime : String) (probe : Place → Nat → Nat) (place : Place) (node : Node)
    (fallen : Bool) (clause : Clause) (index : Nat) : List SwitchEdit :=
  (fellEdit place node clause).toList ++ [clauseEdit runtime probe place node fallen clause index]

theorem filter_switchEdits {place : Place} {node : Node} {clause : Clause} {index : Nat}
    (stands : (clausesAt place node)[index]? = some clause) {anchor : Anchor}
    (at' : anchor.clause = clause.place) (inside : ∀ brace, anchor ≠ .brace brace) :
    (switchEdits runtime probe root place node).filter (isAnchored anchor) =
      (clauseEdits runtime probe place node (fallenInto (clausesAt place node) index) clause
        index).filter (isAnchored anchor) := by
  have among := List.mem_of_getElem? stands
  have declares : (declareEdit root place).toList.filter (isAnchored anchor) = [] := by
    refine List.filter_eq_nil_iff.mpr fun edit member holds => ?_
    obtain ⟨declared, -, rfl⟩ := Option.map_eq_some_iff.mp (Option.mem_toList.mp member)
    cases holds
  have fells : ((clausesAt place node).filterMap (fellEdit place node)).filter (isAnchored anchor) =
      (fellEdit place node clause).toList.filter (isAnchored anchor) := by
    rw [List.filterMap_eq_flatMap_toList, List.filter_flatMap]
    refine flatMap_single (nodup_clausesAt place node) among fun other member differ => ?_
    refine List.filter_eq_nil_iff.mpr fun edit made holds => differ ?_
    rw [isAnchored, Bool.and_eq_true] at holds
    refine clause_eq_of_place member among ?_
    rw [← at', ← of_decide_eq_true holds.2, fellEdit_clause (Option.mem_toList.mp made)]
  have hits : ((clausesAt place node).zipIdx.map fun clause => clauseEdit runtime probe place node
        (fallenInto (clausesAt place node) clause.2) clause.1 clause.2).filter (isAnchored anchor) =
      [clauseEdit runtime probe place node (fallenInto (clausesAt place node) index) clause
        index].filter (isAnchored anchor) := by
    rw [List.map_eq_flatMap, List.filter_flatMap]
    refine flatMap_single ?_
      (List.mk_mem_zipIdx_iff_getElem?.mpr stands) fun ⟨other, index'⟩ member differ => ?_
    · exact List.Nodup.of_map Prod.snd (by
        rw [List.zipIdx_map_snd]
        exact List.nodup_range')
    · refine List.filter_eq_nil_iff.mpr fun edit made holds => differ ?_
      cases List.mem_singleton.mp made
      rw [isAnchored, Bool.and_eq_true] at holds
      have stands' := List.mk_mem_zipIdx_iff_getElem?.mp member
      have same : other = clause := by
        refine clause_eq_of_place (List.mem_of_getElem? stands') among ?_
        rw [← at', ← of_decide_eq_true holds.2]
        exact other.anchor_clause.symm
      subst same
      rw [(List.getElem?_inj (List.getElem?_eq_some_iff.mp stands').1
        (nodup_clausesAt place node)).mp (stands'.trans stands.symm)]
  have rest : (if needsDefault node then [defaultEdit runtime probe place node] else []).filter
      (isAnchored anchor) = [] := by
    refine List.filter_eq_nil_iff.mpr fun edit member holds => ?_
    rw [isAnchored, Bool.and_eq_true] at holds
    split at member
    · cases List.mem_singleton.mp member
      exact inside place (of_decide_eq_true holds.2).symm
    · cases member
  rw [switchEdits]
  simp only [List.filter_append, declares, fells, hits, rest, List.nil_append, List.append_nil,
    clauseEdits]

theorem ofSwitch_statement {place : Place} {node : Node} {clause : Clause} {body : Place × Node}
    (among : clause ∈ clausesAt place node) (holds : clause.statements = some body) (index : Nat) :
    (Anchor.statement (index :: body.1)).clause = clause.place ∧
      (Anchor.statement (index :: body.1)).switch = place := by
  obtain ⟨index', -, -, at'⟩ := mem_clausesAt.mp among
  obtain ⟨inner, -, -, same⟩ := clause.statements_eq_some holds
  rw [same]
  exact ⟨rfl, by rw [at']; rfl⟩

theorem filter_fellEdit {place : Place} {node : Node} {clause : Clause} {at' : Place} :
    (fellEdit place node clause).toList.filter (isAnchored (.statement at')) =
      if clause.fallthrough.map Prod.fst = some at' then (fellEdit place node clause).toList
      else [] := by
  rw [fellEdit]
  cases clause.fallthrough with
  | none => rfl
  | some ending =>
    simp only [Option.map_some, Option.toList_some, Option.some.injEq]
    split
    · rename_i same
      exact List.filter_cons_of_pos (by simp [isAnchored, Inserted.isDeclare, same])
    · rename_i differ
      exact List.filter_cons_of_neg (by simp [isAnchored, differ])

theorem filter_clauseEdit {place : Place} {node : Node} {fallen : Bool} {clause : Clause}
    {number : Nat} {anchor : Anchor} :
    [clauseEdit runtime probe place node fallen clause number].filter (isAnchored anchor) =
      if clause.anchor = anchor then [clauseEdit runtime probe place node fallen clause number]
      else [] := by
  split
  · rename_i same
    refine List.filter_cons_of_pos ?_
    rw [isAnchored, clauseEdit_inserted]
    cases fallen <;> exact decide_eq_true same
  · rename_i differ
    exact List.filter_cons_of_neg (by
      rw [isAnchored, Bool.and_eq_true]
      exact fun holds => differ (of_decide_eq_true holds.2))

theorem Clause.anchor_statement {clause : Clause} {body : Place × Node}
    (holds : clause.statements = some body) : clause.anchor = .statement (0 :: body.1) := by
  rw [Clause.anchor, holds]

theorem Parsed.offset_fallthrough {place : Place} {node : Node} {clause : Clause}
    {body : Place × Node} (parsed : Parsed root) (stands : root.subtree? place = some node)
    (among : clause ∈ clausesAt place node) (holds : clause.statements = some body) {last : Node}
    (ends : clause.fallthrough = some (0 :: body.1, last)) :
    clause.probeOffset = Node.startByte last := by
  obtain ⟨bodyPlace, body', index, holds', child, -, same⟩ := clause.fallthrough_eq_some ends
  cases holds.symm.trans holds'
  cases same
  rw [Clause.probeOffset, holds]
  obtain ⟨index, child', kind, same⟩ := clause.statements_eq_some holds
  have placed : root.subtree? bodyPlace = some body' := by
    rw [same, PlacedTree.subtree?_cons, clausesAt_subtree? stands among]
    exact child'
  have own := parsed.at placed
  simp only [isParsed, Bool.and_eq_true, Bool.or_eq_true, decide_eq_true_eq] at own
  have first := (own.1.2.resolve_left fun other => other kind).2
  rw [List.head?_eq_getElem?, child, Option.any_some] at first
  exact (of_decide_eq_true first).symm

/-- Before a statement of a clause stand the probe, when it is the first, and then the setting of
the flag, when it is the `fallthrough`. -/
theorem runInserted_child (parsed : Parsed root) {place : Place} {node : Node}
    (stands : root.subtree? place = some node) (switch : (Node.kind node).isSwitch = true)
    {clause : Clause} {number : Nat} (numbered : (clausesAt place node)[number]? = some clause)
    {body : Place × Node} (holds : clause.statements = some body) (index : Nat) {flags : Flags}
    (clear : ∀ other, other ≠ place → flags other = false) :
    runInserted (standingAt (allSwitchEdits runtime probe root) (.statement (index :: body.1)))
        flags =
      runInserted ((if index = 0 then
          [if fallenInto (clausesAt place node) number then .hitUnlessFell place number
            else .hit place number]
        else []) ++
        if clause.fallthrough.map Prod.fst = some (index :: body.1) then [.fell place] else [])
        flags := by
  have among := List.mem_of_getElem? numbered
  have ⟨inClause, inSwitch⟩ := ofSwitch_statement among holds index
  have first : clause.anchor = .statement (index :: body.1) ↔ index = 0 := by
    rw [Clause.anchor_statement holds]
    simp [eq_comm]
  have inside : Anchor.statement (index :: body.1) ≠ .statement [] := by simp
  rw [runInserted_standingAt inside (inSwitch ▸ clear), filter_allSwitchEdits, inSwitch,
    if_pos (parsed.switch_walked stands switch), switchEditsAt, stands]
  dsimp only
  rw [if_pos switch, filter_switchEdits numbered inClause nofun, clauseEdits, List.filter_append,
    filter_fellEdit, filter_clauseEdit, if_congr first rfl rfl]
  rcases Nat.eq_zero_or_pos index with rfl | later
  · rw [if_pos rfl, if_pos rfl]
    split
    · rename_i ends
      obtain ⟨⟨at', last⟩, ends, rfl⟩ := Option.map_eq_some_iff.mp ends
      rw [fellEdit, ends, Option.map_some, Option.toList_some, List.singleton_append,
        editsLeftToRight, Woven.leftToRight_pair]
      · rfl
      · exact (parsed.offset_fallthrough stands among holds ends).symm
      · rfl
    · rfl
  · rw [if_neg later.ne', if_neg later.ne', List.append_nil, List.nil_append]
    split
    · rename_i ends
      obtain ⟨ending, ends, -⟩ := Option.map_eq_some_iff.mp ends
      rw [fellEdit, ends]
      rfl
    · rfl

theorem runInserted_closing (parsed : Parsed root) {place : Place} {node : Node}
    (stands : root.subtree? place = some node) (switch : (Node.kind node).isSwitch = true)
    {clause : Clause} {number : Nat} (numbered : (clausesAt place node)[number]? = some clause)
    (empty : clause.statements = none) {flags : Flags}
    (clear : ∀ other, other ≠ place → flags other = false) :
    runInserted (standingAt (allSwitchEdits runtime probe root) (.clauseEnd clause.place)) flags =
      runInserted [if fallenInto (clausesAt place node) number then .hitUnlessFell place number
        else .hit place number] flags := by
  have among := List.mem_of_getElem? numbered
  have at' : clause.anchor = .clauseEnd clause.place := by rw [Clause.anchor, empty]
  have inSwitch : (Anchor.clauseEnd clause.place).switch = place := by
    rw [← at', Clause.anchor_switch among]
  have none : clause.fallthrough = none := by rw [Clause.fallthrough, empty]; rfl
  have inside : Anchor.clauseEnd clause.place ≠ .statement [] := by simp
  rw [runInserted_standingAt inside (inSwitch ▸ clear), filter_allSwitchEdits, inSwitch,
    if_pos (parsed.switch_walked stands switch), switchEditsAt, stands]
  dsimp only
  rw [if_pos switch, filter_switchEdits numbered rfl (fun _ same => by cases same), clauseEdits,
    List.filter_append, filter_clauseEdit, if_pos at', fellEdit, none]
  rfl

theorem runInserted_brace (parsed : Parsed root) {place : Place} {node : Node}
    (stands : root.subtree? place = some node) (switch : (Node.kind node).isSwitch = true)
    (unguarded : needsDefault node = true) {flags : Flags}
    (clear : ∀ other, other ≠ place → flags other = false) :
    runInserted (standingAt (allSwitchEdits runtime probe root) (.brace place)) flags =
      runInserted [.hit place (clausesAt place node).length] flags := by
  have others {edits : List SwitchEdit} (elsewhere : ∀ edit ∈ edits, edit.anchor ≠ .brace place) :
      edits.filter (isAnchored (.brace place)) = [] :=
    List.filter_eq_nil_iff.mpr fun edit member holds => by
      rw [isAnchored, Bool.and_eq_true] at holds
      exact elsewhere edit member (of_decide_eq_true holds.2)
  have inside : Anchor.brace place ≠ .statement [] := by simp
  have walked := parsed.switch_walked stands switch
  rw [runInserted_standingAt inside clear, filter_allSwitchEdits, if_pos (by exact walked)]
  change runInserted ((editsLeftToRight
    ((switchEditsAt runtime probe root place).filter _)).map _) flags = _
  rw [switchEditsAt, stands]
  dsimp only
  rw [if_pos switch, switchEdits]
  simp only [List.filter_append]
  rw [others, others, others, if_pos unguarded]
  · simp [isAnchored, defaultEdit, Inserted.isDeclare]
    rfl
  · intro edit member same
    obtain ⟨⟨clause, index⟩, -, rfl⟩ := List.mem_map.mp member
    have other : clause.anchor = .brace place := same
    rw [Clause.anchor] at other
    cases holds : clause.statements <;> rw [holds] at other <;> cases other
  · intro edit member same
    obtain ⟨clause, -, made⟩ := List.mem_filterMap.mp member
    obtain ⟨ending, -, rfl⟩ := Option.map_eq_some_iff.mp made
    cases same
  · intro edit member same
    obtain ⟨declared, -, rfl⟩ := Option.map_eq_some_iff.mp (Option.mem_toList.mp member)
    cases same

def IsBody (root : Node) (place : Place) (number : Nat) (list : Place) : Prop :=
  ∃ node clause body, root.subtree? place = some node ∧ (Node.kind node).isSwitch = true ∧
    (clausesAt place node)[number]? = some clause ∧ clause.statements = some (list, body)

theorem runInserted_other {index : Nat} {list : Place}
    (other : ∀ place number, ¬ IsBody root place number list) :
    runInserted (standingAt (allSwitchEdits runtime probe root) (.statement (index :: list)))
      quiet = (quiet, []) := by
  have inside : Anchor.statement (index :: list) ≠ .statement [] := by simp
  have none : (allSwitchEdits runtime probe root).filter
      (isAnchored (.statement (index :: list))) = [] := by
    refine List.filter_eq_nil_iff.mpr fun edit member holds => ?_
    rw [isAnchored, Bool.and_eq_true, Bool.not_eq_true'] at holds
    have at' := of_decide_eq_true holds.2
    obtain ⟨place, -, own⟩ := List.mem_flatMap.mp member
    rw [switchEditsAt] at own
    split at own
    · rename_i node stands
      split at own
      · rename_i switch
        simp only [switchEdits, List.mem_append, Option.mem_toList, List.mem_filterMap,
          List.mem_map] at own
        rcases own with ((declared | ⟨clause, among, made⟩) | ⟨⟨clause, number⟩, among, rfl⟩) | rest
        · obtain ⟨made, -, rfl⟩ := Option.map_eq_some_iff.mp declared
          cases holds.1
        · obtain ⟨⟨ending, last⟩, ends, rfl⟩ := Option.map_eq_some_iff.mp made
          obtain ⟨bodyPlace, body, last', holds', -, -, same⟩ := clause.fallthrough_eq_some ends
          obtain ⟨number, numbered⟩ := List.getElem?_of_mem among
          have at'' : ending = index :: list := Anchor.statement.inj at'
          cases at''.symm.trans same
          exact other place number ⟨node, clause, body, stands, switch, numbered, holds'⟩
        · have at'' : clause.anchor = .statement (index :: list) := at'
          rw [Clause.anchor] at at''
          cases holds' : clause.statements <;> rw [holds'] at at'' <;> cases at''
          exact other place number ⟨node, clause, _, stands, switch,
            List.mk_mem_zipIdx_iff_getElem?.mp among, holds'⟩
        · split at rest
          · cases List.mem_singleton.mp rest
            cases at'
          · cases rest
      · cases own
    · cases own
  have clear : ∀ switch, switch ≠ (Anchor.statement (index :: list)).switch →
      quiet switch = false := fun _ _ => rfl
  rw [runInserted_standingAt inside clear, none]
  rfl

end Clause

end Supercov.Go
