import Supercov.Go.Tree
import Supercov.Library.Woven

/-!
# The rewritten text

The edits are inserted from the right to the left, and each place is followed by a comment that
tells Go which line and column the text after it was written at.

Each clause gets a probe at its first statement, or at its end when it has none.  A clause that
falls through sets the switch's flag, and the clause after it records nothing while the flag is
set, but clears it.  A switch without a `default`, unless it is a `select`, gets one.
-/

open scoped List

namespace Supercov.Go

variable (source : List UInt8)

def lineStarts : List Nat :=
  0 :: (source.zipIdx.filter fun letter => letter.1 = 10).map fun letter => letter.2 + 1

def lineComment (offset : Nat) : List UInt8 :=
  let lines := lineStarts source
  let line := (lines.takeWhile fun start => start ≤ offset).length
  let column := offset - lines.getD (line - 1) 0 + 1
  ("/*line :" ++ toString line ++ ":" ++ toString column ++ "*/").toUTF8.toList

def GoEdit.bytes (edit : GoEdit) : List UInt8 := edit.text.toUTF8.toList

def rewrite (edits : List GoEdit) : List UInt8 :=
  ((Woven.ordered GoEdit.offset GoEdit.rank edits).foldl
    (Woven.insert GoEdit.offset GoEdit.bytes (lineComment source)) (source, none)).1

abbrev leftToRight (edits : List GoEdit) : List GoEdit :=
  Woven.leftToRight GoEdit.offset GoEdit.rank edits

/-- The text of an edit stands in the rewritten one, with the source before its byte on its left
and the source after it on its right. -/
def Stands (edits : List GoEdit) (edit : GoEdit) : Prop :=
  ∃ left right, rewrite source edits = left ++ edit.bytes ++ right ∧
    source.take edit.offset <+ left ∧ source.drop edit.offset <+ right

def StandBoth (edits : List GoEdit) (first second : GoEdit) : Prop :=
  ∃ left middle right, rewrite source edits =
      left ++ first.bytes ++ (middle ++ second.bytes ++ right) ∧
    source.take first.offset <+ left ∧
    (source.drop first.offset).take (second.offset - first.offset) <+ middle ∧
    source.drop second.offset <+ right

variable {source}

theorem pairwise_leftToRight (edits : List GoEdit) :
    (leftToRight edits).Pairwise fun left right => left.offset ≤ right.offset :=
  Woven.pairwise_leftToRight edits

theorem mem_leftToRight {edits : List GoEdit} {edit : GoEdit} :
    edit ∈ leftToRight edits ↔ edit ∈ edits :=
  Woven.mem_leftToRight

theorem rewrite_eq_woven {edits : List GoEdit}
    (within : ∀ edit ∈ edits, edit.offset ≤ source.length) :
    rewrite source edits =
      Woven.woven GoEdit.offset GoEdit.bytes (lineComment source) source 0 (leftToRight edits) := by
  have placed : (leftToRight edits).reverse.foldl
      (Woven.insert GoEdit.offset GoEdit.bytes (lineComment source)) (source, none) = _ :=
    Woven.foldl_insert (pairwise_leftToRight edits)
      fun edit member => within edit (mem_leftToRight.mp member)
  rw [leftToRight, Woven.leftToRight, List.reverse_reverse] at placed
  rw [rewrite, placed]
  rfl

abbrev wovenAfter (source : List UInt8) (edit : GoEdit) (after : List GoEdit) : List UInt8 :=
  Woven.marked GoEdit.offset (lineComment source) edit after ++
    Woven.woven GoEdit.offset GoEdit.bytes (lineComment source) source edit.offset after

theorem drop_sublist_wovenAfter {edit : GoEdit} {after : List GoEdit}
    (sorted : (edit :: after).Pairwise fun left right => left.offset ≤ right.offset) :
    source.drop edit.offset <+ wovenAfter source edit after :=
  have ⟨first, sorted⟩ := List.pairwise_cons.mp sorted
  (Woven.drop_sublist_woven sorted first).trans (List.sublist_append_right _ _)

theorem rewrite_parted {edits before after : List GoEdit} {edit : GoEdit}
    (within : ∀ edit ∈ edits, edit.offset ≤ source.length)
    (parted : leftToRight edits = before ++ edit :: after) :
    ∃ left, rewrite source edits = left ++ edit.bytes ++ wovenAfter source edit after ∧
      source.take edit.offset <+ left := by
  have sorted := pairwise_leftToRight edits
  rw [parted] at sorted
  rw [rewrite_eq_woven within, parted]
  exact Woven.woven_append sorted fun _ _ => Nat.zero_le _

theorem stands_of_mem {edits : List GoEdit}
    (within : ∀ edit ∈ edits, edit.offset ≤ source.length) {edit : GoEdit} (member : edit ∈ edits) :
    Stands source edits edit := by
  have sorted := pairwise_leftToRight edits
  obtain ⟨before, after, parted⟩ := List.append_of_mem (mem_leftToRight.mpr member)
  obtain ⟨left, same, kept⟩ := rewrite_parted within parted
  rw [parted] at sorted
  exact ⟨left, _, same, kept, drop_sublist_wovenAfter (List.pairwise_append.mp sorted).2.1⟩

theorem standBoth_of_sublist {edits : List GoEdit}
    (within : ∀ edit ∈ edits, edit.offset ≤ source.length) {first second : GoEdit}
    (order : [first, second] <+ leftToRight edits) : StandBoth source edits first second := by
  have sorted := pairwise_leftToRight edits
  obtain ⟨early, late, parted, inEarly, inLate⟩ := List.cons_sublist_iff.mp order
  obtain ⟨before, between, rfl⟩ := List.append_of_mem inEarly
  obtain ⟨between', after, rfl⟩ := List.append_of_mem (List.singleton_sublist.mp inLate)
  rw [List.append_assoc, List.cons_append, ← List.append_assoc] at parted
  obtain ⟨left, same, kept⟩ := rewrite_parted within parted
  rw [parted] at sorted
  have ⟨first', sorted⟩ := List.pairwise_cons.mp (List.pairwise_append.mp sorted).2.1
  obtain ⟨middle, same', kept'⟩ := Woven.woven_append
    sorted
    fun other member => first' other (by
      rcases List.mem_append.mp member with early | last
      · exact List.mem_append_left _ early
      · exact List.mem_append_right _ (List.mem_singleton.mp last ▸ List.mem_cons_self))
  refine ⟨left, Woven.marked GoEdit.offset (lineComment source) first
      (between ++ between' ++ second :: after) ++ middle,
    wovenAfter source second after, ?_, kept, kept'.trans (List.sublist_append_right _ _),
    drop_sublist_wovenAfter (List.pairwise_append.mp sorted).2.1⟩
  rw [same, wovenAfter, same']
  simp only [List.append_assoc]

end Supercov.Go

namespace Supercov.Go

open PlacedTree (Place)

structure Clause where
  place : Place
  node : Node

def clausesAt (place : Place) (node : Node) : List Clause :=
  node.children.zipIdx.filterMap fun child =>
    if (Node.kind child.1).isCase then some ⟨child.2 :: place, child.1⟩ else none

namespace Clause

variable (clause : Clause)

def statements : Option (Place × Node) :=
  (clause.node.children.zipIdx.find? fun child => Node.kind child.1 = .statementList).map
    fun child => (child.2 :: clause.place, child.1)

/-- The `fallthrough` that it ends with. -/
def fallthrough : Option (Place × Node) := do
  let (place, body) ← clause.statements
  let (last, index) ← (body.children.zipIdx.filter fun child => Node.isNamed child.1).getLast?
  if Node.kind last = .fallthroughStatement then some (index :: place, last) else none

end Clause

inductive Inserted where
  | declare (switch : Place)
  | fell (switch : Place)
  | hit (switch : Place) (alternative : Nat)
  | hitUnlessFell (switch : Place) (alternative : Nat)
  deriving DecidableEq

/-- Where it stands: before a statement, at the end of a clause without one, or in a `default` of
its own before the brace of a switch. -/
inductive Anchor where
  | statement (place : Place)
  | clauseEnd (place : Place)
  | brace (place : Place)
  deriving DecidableEq

structure SwitchEdit where
  anchor : Anchor
  inserted : Inserted
  edit : GoEdit

/-- Whether no clause of the switch is a `default`, and an added one does not change what it does:
a `select` without one blocks. -/
def needsDefault (node : Node) : Bool :=
  !(clausesOf node).any (fun clause : Node => clause.kind = .defaultCase) &&
    Node.kind node ≠ .selectStatement

def fallenInto (clauses : List Clause) (index : Nat) : Bool :=
  0 < index && (clauses[index - 1]?).any fun clause => clause.fallthrough.isSome

section Labels

variable (source : List UInt8)

/-- The white space of Unicode, encoded. -/
def blanks : List (List UInt8) :=
  ['\t', '\n', '\x0b', '\x0c', '\r', ' ', '\u0085', '\u00a0', '\u1680', '\u2000', '\u2001', '\u2002',
    '\u2003', '\u2004', '\u2005', '\u2006', '\u2007', '\u2008', '\u2009', '\u200a', '\u2028', '\u2029',
    '\u202f', '\u205f', '\u3000'].map String.utf8EncodeChar

def dropBlanks (blanks : List (List UInt8)) : Nat → List UInt8 → List UInt8
  | 0, text => text
  | fuel + 1, text =>
    match blanks.find? fun blank => blank.isPrefixOf text with
    | some blank => dropBlanks blanks fuel (text.drop blank.length)
    | none => text

def trim (text : List UInt8) : List UInt8 :=
  let text := dropBlanks blanks text.length text
  (dropBlanks (blanks.map List.reverse) text.length text.reverse).reverse

def firstLine (node : Node) : List UInt8 :=
  trim ((Node.text node source).takeWhile fun letter => letter ≠ 10)

/-- The labels that the alternatives of a switch are told apart by. -/
def labels (node : Node) : List (List UInt8) :=
  (clausesOf node).map (fun clause =>
    if Node.kind clause = .defaultCase then "default".toUTF8.toList else firstLine source clause) ++
    if needsDefault node then ["no case matched".toUTF8.toList] else []

end Labels

section Edits

/-! `probe` numbers the alternatives of the file. -/

variable (runtime : String) (probe : Place → Nat → Nat) (root : Node)

def callText (call : String) : String := call ++ "; "

def hitText (place : Place) (alternative : Nat) : String :=
  runtime ++ ".A(" ++ toString (probe place alternative) ++ ")"

def fellEdit (place : Place) (node : Node) (clause : Clause) : Option SwitchEdit :=
  clause.fallthrough.map fun ending =>
    { anchor := .statement ending.1, inserted := .fell place
      edit :=
        { offset := Node.startByte ending.2, rank := 100
          text := callText (flagName "_scvFell" node ++ " = true") } }

def Clause.anchor (clause : Clause) : Anchor :=
  match clause.statements with
  | some (place, _) => .statement (0 :: place)
  | none => .clauseEnd clause.place

def Clause.probeOffset (clause : Clause) : Nat :=
  match clause.statements with
  | some (_, body) => Node.startByte body
  | none => Node.endByte clause.node

def clauseEdit (place : Place) (node : Node) (fallen : Bool) (clause : Clause) (index : Nat) :
    SwitchEdit :=
  let flag := flagName "_scvFell" node
  { anchor := clause.anchor
    inserted := if fallen then .hitUnlessFell place index else .hit place index
    edit :=
      { offset := clause.probeOffset, rank := 100
        text :=
          if fallen then
            "if " ++ flag ++ " \x7b " ++ flag ++ " = false \x7d else \x7b " ++
              hitText runtime probe place index ++ " \x7d; "
          else callText (hitText runtime probe place index) } }

def defaultEdit (place : Place) (node : Node) : SwitchEdit :=
  { anchor := .brace place, inserted := .hit place (clausesAt place node).length
    edit :=
      { offset := Node.endByte node - 1, rank := 100
        text := (if (clausesAt place node).isEmpty then "" else "; ") ++ "default: " ++
          hitText runtime probe place (clausesAt place node).length ++ " " } }

def declareEdit (place : Place) : Option SwitchEdit :=
  (flagDeclaration root place).map fun declared =>
    { anchor := .statement declared.1, inserted := .declare place, edit := declared.2 }

def switchEdits (place : Place) (node : Node) : List SwitchEdit :=
  let clauses := clausesAt place node
  (declareEdit root place).toList ++ clauses.filterMap (fellEdit place node) ++
    clauses.zipIdx.map (fun clause =>
      clauseEdit runtime probe place node (fallenInto clauses clause.2) clause.1 clause.2) ++
    if needsDefault node then [defaultEdit runtime probe place node] else []

def switchEditsAt (place : Place) : List SwitchEdit :=
  match root.subtree? place with
  | some node =>
    if (Node.kind node).isSwitch then switchEdits runtime probe root place node else []
  | none => []

def allSwitchEdits : List SwitchEdit :=
  (walked [] root).flatMap (switchEditsAt runtime probe root)

end Edits

end Supercov.Go
