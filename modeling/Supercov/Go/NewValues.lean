import Supercov.Go.Switches
import Supercov.Units.Sliced

/-!
# A stand-in for `new` of a value

The grammar takes the argument of `new` for a type, so that where it is none the parse reads
another name of three bytes in its place.  The scan for these calls walks the bytes of a file and
passes what is in comments, strings and runes.
-/

namespace Supercov.Go.NewValues

open Units (Text newline slice)

section Scan

def isIdentifierByte (byte : UInt8) : Bool :=
  48 ≤ byte ∧ byte ≤ 57 ∨ 65 ≤ byte ∧ byte ≤ 90 ∨ 97 ≤ byte ∧ byte ≤ 122 ∨ byte = 95 ∨ 128 ≤ byte

def isAsciiWhitespace (byte : UInt8) : Bool :=
  byte = 32 ∨ byte = 9 ∨ byte = 10 ∨ byte = 12 ∨ byte = 13

/-- `&bytes[at..]`. -/
def rest (bytes : Text) (start : Nat) : Option Text :=
  if start ≤ bytes.length then some (bytes.drop start) else none

def position (mark bytes : Text) : Option Nat :=
  bytes.tails.findIdx? fun tail => mark.isPrefixOf tail

/-- The end of a literal from inside of it, none where it has none. -/
def literalEnd (quote : UInt8) : Nat → Text → Option Nat
  | _, [] => none
  | cursor, byte :: bytes =>
    -- an escape takes whatever follows it
    if byte = 92 then
      match bytes with
      | [] => none
      | _ :: bytes => literalEnd quote (cursor + 2) bytes
    else if byte = newline then some cursor
    else if byte = quote then some (cursor + 1)
    else literalEnd quote (cursor + 1) bytes

/-- Just past the comment or literal that starts here; none of the outer option where an index is
out of the bytes. -/
def skipLiteralOrComment (bytes : Text) (start : Nat) : Option (Option Nat) := do
  let here ← rest bytes start
  if [47, 47].isPrefixOf here then
    return some (((position [newline] here).map fun stop => start + stop).getD bytes.length)
  if [47, 42].isPrefixOf here then
    let inside ← rest bytes (start + 2)
    return some (((position [42, 47] inside).map fun stop => start + 4 + stop).getD bytes.length)
  let byte ← bytes[start]?
  if byte = 96 then
    let inside ← rest bytes (start + 1)
    return some (((position [96] inside).map fun stop => start + 2 + stop).getD bytes.length)
  if byte = 34 ∨ byte = 39 then
    let inside ← rest bytes (start + 1)
    return some ((literalEnd byte (start + 1) inside).getD bytes.length)
  return none

/-- Whether a name or a dot stands in front. -/
def continues (bytes : Text) (start : Nat) : Option Bool :=
  if 0 < start then
    (bytes[start - 1]?).map fun before => isIdentifierByte before || before = 46
  else some false

/-- Whether `new` starts here as the builtin, and where its argument list opens. -/
def builtinNewAt (bytes : Text) (start : Nat) : Option (Option Nat) := do
  let here ← rest bytes start
  if ¬ [110, 101, 119].isPrefixOf here then return none
  if ← continues bytes start then return none
  let list := start + 3 + ((bytes.drop (start + 3)).takeWhile isAsciiWhitespace).length
  return if bytes[list]? = some 40 then some list else none

/-- The loop of `closingParenthesis`, none where it has not ended in as many steps. -/
def closingFrom (bytes : Text) : Nat → Nat → Nat → Option (Option Nat)
  | 0, _, _ => none
  | fuel + 1, depth, start => do
    if bytes.length ≤ start then return none
    match ← skipLiteralOrComment bytes start with
    | some past => closingFrom bytes fuel depth past
    | none =>
      let byte ← bytes[start]?
      if byte = 40 then closingFrom bytes fuel (depth + 1) (start + 1)
      else if byte = 41 then
        if depth - 1 = 0 then return some start else closingFrom bytes fuel (depth - 1) (start + 1)
      else closingFrom bytes fuel depth (start + 1)

def closingParenthesis (bytes : Text) (list : Nat) : Option (Option Nat) :=
  closingFrom bytes (bytes.length + 1) 0 list

section Parsing

variable (parseExactly : Text → Bool)

/-- The grammar's answer to a declaration that names the argument as its type. -/
def parsesAsAType (argument : Text) : Bool :=
  parseExactly ("package p\n\nvar _ ".toUTF8.toList ++ trim argument ++ [newline])

def standIn : Text := [110, 69, 119]

def replaceRange (text : Text) (start stop : Nat) (by_ : Text) : Option Text := do
  let before ← slice text 0 start
  let after ← slice text stop text.length
  return before ++ by_ ++ after

def scan (source : Text) : Nat → Nat → Option Text → Option (Option Text)
  | 0, _, _ => none
  | fuel + 1, start, masked => do
    if source.length ≤ start then return masked
    match ← skipLiteralOrComment source start with
    | some past => scan source fuel past masked
    | none =>
      match ← builtinNewAt source start with
      | none => scan source fuel (start + 1) masked
      | some list =>
        match ← closingParenthesis source list with
        | none => scan source fuel (start + 3) masked
        | some close =>
          let argument ← slice source (list + 1) close
          if parsesAsAType parseExactly argument then scan source fuel (start + 3) masked
          else
            let replaced ← replaceRange (masked.getD source) start (start + 3) standIn
            scan source fuel (start + 3) (some replaced)

/-- The text with the stand-ins where there are any; none of the outer option where the scan
panics or has not ended in as many steps as there are bytes. -/
def standInForNewValues (source : Text) : Option (Option Text) :=
  scan parseExactly source (source.length + 1) 0 none

end Parsing

end Scan

/-! ## Comments, strings and runes -/

section Lexical

structure First (mark text : Text) (start place : Nat) : Prop where
  start_le : start ≤ place
  stands : mark <+: text.drop place
  earliest : ∀ earlier, start ≤ earlier → earlier < place → ¬ mark <+: text.drop earlier

def Absent (mark text : Text) (start : Nat) : Prop :=
  ∀ place, start ≤ place → ¬ mark <+: text.drop place

variable (escapes : UInt8 → Prop) (text : Text)

/-- From inside a literal to its end: the quote, or where it has none the end of the line. -/
inductive Quoted (quote : UInt8) : Nat → Nat → Prop where
  | closed {cursor : Nat} : text[cursor]? = some quote → Quoted quote cursor (cursor + 1)
  | line {cursor : Nat} : text[cursor]? = some newline → Quoted quote cursor cursor
  | file {cursor : Nat} : text.length ≤ cursor → Quoted quote cursor text.length
  | escaped {cursor stop : Nat} {byte : UInt8} : text[cursor]? = some 92 →
      text[cursor + 1]? = some byte → escapes byte → Quoted quote (cursor + 2) stop →
      Quoted quote cursor stop
  | unescaped {cursor stop : Nat} : text[cursor]? = some 92 →
      (∀ byte, text[cursor + 1]? = some byte → ¬ escapes byte) → Quoted quote (cursor + 1) stop →
      Quoted quote cursor stop
  | plain {cursor stop : Nat} {byte : UInt8} : text[cursor]? = some byte →
      byte ≠ quote → byte ≠ newline → byte ≠ 92 → Quoted quote (cursor + 1) stop →
      Quoted quote cursor stop

/-- A comment or literal from its start to its end. -/
inductive Element : Nat → Nat → Prop where
  | lineComment {start stop : Nat} : [47, 47] <+: text.drop start →
      First [newline] text start stop → Element start stop
  | lastLine {start : Nat} : [47, 47] <+: text.drop start → Absent [newline] text start →
      Element start text.length
  | comment {start last : Nat} : [47, 42] <+: text.drop start →
      First [42, 47] text (start + 2) last → Element start (last + 2)
  | openComment {start : Nat} : [47, 42] <+: text.drop start →
      Absent [42, 47] text (start + 2) → Element start text.length
  | raw {start last : Nat} : text[start]? = some 96 →
      First [96] text (start + 1) last → Element start (last + 1)
  | openRaw {start : Nat} : text[start]? = some 96 → Absent [96] text (start + 1) →
      Element start text.length
  | literal {start stop : Nat} {quote : UInt8} : text[start]? = some quote →
      quote = 34 ∨ quote = 39 → Quoted escapes text quote (start + 1) stop → Element start stop

def Starts (start : Nat) : Prop :=
  [47, 47] <+: text.drop start ∨ [47, 42] <+: text.drop start ∨
    ∃ byte, text[start]? = some byte ∧ (byte = 96 ∨ byte = 34 ∨ byte = 39)

/-- The places that the text is read at from its start, comments and literals as wholes. -/
inductive Read : Nat → Prop where
  | start : Read 0
  | element {start stop : Nat} : Read start → Element escapes text start stop → Read stop
  | byte {start : Nat} : Read start → start < text.length → ¬ Starts text start → Read (start + 1)

def Outside (start : Nat) : Prop := Read escapes text start ∧ ¬ Starts text start

/-- From inside of as many parentheses to the one that closes the first. -/
inductive Closes : Nat → Nat → Nat → Prop where
  | element {depth start stop close : Nat} : Element escapes text start stop →
      Closes depth stop close → Closes depth start close
  | deeper {depth start close : Nat} : text[start]? = some 40 → Closes (depth + 1) (start + 1) close →
      Closes depth start close
  | back {depth start close : Nat} : text[start]? = some 41 → Closes depth (start + 1) close →
      Closes (depth + 1) start close
  | last {start : Nat} : text[start]? = some 41 → Closes 0 start start
  | other {depth start close : Nat} {byte : UInt8} : text[start]? = some byte → ¬ Starts text start →
      byte ≠ 40 → byte ≠ 41 → Closes depth (start + 1) close → Closes depth start close

/-- The builtin called with arguments. -/
structure Called (start : Nat) : Prop where
  outside : Outside escapes text start
  named : [110, 101, 119] <+: text.drop start
  alone : ∀ before byte, start = before + 1 → text[before]? = some byte →
    ¬ isIdentifierByte byte ∧ byte ≠ 46
  closes : ∃ list close, start + 3 ≤ list ∧
    (∀ place byte, start + 3 ≤ place → place < list → text[place]? = some byte →
      isAsciiWhitespace byte) ∧
    text[list]? = some 40 ∧ Closes escapes text 0 (list + 1) close

end Lexical

section Skipping

/-- An escape takes whatever follows it. -/
abbrev anything : UInt8 → Prop := fun _ => True

variable {mark bytes : Text} {start : Nat}

theorem prefix_tails (place : Nat) (bound : place < (bytes.drop start).tails.length) :
    mark.isPrefixOf (bytes.drop start).tails[place] ↔ mark <+: bytes.drop (start + place) := by
  rw [List.getElem_tails, List.drop_drop, List.isPrefixOf_iff_prefix]

theorem first_of_position {place : Nat} (found : position mark (bytes.drop start) = some place) :
    First mark bytes start (start + place) := by
  obtain ⟨bound, stands, earlier⟩ := List.findIdx?_eq_some_iff_getElem.mp found
  refine ⟨Nat.le_add_right start place, (prefix_tails place bound).mp stands, ?_⟩
  intro before start_le lt stands_before
  obtain ⟨offset, rfl⟩ := Nat.exists_eq_add_of_le start_le
  have lt : offset < place := by omega
  exact earlier offset lt ((prefix_tails offset (lt.trans bound)).mpr stands_before)

theorem absent_of_position (nonempty : mark ≠ []) (none : position mark (bytes.drop start) = none) :
    Absent mark bytes start := by
  have nowhere := List.findIdx?_eq_none_iff.mp none
  intro place start_le stands
  obtain ⟨offset, rfl⟩ := Nat.exists_eq_add_of_le start_le
  by_cases bound : offset < (bytes.drop start).tails.length
  · have holds := (prefix_tails offset bound).mpr stands
    exact Bool.false_ne_true ((nowhere _ (List.getElem_mem bound)).symm.trans holds)
  · rw [List.length_tails, List.length_drop] at bound
    rw [List.drop_eq_nil_of_le (by omega)] at stands
    exact nonempty (List.prefix_nil.mp stands)

theorem getElem?_of_drop {byte : UInt8} {later : Text} (same : bytes.drop start = byte :: later) :
    bytes[start]? = some byte ∧ bytes.drop (start + 1) = later := by
  constructor
  · rw [← Nat.add_zero start, ← List.getElem?_drop, same]
    rfl
  · rw [← List.drop_drop, same]
    rfl

theorem length_le_of_drop (same : bytes.drop start = []) : bytes.length ≤ start :=
  List.drop_eq_nil_iff.mp same

theorem quoted_literalEnd (quote : UInt8) (later : Text) (cursor : Nat)
    (same : bytes.drop cursor = later) :
    Quoted anything bytes quote cursor ((literalEnd quote cursor later).getD bytes.length) := by
  fun_induction literalEnd quote cursor later with
  | case1 cursor => exact .file (length_le_of_drop same)
  | case2 cursor =>
    obtain ⟨found, after⟩ := getElem?_of_drop same
    apply Quoted.unescaped found
    · intro byte next
      have past := length_le_of_drop after
      rw [List.getElem?_eq_none past] at next
      cases next
    · exact .file (length_le_of_drop after)
  | case3 cursor next later ih =>
    obtain ⟨found, after⟩ := getElem?_of_drop same
    obtain ⟨found', after'⟩ := getElem?_of_drop after
    exact .escaped found found' trivial (ih after')
  | case4 cursor later notEscape =>
    exact .line (getElem?_of_drop same).1
  | case5 cursor later notEscape notLine =>
    exact .closed (getElem?_of_drop same).1
  | case6 cursor byte later notEscape notLine notQuote ih =>
    obtain ⟨found, after⟩ := getElem?_of_drop same
    exact .plain found notQuote notLine notEscape (ih after)

theorem Quoted.le {escapes : UInt8 → Prop} {quote : UInt8} {cursor stop : Nat}
    (quoted : Quoted escapes bytes quote cursor stop) (within : cursor ≤ bytes.length) :
    cursor ≤ stop := by
  induction quoted with
  | closed => exact Nat.le_succ _
  | line => exact Nat.le_refl _
  | file => exact within
  | escaped found next _ _ ih =>
    have := (List.getElem?_eq_some_iff.mp next).1
    have := ih (by omega)
    omega
  | unescaped found _ _ ih =>
    have := (List.getElem?_eq_some_iff.mp found).1
    have := ih (by omega)
    omega
  | plain found _ _ _ _ ih =>
    have := (List.getElem?_eq_some_iff.mp found).1
    have := ih (by omega)
    omega

theorem Element.starts {escapes : UInt8 → Prop} {stop : Nat}
    (element : Element escapes bytes start stop) : Starts bytes start := by
  cases element with
  | lineComment opens | lastLine opens => exact Or.inl opens
  | comment opens | openComment opens => exact Or.inr (Or.inl opens)
  | raw opens | openRaw opens => exact Or.inr (Or.inr ⟨_, opens, Or.inl rfl⟩)
  | literal opens kind => exact Or.inr (Or.inr ⟨_, opens, Or.inr kind⟩)

theorem lt_length_of_starts (starts : Starts bytes start) : start < bytes.length := by
  by_contra past
  have nothing : bytes.drop start = [] := List.drop_eq_nil_of_le (Nat.le_of_not_lt past)
  rcases starts with opens | opens | ⟨byte, found, -⟩
  · rw [nothing] at opens
    cases List.prefix_nil.mp opens
  · rw [nothing] at opens
    cases List.prefix_nil.mp opens
  · exact past (List.getElem?_eq_some_iff.mp found).1

theorem Element.lt {escapes : UInt8 → Prop} {stop : Nat}
    (element : Element escapes bytes start stop) : start < stop := by
  have within := lt_length_of_starts element.starts
  cases element with
  | lineComment opens first =>
    -- a comment starts with a slash and ends at a line feed
    apply Nat.lt_of_le_of_ne first.start_le
    rintro rfl
    obtain ⟨later, same⟩ := opens
    obtain ⟨later', same'⟩ := first.stands
    rw [← same'] at same
    cases same
  | lastLine => exact within
  | comment opens first =>
    have := first.start_le
    omega
  | openComment => exact within
  | raw opens first =>
    have := first.start_le
    omega
  | openRaw => exact within
  | literal opens _ quoted => exact quoted.le within

theorem not_starts {byte : UInt8} (found : bytes[start]? = some byte)
    (plain : byte ≠ 47 ∧ byte ≠ 96 ∧ byte ≠ 34 ∧ byte ≠ 39) : ¬ Starts bytes start := by
  have head : ∀ mark, (47 :: mark) <+: bytes.drop start → byte = 47 := by
    rintro mark ⟨later, same⟩
    exact Option.some.inj (found.symm.trans (getElem?_of_drop same.symm).1)
  rintro (opens | opens | ⟨other, here, kinds⟩)
  · exact plain.1 (head _ opens)
  · exact plain.1 (head _ opens)
  · cases found.symm.trans here
    rcases kinds with raw | double | single
    · exact plain.2.1 raw
    · exact plain.2.2.1 double
    · exact plain.2.2.2 single

structure Skips (bytes : Text) (start : Nat) (answer : Option Nat) : Prop where
  element : ∀ past, answer = some past → Element anything bytes start past
  none : answer = none → ¬ Starts bytes start

theorem element_lineComment (opens : [47, 47] <+: bytes.drop start) :
    Element anything bytes start
      (((position [newline] (bytes.drop start)).map fun stop => start + stop).getD bytes.length) := by
  cases found : position [newline] (bytes.drop start) with
  | none => exact .lastLine opens (absent_of_position (by simp) found)
  | some stop => exact .lineComment opens (first_of_position found)

theorem element_comment (opens : [47, 42] <+: bytes.drop start) :
    Element anything bytes start
      (((position [42, 47] (bytes.drop (start + 2))).map fun stop => start + 4 + stop).getD
        bytes.length) := by
  cases found : position [42, 47] (bytes.drop (start + 2)) with
  | none => exact .openComment opens (absent_of_position (by simp) found)
  | some stop =>
    have closed : Element anything bytes start _ := .comment opens (first_of_position found)
    rwa [show start + 2 + stop + 2 = start + 4 + stop by omega] at closed

theorem element_raw (opens : bytes[start]? = some 96) :
    Element anything bytes start
      (((position [96] (bytes.drop (start + 1))).map fun stop => start + 2 + stop).getD
        bytes.length) := by
  cases found : position [96] (bytes.drop (start + 1)) with
  | none => exact .openRaw opens (absent_of_position (by simp) found)
  | some stop =>
    have closed : Element anything bytes start _ := .raw opens (first_of_position found)
    rwa [show start + 1 + stop + 1 = start + 2 + stop by omega] at closed

theorem rest_eq (within : start ≤ bytes.length) : rest bytes start = some (bytes.drop start) :=
  if_pos within

theorem skips_element {past : Nat} (element : Element anything bytes start past) :
    Skips bytes start (some past) :=
  ⟨fun _ same => Option.some.inj same ▸ element, fun never => by cases never⟩

theorem skips (within : start < bytes.length) :
    ∃ answer, skipLiteralOrComment bytes start = some answer ∧ Skips bytes start answer := by
  have found := List.getElem?_eq_getElem within
  simp only [skipLiteralOrComment, rest_eq (Nat.le_of_lt within), rest_eq within, found,
    Option.bind_eq_bind, Option.bind_some, Option.pure_def]
  split_ifs with line general raw literal
  · exact ⟨_, rfl, skips_element (element_lineComment (List.isPrefixOf_iff_prefix.mp line))⟩
  · have opens := List.isPrefixOf_iff_prefix.mp general
    have two : start + 2 ≤ bytes.length := by
      have := opens.length_le
      simp at this
      omega
    rw [rest_eq two]
    exact ⟨_, rfl, skips_element (element_comment opens)⟩
  · exact ⟨_, rfl, skips_element (element_raw (raw ▸ found))⟩
  · exact ⟨_, rfl, skips_element (.literal found literal (quoted_literalEnd _ _ _ rfl))⟩
  · refine ⟨none, rfl, ?_, ?_⟩
    · intro past same
      cases same
    · rintro - (opens | opens | ⟨byte, here, kinds⟩)
      · exact line (List.isPrefixOf_iff_prefix.mpr opens)
      · exact general (List.isPrefixOf_iff_prefix.mpr opens)
      · cases found.symm.trans here
        exact kinds.elim raw literal

end Skipping

section Calls

variable {bytes : Text} {start : Nat}

/-- By induction on the steps that are left; a step passes a byte at least. -/
theorem closes_closingFrom (fuel : Nat) : ∀ depth start, 0 < depth → bytes.length - start < fuel →
    ∃ answer, closingFrom bytes fuel depth start = some answer ∧
      ∀ close, answer = some close → Closes anything bytes (depth - 1) start close := by
  induction fuel with
  | zero =>
    intro depth start _ enough
    exact absurd enough (Nat.not_lt_zero _)
  | succ fuel ih =>
    intro depth start deep enough
    rw [closingFrom]
    by_cases ended : bytes.length ≤ start
    · refine ⟨none, if_pos ended, ?_⟩
      intro close same
      cases same
    · have within : start < bytes.length := Nat.lt_of_not_le ended
      obtain ⟨skipped, skips_eq, skips⟩ := skips within
      rw [if_neg ended, skips_eq]
      cases skipped with
      | some past =>
        have element := skips.element past rfl
        have further := element.lt
        obtain ⟨answer, answers, closes⟩ := ih depth past deep (by omega)
        exact ⟨answer, answers, fun close same => .element element (closes close same)⟩
      | none =>
        have plain := skips.none rfl
        have found := List.getElem?_eq_getElem within
        simp only [Option.bind_eq_bind, Option.bind_some, found, Option.pure_def]
        split_ifs with opens closes last
        · obtain ⟨answer, answers, closes⟩ := ih (depth + 1) (start + 1) (Nat.succ_pos _) (by omega)
          refine ⟨answer, answers, fun close same => .deeper (opens ▸ found) ?_⟩
          have inner := closes close same
          rwa [show depth + 1 - 1 = depth - 1 + 1 by omega] at inner
        · refine ⟨some start, rfl, ?_⟩
          intro close same
          cases same
          rw [last]
          exact .last (closes ▸ found)
        · obtain ⟨answer, answers, closed⟩ := ih (depth - 1) (start + 1) (by omega) (by omega)
          refine ⟨answer, answers, fun close same => ?_⟩
          have outer := Closes.back (closes ▸ found) (closed close same)
          rwa [show depth - 1 - 1 + 1 = depth - 1 by omega] at outer
        · obtain ⟨answer, answers, closed⟩ := ih depth (start + 1) deep (by omega)
          exact ⟨answer, answers, fun close same => .other found plain opens closes (closed close same)⟩

theorem closes_closingParenthesis (found : bytes[start]? = some 40) :
    ∃ answer, closingParenthesis bytes start = some answer ∧
      ∀ close, answer = some close → Closes anything bytes 0 (start + 1) close := by
  have within := (List.getElem?_eq_some_iff.mp found).1
  obtain ⟨skipped, skips_eq, skips⟩ := skips within
  have opens : skipped = none := by
    cases skipped with
    | none => rfl
    | some past => exact absurd (skips.element past rfl).starts (not_starts found (by decide))
  obtain ⟨answer, answers, closes⟩ :=
    closes_closingFrom bytes.length 1 (start + 1) Nat.one_pos (show bytes.length - _ < _ by omega)
  refine ⟨answer, ?_, closes⟩
  rw [closingParenthesis, closingFrom, if_neg (Nat.not_le.mpr within), skips_eq, opens, ← answers]
  simp [found]

theorem getElem?_of_prefix {mark : Text} (stands : mark <+: bytes.drop start) {place : Nat}
    (bound : place < mark.length) : bytes[start + place]? = mark[place]? := by
  obtain ⟨later, same⟩ := stands
  rw [← List.getElem?_drop, ← same, List.getElem?_append_left bound]

theorem blank_of_takeWhile {later : Text} {offset : Nat} {byte : UInt8}
    (lt : offset < (later.takeWhile isAsciiWhitespace).length) (here : later[offset]? = some byte) :
    isAsciiWhitespace byte := by
  obtain ⟨after, whole⟩ := List.takeWhile_prefix (l := later) isAsciiWhitespace
  rw [← whole, List.getElem?_append_left lt] at here
  exact List.mem_takeWhile_imp (List.mem_of_getElem? here)

/-- What `new` is called with, where it is the builtin. -/
theorem called_builtinNewAt (within : start < bytes.length) :
    ∃ answer, builtinNewAt bytes start = some answer ∧ ∀ list, answer = some list →
      [110, 101, 119] <+: bytes.drop start ∧
        (∀ before byte, start = before + 1 → bytes[before]? = some byte →
          ¬ isIdentifierByte byte ∧ byte ≠ 46) ∧
        start + 3 ≤ list ∧
        (∀ place byte, start + 3 ≤ place → place < list → bytes[place]? = some byte →
          isAsciiWhitespace byte) ∧
        bytes[list]? = some 40 := by
  rw [builtinNewAt, rest_eq (Nat.le_of_lt within), Option.bind_eq_bind, Option.bind_some]
  by_cases named : [110, 101, 119].isPrefixOf (bytes.drop start)
  · rw [if_neg (not_not.mpr named)]
    obtain ⟨continued, answers, alone⟩ : ∃ continued, continues bytes start = some continued ∧
        (continued = false → ∀ before byte, start = before + 1 → bytes[before]? = some byte →
          ¬ isIdentifierByte byte ∧ byte ≠ 46) := by
      rw [continues]
      cases start with
      | zero =>
        refine ⟨false, rfl, ?_⟩
        intro _ before byte same
        cases same
      | succ before =>
        have found := List.getElem?_eq_getElem (Nat.lt_of_succ_lt within)
        rw [if_pos (Nat.succ_pos before), Nat.add_sub_cancel, found]
        refine ⟨_, rfl, ?_⟩
        intro free before' byte same here
        cases same
        cases found.symm.trans here
        simpa using free
    rw [answers, Option.bind_eq_bind, Option.bind_some]
    cases continued with
    | true =>
      refine ⟨none, rfl, ?_⟩
      intro list same
      cases same
    | false =>
      refine ⟨_, rfl, ?_⟩
      intro list same
      split at same
      · next opens =>
        cases same
        refine ⟨List.isPrefixOf_iff_prefix.mp named, alone rfl, Nat.le_add_right _ _, ?_, opens⟩
        intro place byte after lt here
        obtain ⟨offset, rfl⟩ := Nat.exists_eq_add_of_le after
        rw [← List.getElem?_drop] at here
        exact blank_of_takeWhile (by omega) here
      · cases same
  · rw [if_pos named]
    refine ⟨none, rfl, ?_⟩
    intro list same
    cases same

end Calls

section Masking

variable {source content : Text} {start : Nat}

/-- The text is the source but for calls that were passed. -/
structure Masks (source content : Text) (start : Nat) : Prop where
  length_eq : content.length = source.length
  differs : ∀ place, content[place]? ≠ source[place]? →
    ∃ call, Called anything source call ∧ call ≤ place ∧ place < call + 3 ∧ call + 3 ≤ start

theorem Masks.mono (masks : Masks source content start) {later : Nat} (le : start ≤ later) :
    Masks source content later where
  length_eq := masks.length_eq
  differs := by
    intro place different
    obtain ⟨call, called, call_le, lt, passed⟩ := masks.differs place different
    exact ⟨call, called, call_le, lt, passed.trans le⟩

theorem Masks.same (masks : Masks source content start) {place : Nat} (le : start ≤ place) :
    content[place]? = source[place]? := by
  by_contra different
  obtain ⟨call, -, -, lt, passed⟩ := masks.differs place different
  omega

theorem read_past_new (read : Read anything source start)
    (named : [110, 101, 119] <+: source.drop start) : Read anything source (start + 3) := by
  have n : source[start]? = some 110 := getElem?_of_prefix named (show 0 < 3 by decide)
  have e : source[start + 1]? = some 101 := getElem?_of_prefix named (show 1 < 3 by decide)
  have w : source[start + 2]? = some 119 := getElem?_of_prefix named (show 2 < 3 by decide)
  have behind_n := read.byte (List.getElem?_eq_some_iff.mp n).1 (not_starts n (by decide))
  have behind_e := behind_n.byte (List.getElem?_eq_some_iff.mp e).1 (not_starts e (by decide))
  exact behind_e.byte (List.getElem?_eq_some_iff.mp w).1 (not_starts w (by decide))

theorem masks_replaceRange (aligned : Units.Aligned source) (masks : Masks source content start)
    (called : Called anything source start) :
    ∃ replaced, replaceRange content start (start + 3) standIn = some replaced ∧
      Masks source replaced (start + 3) := by
  have n : source[start]? = some 110 := getElem?_of_prefix called.named (show 0 < 3 by decide)
  have w : source[start + 2]? = some 119 := getElem?_of_prefix called.named (show 2 < 3 by decide)
  have before : Units.Boundary content start := by
    have found : content[start]? = some 110 := (masks.same (Nat.le_refl _)).trans n
    exact .of_low found (by decide)
  have after : Units.Boundary content (start + 3) := by
    have behind := aligned.behind w (by decide)
    refine ⟨by rw [masks.length_eq]; exact behind.within, ?_⟩
    intro byte found
    rw [masks.same (Nat.le_add_right _ _)] at found
    exact behind.starts byte found
  have head : Units.slice content 0 start = some (content.take start) :=
    if_pos ⟨Nat.zero_le start, by simp [Units.isCharBoundary], before.isCharBoundary⟩
  have tail : Units.slice content (start + 3) content.length = some (content.drop (start + 3)) := by
    rw [Units.slice_of_boundary after (Units.Boundary.length content) after.within, List.take_length]
  have within := after.within
  have short : (content.take start).length = start := by
    rw [List.length_take]
    omega
  refine ⟨content.take start ++ standIn ++ content.drop (start + 3), ?_, ?_, ?_⟩
  · rw [replaceRange, head, tail]
    rfl
  · rw [List.length_append, List.length_append, short, List.length_drop, ← masks.length_eq]
    change start + 3 + _ = _
    omega
  · intro place different
    by_cases here : start ≤ place ∧ place < start + 3
    · exact ⟨start, called, here.1, here.2, Nat.le_refl _⟩
    · have kept : (content.take start ++ standIn ++ content.drop (start + 3))[place]? =
          content[place]? := by
        rcases Nat.lt_or_ge place start with lt | ge
        · rw [List.append_assoc, List.getElem?_append_left (by omega), List.getElem?_take_of_lt lt]
        · have past : (content.take start ++ standIn).length = start + 3 := by
            rw [List.length_append, short]
            rfl
          rw [List.getElem?_append_right (by omega), past, List.getElem?_drop]
          congr 1
          omega
      rw [kept] at different
      exact (masks.mono (Nat.le_add_right start 3)).differs place different

theorem Closes.spec {escapes : UInt8 → Prop} {depth close : Nat}
    (closes : Closes escapes source depth start close) :
    start ≤ close ∧ source[close]? = some 41 := by
  induction closes with
  | element element _ ih => exact ⟨element.lt.le.trans ih.1, ih.2⟩
  | deeper _ _ ih | back _ _ ih | other _ _ _ _ _ ih => exact ⟨(Nat.le_succ _).trans ih.1, ih.2⟩
  | last found => exact ⟨Nat.le_refl _, found⟩

theorem argument_isSome (aligned : Units.Aligned source) {list close : Nat}
    (opens : source[list]? = some 40) (closes : Closes anything source 0 (list + 1) close) :
    ∃ argument, slice source (list + 1) close = some argument := by
  obtain ⟨le, closed⟩ := closes.spec
  have first := aligned.behind opens (by decide)
  have last := Units.Boundary.of_low closed (by decide)
  exact ⟨_, Units.slice_of_boundary first last le⟩

/-- By induction on the steps that are left, each at a place that the text is read at. -/
theorem masks_scan (parseExactly : Text → Bool) (aligned : Units.Aligned source) (fuel : Nat) :
    ∀ start masked, source.length - start < fuel → Read anything source start →
      Masks source (masked.getD source) start →
      ∃ answer, scan parseExactly source fuel start masked = some answer ∧
        ∀ text, answer = some text → ∃ stop, Masks source text stop := by
  induction fuel with
  | zero =>
    intro start masked enough
    exact absurd enough (Nat.not_lt_zero _)
  | succ fuel ih =>
    intro start masked enough read masks
    rw [scan]
    by_cases ended : source.length ≤ start
    · refine ⟨masked, if_pos ended, ?_⟩
      intro text same
      subst same
      exact ⟨start, masks⟩
    · have within : start < source.length := Nat.lt_of_not_le ended
      obtain ⟨skipped, skips_eq, skips⟩ := skips within
      rw [if_neg ended, skips_eq]
      cases skipped with
      | some past =>
        have element := skips.element past rfl
        have further := element.lt
        exact ih past masked (by omega) (read.element element) (masks.mono further.le)
      | none =>
        have plain := skips.none rfl
        obtain ⟨builtin, builtin_eq, spec⟩ := called_builtinNewAt within
        simp only [Option.bind_eq_bind, Option.bind_some, builtin_eq]
        cases builtin with
        | none =>
          exact ih (start + 1) masked (by omega) (read.byte within plain)
            (masks.mono (Nat.le_succ start))
        | some list =>
          obtain ⟨named, alone, behind, blanks, opens⟩ := spec list rfl
          obtain ⟨closed, closed_eq, closes⟩ := closes_closingParenthesis opens
          have past := read_past_new read named
          simp only [closed_eq, Option.bind_some]
          cases closed with
          | none => exact ih (start + 3) masked (by omega) past (masks.mono (by omega))
          | some close =>
            have closes := closes close rfl
            have called : Called anything source start :=
              ⟨⟨read, plain⟩, named, alone, list, close, behind, blanks, opens, closes⟩
            obtain ⟨argument, sliced⟩ := argument_isSome aligned opens closes
            obtain ⟨replaced, replaced_eq, masks'⟩ := masks_replaceRange aligned masks called
            simp only [sliced, Option.bind_some, replaced_eq]
            split_ifs
            · exact ih (start + 3) masked (by omega) past (masks.mono (by omega))
            · exact ih (start + 3) (some replaced) (by omega) past masks'

/-- The stand-in is invisible: whatever the text is the scan ends, and where it answers a text, that
one differs from the source in the names of calls of the builtin alone. -/
theorem standIn_invisible (parseExactly : Text → Bool) (source : String) :
    ∃ answer, standInForNewValues parseExactly (Units.encoded source) = some answer ∧
      ∀ masked, answer = some masked →
        masked.length = (Units.encoded source).length ∧
        ∀ place, masked[place]? ≠ (Units.encoded source)[place]? →
          ∃ start, Called anything (Units.encoded source) start ∧ start ≤ place ∧
            place < start + 3 := by
  have start : Masks (Units.encoded source) (Units.encoded source) 0 :=
    ⟨rfl, fun _ different => absurd rfl different⟩
  obtain ⟨answer, answers, masks⟩ := masks_scan parseExactly (Units.aligned_encoded source)
    ((Units.encoded source).length + 1) 0 none (by omega) .start start
  refine ⟨answer, answers, ?_⟩
  intro masked same
  obtain ⟨stop, masks⟩ := masks masked same
  refine ⟨masks.length_eq, ?_⟩
  intro place different
  obtain ⟨call, called, call_le, lt, -⟩ := masks.differs place different
  exact ⟨call, called, call_le, lt⟩

end Masking

section Broken

/-- By Go's own rules no escape takes the end of the line, and a literal ends there. -/
abbrev escapes : UInt8 → Prop := fun byte => byte ≠ newline

theorem Quoted.unique {escapes : UInt8 → Prop} {text : Text} {quote : UInt8} {cursor stop other : Nat}
    (one : Quoted escapes text quote cursor stop) (quotes : quote = 34 ∨ quote = 39)
    (two : Quoted escapes text quote cursor other) : stop = other := by
  have notLine : quote ≠ newline := by rcases quotes with rfl | rfl <;> decide
  have notEscape : quote ≠ 92 := by rcases quotes with rfl | rfl <;> decide
  have lineNotEscape : newline ≠ 92 := by decide
  induction one with
  | closed found => cases two <;> simp_all
  | line found => cases two <;> simp_all
  | file past =>
    have nothing := List.getElem?_eq_none past
    cases two <;> simp_all
  | escaped found next escapes _ ih => cases two <;> simp_all
  | unescaped found none _ ih => cases two <;> simp_all
  | plain found _ _ _ _ ih => cases two <;> simp_all

theorem Element.quoted {escapes : UInt8 → Prop} {text : Text} {quote : UInt8} {start stop : Nat}
    (element : Element escapes text start stop) (found : text[start]? = some quote)
    (quotes : quote = 34 ∨ quote = 39) : Quoted escapes text quote (start + 1) stop := by
  have slash : ∀ mark, ¬ (47 :: mark) <+: text.drop start := by
    rintro mark ⟨later, same⟩
    cases found.symm.trans (getElem?_of_drop same.symm).1
    revert quotes
    decide
  have backquote : ¬ text[start]? = some 96 := by
    intro here
    cases found.symm.trans here
    revert quotes
    decide
  cases element with
  | lineComment opens | lastLine opens | comment opens | openComment opens =>
    exact absurd opens (slash _)
  | raw opens | openRaw opens => exact absurd opens backquote
  | literal opens _ quoted =>
    cases found.symm.trans opens
    exact quoted

def broken : String := "\"\\\n\"new(1+2)\""

def brokenBytes : Text := [34, 92, 10, 34, 110, 101, 119, 40, 49, 43, 50, 41, 34]

theorem encoded_broken : Units.encoded broken = brokenBytes := by decide

theorem read_broken {start : Nat} (read : Read escapes brokenBytes start) :
    start = 0 ∨ start = 2 ∨ start = 3 ∨ 13 ≤ start := by
  induction read with
  | start => exact Or.inl rfl
  | element _ element ih =>
    rcases ih with rfl | rfl | rfl | past
    · have ends : Quoted escapes brokenBytes 34 1 2 :=
        .unescaped rfl (fun _ next escapes => escapes (Option.some.inj next).symm) (.line rfl)
      exact Or.inr (Or.inl ((element.quoted rfl (by decide)).unique (by decide) ends))
    · exact absurd element.starts (not_starts (show brokenBytes[2]? = some 10 from rfl) (by decide))
    · have ends : Quoted escapes brokenBytes 34 4 13 := by
        iterate 8 refine .plain rfl (by decide) (by decide) (by decide) ?_
        exact .closed rfl
      exact Or.inr (Or.inr (Or.inr
        ((element.quoted rfl (by decide)).unique (by decide) ends).ge))
    · have := element.lt
      omega
  | byte _ within plain ih =>
    rcases ih with rfl | rfl | rfl | past
    · exact absurd (Or.inr (Or.inr ⟨34, rfl, by decide⟩)) plain
    · exact Or.inr (Or.inr (Or.inl rfl))
    · exact absurd (Or.inr (Or.inr ⟨34, rfl, by decide⟩)) plain
    · have : (13 : Nat) = brokenBytes.length := rfl
      omega

/-- The call is written over, and by Go's own rules it stands in a string. -/
theorem not_standIn_invisible_broken :
    ∃ masked, standInForNewValues (fun _ => false) (Units.encoded broken) = some (some masked) ∧
      ∃ place, masked[place]? ≠ (Units.encoded broken)[place]? ∧
        ∀ start, start ≤ place → place < start + 3 →
          ¬ Called escapes (Units.encoded broken) start := by
  rw [encoded_broken]
  refine ⟨[34, 92, 10, 34, 110, 69, 119, 40, 49, 43, 50, 41, 34], by decide, 5, by decide, ?_⟩
  intro start le lt called
  have places : start = 3 ∨ start = 4 ∨ start = 5 := by omega
  rcases places with rfl | rfl | rfl
  · exact absurd called.named (by decide)
  · have places := read_broken called.outside.1
    omega
  · exact absurd called.named (by decide)

end Broken

end Supercov.Go.NewValues
