import Mathlib

/-!
# Texts and their lines

A text as its characters, with what is read of one: its lines, its words and the numbers
written in it.
-/

namespace Text

instance lawful : LawfulBEq (List Char) := inferInstance

/-- The lines of a text, each without the line feed, or carriage return and line feed, it
ends with. -/
def lines : List Char → List (List Char)
  | [] => []
  | c :: rest =>
    if c = '\n' then [] :: lines rest
    else if c = '\r' ∧ rest.head? = some '\n' then lines rest
    else
      match lines rest with
      | [] => [[c]]
      | line :: others => (c :: line) :: others

def dropReturn (line : List Char) : List Char :=
  if line.getLast? = some '\r' then line.dropLast else line

def isWhitespace (c : Char) : Bool :=
  let n := c.toNat
  (0x9 ≤ n && n ≤ 0xd) || n = 0x20 || n = 0x85 || n = 0xa0 || n = 0x1680 ||
    (0x2000 ≤ n && n ≤ 0x200a) || n = 0x2028 || n = 0x2029 || n = 0x202f || n = 0x205f || n = 0x3000

def trimStart (text : List Char) : List Char := text.dropWhile isWhitespace

def trimEnd (text : List Char) : List Char := (text.reverse.dropWhile isWhitespace).reverse

def trim (text : List Char) : List Char := trimEnd (trimStart text)

def words (text : List Char) : List (List Char) :=
  (text.splitOnP isWhitespace).filter (· ≠ [])

/-- A number of `bits` bits, written in decimal and maybe behind a plus sign. -/
def unsigned (bits : Nat) (text : List Char) : Option Nat :=
  let digits := if text.head? = some '+' then text.tail else text
  if digits ≠ [] ∧ digits.all Char.isDigit then
    some (Nat.ofDigitChars 10 digits 0) |>.filter (· < 2 ^ bits)
  else
    none

/-- The text before the first of a character and behind it, where it has one. -/
def splitOnce (c : Char) (text : List Char) : Option (List Char × List Char) :=
  if c ∈ text then some (text.takeWhile (· ≠ c), (text.dropWhile (· ≠ c)).tail) else none

/-- A number as it is written. -/
def decimal (n : Nat) : List Char := Nat.toDigits 10 n

section Lines

variable {line rest : List Char}

theorem lines_append (unbroken : '\n' ∉ line) (rest : List Char) :
    lines (line ++ '\n' :: rest) = dropReturn line :: lines rest := by
  induction line with
  | nil => simp [lines, dropReturn]
  | cons c line ih =>
    have ⟨first, unbroken⟩ := List.ne_and_not_mem_of_not_mem_cons unbroken
    rw [List.cons_append, lines, if_neg (Ne.symm first), ih unbroken]
    cases line with
    | nil => by_cases carriage : c = '\r' <;> simp [carriage, dropReturn]
    | cons d line =>
      have inner : d ≠ '\n' := fun same => unbroken (same ▸ List.mem_cons_self)
      rw [if_neg (by simp [inner])]
      simp only [dropReturn, List.getLast?_cons_cons]
      split <;> simp

theorem lines_flatMap {texts : List (List Char)} (unbroken : ∀ text ∈ texts, '\n' ∉ text) :
    lines (texts.flatMap (· ++ ['\n'])) = texts.map dropReturn := by
  induction texts with
  | nil => rfl
  | cons text texts ih =>
    have ⟨first, others⟩ := List.forall_mem_cons.mp unbroken
    rw [List.flatMap_cons, List.append_assoc, List.singleton_append, lines_append first, ih others,
      List.map_cons]

theorem dropReturn_of_getLast? (kept : line.getLast? ≠ some '\r') : dropReturn line = line :=
  if_neg kept

theorem dropReturn_append {before after : List Char} (kept : before.getLast? ≠ some '\r') :
    dropReturn (before ++ after) = before ++ dropReturn after := by
  cases after with
  | nil => rw [List.append_nil, dropReturn_of_getLast? kept]; simp [dropReturn]
  | cons c after =>
    have last : (before ++ c :: after).getLast? = (c :: after).getLast? := by
      rw [List.getLast?_append_of_ne_nil _ (List.cons_ne_nil _ _)]
    rw [dropReturn, dropReturn, last]
    split
    · exact List.dropLast_append_of_ne_nil (List.cons_ne_nil _ _)
    · rfl

end Lines

section Trimmed

variable {front rest : List Char} {c : Char}

theorem dropWhile_append_cons {Item : Type*} {p : Item → Bool} {item : Item} (stops : p item = false)
    (items others : List Item) :
    (items ++ item :: others).dropWhile p = items.dropWhile p ++ item :: others := by
  induction items with
  | nil => rw [List.nil_append, List.dropWhile_cons_of_neg (by simp [stops])]; rfl
  | cons first items ih =>
    rw [List.cons_append, List.dropWhile_cons, List.dropWhile_cons]
    split
    · exact ih
    · rfl

theorem trimEnd_of_getLast? {text : List Char}
    (shown : ∀ c ∈ text.getLast?, isWhitespace c = false) : trimEnd text = text := by
  rw [← List.head?_reverse] at shown
  rw [trimEnd]
  cases reversed : text.reverse with
  | nil => rw [List.dropWhile_nil, ← reversed, List.reverse_reverse]
  | cons last before =>
    rw [List.dropWhile_cons_of_neg (by simp [shown last (by simp [reversed])]), ← reversed,
      List.reverse_reverse]

theorem trimEnd_append_cons (shown : isWhitespace c = false) (front rest : List Char) :
    trimEnd (front ++ c :: rest) = front ++ c :: trimEnd rest := by
  have reversed : (front ++ c :: rest).reverse = rest.reverse ++ c :: front.reverse := by simp
  rw [trimEnd, reversed, dropWhile_append_cons shown, trimEnd]
  simp

@[simp] theorem trimEnd_trimEnd (text : List Char) : trimEnd (trimEnd text) = trimEnd text :=
  List.rdropWhile_idempotent _ _

theorem trimEnd_dropReturn (text : List Char) : trimEnd (dropReturn text) = trimEnd text := by
  rw [dropReturn]
  split
  · next carriage =>
    obtain ⟨before, rfl⟩ := List.getLast?_eq_some_iff.mp carriage
    rw [List.dropLast_concat, trimEnd, trimEnd, List.reverse_concat,
      List.dropWhile_cons_of_pos (by decide)]
  · rfl

theorem trimStart_of_head? {text : List Char}
    (shown : ∀ c ∈ text.head?, isWhitespace c = false) : trimStart text = text := by
  cases text with
  | nil => rfl
  | cons c text => rw [trimStart, List.dropWhile_cons_of_neg (by simp [shown c rfl])]

theorem trim_dropReturn_append_cons (first : ∀ c ∈ front.head?, isWhitespace c = false)
    (shown : isWhitespace c = false) :
    trim (dropReturn (front ++ c :: rest)) = front ++ c :: trimEnd rest := by
  have kept : (front ++ [c]).getLast? ≠ some '\r' := by
    rw [List.getLast?_concat]
    rintro ⟨⟩
    cases shown
  have starts : ∀ d ∈ (front ++ c :: dropReturn rest).head?, isWhitespace d = false := by
    cases front with
    | nil => simpa using shown
    | cons d front => simpa using first
  rw [List.append_cons, dropReturn_append kept, ← List.append_cons, trim, trimStart_of_head? starts,
    trimEnd_append_cons shown, trimEnd_dropReturn]

theorem trim_of_shown {text : List Char} (shown : ∀ c ∈ text, isWhitespace c = false) :
    trim text = text := by
  rw [trim, trimStart_of_head? fun c first => shown c (List.mem_of_head? first)]
  exact trimEnd_of_getLast? fun c last => shown c (List.mem_of_getLast? last)

end Trimmed

theorem mem_of_mem_intercalate {Item : Type*} {separator item : Item} {parts : List (List Item)}
    (member : item ∈ [separator].intercalate parts) :
    item = separator ∨ ∃ part ∈ parts, item ∈ part := by
  induction parts with
  | nil => cases member
  | cons part parts ih =>
    cases parts with
    | nil => exact Or.inr ⟨part, List.mem_cons_self, by simpa using member⟩
    | cons next parts =>
      rw [List.intercalate_cons_cons] at member
      simp only [List.mem_append, List.mem_singleton] at member
      rcases member with (member | same) | member
      · exact Or.inr ⟨part, List.mem_cons_self, member⟩
      · exact Or.inl same
      · rcases ih member with same | ⟨held, inside, member⟩
        · exact Or.inl same
        · exact Or.inr ⟨held, List.mem_cons_of_mem _ inside, member⟩

theorem splitOnce_append {c : Char} {front : List Char} (absent : c ∉ front) (rest : List Char) :
    splitOnce c (front ++ c :: rest) = some (front, rest) := by
  have other : ∀ d ∈ front, decide (d ≠ c) = true := by
    intro d member
    exact decide_eq_true fun same => absent (same ▸ member)
  rw [splitOnce, if_pos (by simp), List.takeWhile_append_of_pos other,
    List.dropWhile_append_of_pos other]
  simp

section Words

theorem words_append {word : List Char} (shown : ∀ c ∈ word, isWhitespace c = false)
    (some : word ≠ []) {blank : Char} (white : isWhitespace blank = true) (rest : List Char) :
    words (word ++ blank :: rest) = word :: words rest := by
  rw [words, List.splitOnP_append_cons_of_forall_mem shown _ white,
    List.filter_cons_of_pos (by simpa using some), words]

theorem of_mem_splitOnP {Item : Type*} {p : Item → Bool} {items piece : List Item}
    (member : piece ∈ items.splitOnP p) {item : Item} (inside : item ∈ piece) :
    item ∈ items ∧ p item = false := by
  induction items generalizing piece with
  | nil =>
    rw [List.splitOnP_nil, List.mem_singleton] at member
    subst member
    cases inside
  | cons first items ih =>
    have later {piece : List Item} (member : piece ∈ items.splitOnP p) (inside : item ∈ piece) :
        item ∈ first :: items ∧ p item = false :=
      (ih member inside).imp_left (List.mem_cons_of_mem first)
    rw [List.splitOnP_cons_eq_if_modifyHead] at member
    split at member
    · rcases List.mem_cons.mp member with rfl | member
      · cases inside
      · exact later member inside
    · next kept =>
      cases pieces : items.splitOnP p with
      | nil => exact absurd pieces (List.splitOnP_ne_nil _ _)
      | cons head pieces' =>
        rw [pieces, List.modifyHead_cons] at member
        rcases List.mem_cons.mp member with rfl | member
        · rcases List.mem_cons.mp inside with rfl | inside
          · exact ⟨List.mem_cons_self, Bool.eq_false_iff.mpr kept⟩
          · exact later (pieces ▸ List.mem_cons_self) inside
        · exact later (pieces ▸ List.mem_cons_of_mem _ member) inside

theorem length_splitOnP {Item : Type*} (p : Item → Bool) (items : List Item) :
    (items.splitOnP p).length = items.countP p + 1 := by
  induction items with
  | nil => rfl
  | cons item items ih =>
    rw [List.splitOnP_cons_eq_if_modifyHead, List.countP_cons]
    split
    · rw [List.length_cons, ih]
    · rw [List.length_modifyHead, ih, Nat.add_zero]

theorem not_of_mem_splitOnP {Item : Type*} {p : Item → Bool} {items piece : List Item}
    (member : piece ∈ items.splitOnP p) {item : Item} (inside : item ∈ piece) : p item = false :=
  (of_mem_splitOnP member inside).2

theorem isWhitespace_of_mem_words {text word : List Char} (member : word ∈ words text) {c : Char}
    (inside : c ∈ word) : isWhitespace c = false :=
  not_of_mem_splitOnP (List.mem_of_mem_filter member) inside

end Words

section Numbers

variable {bits n : Nat}

theorem isDigit_of_mem_decimal {c : Char} (member : c ∈ decimal n) : c.isDigit = true :=
  Nat.isDigit_of_mem_toDigits (by decide) (by decide) member

theorem isWhitespace_of_isDigit {c : Char} (digit : c.isDigit = true) : isWhitespace c = false := by
  have ⟨low, high⟩ : 48 ≤ c.toNat ∧ c.toNat ≤ 57 := by
    simpa [Char.isDigit, UInt32.le_iff_toNat_le] using digit
  simp only [isWhitespace, Bool.or_eq_false_iff, Bool.and_eq_false_iff, decide_eq_false_iff_not]
  omega

theorem decimal_ne_nil : decimal n ≠ [] := Nat.toDigits_ne_nil

theorem unsigned_decimal (fits : n < 2 ^ bits) : unsigned bits (decimal n) = some n := by
  have unsigned_ : (decimal n).head? ≠ some '+' := by
    intro plus
    have digit := isDigit_of_mem_decimal (List.mem_of_head? plus)
    cases digit
  have digits : (decimal n).all Char.isDigit = true :=
    List.all_eq_true.mpr fun _ => isDigit_of_mem_decimal
  rw [unsigned, if_neg unsigned_, if_pos ⟨decimal_ne_nil, digits⟩, decimal,
    Nat.ofDigitChars_ten_toDigits, Option.filter_some, if_pos (decide_eq_true fits)]

end Numbers

end Text
