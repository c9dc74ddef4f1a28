import Supercov.Library.JsonValue
import Supercov.Library.Text
import Mathlib.Tactic.Common

/-!
# The texts of a JSON value

Which texts spell a value, in JSON and in the dialect that allows comments wherever white space
may stand and a comma behind the last item of an array or an object.
-/

namespace JsonSyntax

structure Grammar where
  comments : Bool
  trailingCommas : Bool

def json : Grammar := ⟨false, false⟩

def jsonc : Grammar := ⟨true, true⟩

def isBlank (c : Char) : Bool := c = ' ' || c = '\t' || c = '\n' || c = '\r'

/-- What may stand between two tokens.  A line comment goes up to its line feed, a block comment
to the first star and slash behind its opening. -/
inductive Gap (comments : Bool) : List Char → Prop where
  | nil : Gap comments []
  | blank {c : Char} {rest : List Char} (blank : isBlank c = true) (gap : Gap comments rest) :
    Gap comments (c :: rest)
  | line {body rest : List Char} (allowed : comments = true) (within : '\n' ∉ body)
    (gap : Gap comments rest) : Gap comments ('/' :: '/' :: (body ++ '\n' :: rest))
  | block {body rest : List Char} (allowed : comments = true) (within : ¬['*', '/'] <:+: body)
    (gap : Gap comments rest) : Gap comments ('/' :: '*' :: (body ++ '*' :: '/' :: rest))

/-- What may stand behind the last token: there a line comment needs no line feed. -/
inductive Ending (comments : Bool) : List Char → Prop where
  | gap {text : List Char} (gap : Gap comments text) : Ending comments text
  | line {gap body : List Char} (allowed : comments = true) (before : Gap comments gap)
    (within : '\n' ∉ body) : Ending comments (gap ++ '/' :: '/' :: body)

def shortEscape : Char → Option Char
  | '"' => some '"'
  | '\\' => some '\\'
  | '/' => some '/'
  | 'b' => some '\x08'
  | 'f' => some '\x0c'
  | 'n' => some '\n'
  | 'r' => some '\r'
  | 't' => some '\t'
  | _ => none

def hexValue (c : Char) : Option Nat :=
  if c.isDigit then some (c.toNat - '0'.toNat)
  else if 'a' ≤ c ∧ c ≤ 'f' then some (c.toNat - 'a'.toNat + 10)
  else if 'A' ≤ c ∧ c ≤ 'F' then some (c.toNat - 'A'.toNat + 10)
  else none

def codeUnit (digits : List Char) : Option Nat :=
  (digits.mapM hexValue).map (·.foldl (fun unit digit => 16 * unit + digit) 0)

def isHigh (unit : Nat) : Prop := 0xd800 ≤ unit ∧ unit < 0xdc00

def isLow (unit : Nat) : Prop := 0xdc00 ≤ unit ∧ unit < 0xe000

/-- What stands between the quotes of a string, and the characters it means. -/
inductive Body : List Char → List Char → Prop where
  | nil : Body [] []
  | plain {c : Char} {text meant : List Char} (unquoted : c ≠ '"') (unescaped : c ≠ '\\')
    (shown : 0x20 ≤ c.toNat) (body : Body text meant) : Body (c :: text) (c :: meant)
  | short {letter c : Char} {text meant : List Char} (means : shortEscape letter = some c)
    (body : Body text meant) : Body ('\\' :: letter :: text) (c :: meant)
  | unit {digits text meant : List Char} {unit : Nat} (four : digits.length = 4)
    (means : codeUnit digits = some unit) (alone : ¬isHigh unit ∧ ¬isLow unit)
    (body : Body text meant) :
    Body ('\\' :: 'u' :: (digits ++ text)) (Char.ofNat unit :: meant)
  | pair {first second text meant : List Char} {high low : Nat}
    (four : first.length = 4 ∧ second.length = 4) (means : codeUnit first = some high)
    (means' : codeUnit second = some low) (surrogates : isHigh high ∧ isLow low)
    (body : Body text meant) :
    Body ('\\' :: 'u' :: (first ++ '\\' :: 'u' :: (second ++ text)))
      (Char.ofNat (0x10000 + 0x400 * (high - 0xd800) + (low - 0xdc00)) :: meant)

def IsDigits (text : List Char) : Prop := text ≠ [] ∧ text.all Char.isDigit

def IsNumber (text : List Char) : Prop :=
  ∃ sign whole fraction exponent : List Char, text = sign ++ whole ++ fraction ++ exponent ∧
    (sign = [] ∨ sign = ['-']) ∧
    (whole = ['0'] ∨ IsDigits whole ∧ whole.head? ≠ some '0') ∧
    (fraction = [] ∨ ∃ digits, fraction = '.' :: digits ∧ IsDigits digits) ∧
    (exponent = [] ∨ ∃ mark sign digits, exponent = mark :: (sign ++ digits) ∧
      (mark = 'e' ∨ mark = 'E') ∧ (sign = [] ∨ sign = ['+'] ∨ sign = ['-']) ∧ IsDigits digits)

inductive Item where
  | element (value : JsonValue)
  | member (key : String) (value : JsonValue)

inductive Part where
  | value (value : JsonValue)
  | item (item : Item)
  | items (items : List Item)

def elements (values : List JsonValue) : List Item := values.map .element

def members (fields : List (String × JsonValue)) : List Item :=
  fields.map fun field => .member field.1 field.2

/-- The fields that members make: of two with one key the last counts, where the first stands. -/
def fieldsOf (fields : List (String × JsonValue)) : JsonValue.Fields :=
  fields.foldl (fun before field => JsonValue.insertField field.1 field.2 before) []

inductive Spells (grammar : Grammar) : Part → List Char → Prop where
  | null : Spells grammar (.value .null) "null".toList
  | yes : Spells grammar (.value (.bool true)) "true".toList
  | no : Spells grammar (.value (.bool false)) "false".toList
  | number {text : List Char} (number : IsNumber text) :
    Spells grammar (.value (.number (String.ofList text))) text
  | string {text meant : List Char} (body : Body text meant) :
    Spells grammar (.value (.string (String.ofList meant))) ('"' :: (text ++ ['"']))
  | array {values : List JsonValue} {text : List Char}
    (items : Spells grammar (.items (elements values)) text) :
    Spells grammar (.value (.array values)) ('[' :: (text ++ [']']))
  | object {fields : List (String × JsonValue)} {text : List Char}
    (items : Spells grammar (.items (members fields)) text) :
    Spells grammar (.value (.object (fieldsOf fields))) ('\x7b' :: (text ++ ['\x7d']))
  | element {value : JsonValue} {text : List Char} (spelled : Spells grammar (.value value) text) :
    Spells grammar (.item (.element value)) text
  | member {key meant before after text : List Char} {value : JsonValue} (body : Body key meant)
    (gap : Gap grammar.comments before) (gap' : Gap grammar.comments after)
    (spelled : Spells grammar (.value value) text) :
    Spells grammar (.item (.member (String.ofList meant) value))
      ('"' :: (key ++ '"' :: (before ++ ':' :: (after ++ text))))
  | noItems {text : List Char} (gap : Gap grammar.comments text) : Spells grammar (.items []) text
  | last {before text after : List Char} {item : Item} (gap : Gap grammar.comments before)
    (spelled : Spells grammar (.item item) text) (gap' : Gap grammar.comments after) :
    Spells grammar (.items [item]) (before ++ (text ++ after))
  | next {before text after more : List Char} {item : Item} {items : List Item}
    (gap : Gap grammar.comments before) (spelled : Spells grammar (.item item) text)
    (gap' : Gap grammar.comments after) (goesOn : items = [] → grammar.trailingCommas = true)
    (others : Spells grammar (.items items) more) :
    Spells grammar (.items (item :: items)) (before ++ (text ++ (after ++ ',' :: more)))

def Document (grammar : Grammar) (value : JsonValue) (text : List Char) : Prop :=
  ∃ before body after, Gap grammar.comments before ∧ Spells grammar (.value value) body ∧
    Ending grammar.comments after ∧ text = before ++ (body ++ after)

/-- A character of a number or a name. -/
def isPlain (c : Char) : Bool := c.isAlphanum || c = '-' || c = '+' || c = '.'

theorem isPlain_of_isDigits {text : List Char} (digits : IsDigits text) {c : Char}
    (member : c ∈ text) : isPlain c = true := by
  have digit : c.isDigit = true := List.all_eq_true.mp digits.2 c member
  simp [isPlain, Char.isAlphanum, digit]

theorem isPlain_of_isNumber {text : List Char} (number : IsNumber text) {c : Char}
    (member : c ∈ text) : isPlain c = true := by
  obtain ⟨sign, whole, fraction, exponent, rfl, signed, wholes, fractions, exponents⟩ := number
  simp only [List.mem_append] at member
  rcases member with ((inSign | inWhole) | inFraction) | inExponent
  · rcases signed with rfl | rfl
    · exact absurd inSign List.not_mem_nil
    · rw [List.mem_singleton.mp inSign]
      rfl
  · rcases wholes with rfl | ⟨digits, -⟩
    · rw [List.mem_singleton.mp inWhole]
      rfl
    · exact isPlain_of_isDigits digits inWhole
  · rcases fractions with rfl | ⟨digits, rfl, isDigits⟩
    · exact absurd inFraction List.not_mem_nil
    · rcases List.mem_cons.mp inFraction with rfl | inDigits
      · rfl
      · exact isPlain_of_isDigits isDigits inDigits
  · rcases exponents with rfl | ⟨mark, sign, digits, rfl, marks, signs, isDigits⟩
    · exact absurd inExponent List.not_mem_nil
    · rcases List.mem_cons.mp inExponent with rfl | inRest
      · rcases marks with rfl | rfl <;> rfl
      · rcases List.mem_append.mp inRest with inSign | inDigits
        · rcases signs with rfl | rfl | rfl
          · exact absurd inSign List.not_mem_nil
          · rw [List.mem_singleton.mp inSign]
            rfl
          · rw [List.mem_singleton.mp inSign]
            rfl
        · exact isPlain_of_isDigits isDigits inDigits

theorem ne_nil_of_isNumber {text : List Char} (number : IsNumber text) : text ≠ [] := by
  obtain ⟨sign, whole, fraction, exponent, rfl, -, wholes, -⟩ := number
  have whole_ne : whole ≠ [] := by
    rcases wholes with rfl | ⟨digits, -⟩
    · exact List.cons_ne_nil _ _
    · exact digits.1
  simp [whole_ne]

theorem isPlain_spec {c : Char} (plain : isPlain c = true) :
    Text.isWhitespace c = false ∧ c ∉ ['"', '/', ',', ']', '\x7d'] := by
  have codes : (48 ≤ c.toNat ∧ c.toNat ≤ 57) ∨ (65 ≤ c.toNat ∧ c.toNat ≤ 90) ∨
      (97 ≤ c.toNat ∧ c.toNat ≤ 122) ∨ c.toNat = 45 ∨ c.toNat = 43 ∨ c.toNat = 46 := by
    have marks : '-'.toNat = 45 ∧ '+'.toNat = 43 ∧ '.'.toNat = 46 := ⟨rfl, rfl, rfl⟩
    simp [isPlain, Char.isAlphanum, Char.isAlpha, Char.isUpper, Char.isLower, Char.isDigit,
      UInt32.le_iff_toNat_le, ← Char.toNat_inj, marks] at plain
    omega
  constructor
  · unfold Text.isWhitespace
    simp only [Bool.or_eq_false_iff, Bool.and_eq_false_iff, decide_eq_false_iff_not]
    omega
  · have marks : '"'.toNat = 34 ∧ '/'.toNat = 47 ∧ ','.toNat = 44 ∧ ']'.toNat = 93 ∧
        '\x7d'.toNat = 125 := ⟨rfl, rfl, rfl, rfl, rfl⟩
    simp only [List.mem_cons, List.not_mem_nil, or_false, ← Char.toNat_inj, marks]
    omega

theorem head_of_spells {grammar : Grammar} {part : Part} {text : List Char}
    (spelled : Spells grammar part text) (single : ∀ items, part ≠ .items items) :
    ∃ c rest, text = c :: rest ∧ Text.isWhitespace c = false ∧ c ∉ [']', '\x7d'] := by
  induction spelled with
  | null => exact ⟨_, _, rfl, by decide, by decide⟩
  | yes => exact ⟨_, _, rfl, by decide, by decide⟩
  | no => exact ⟨_, _, rfl, by decide, by decide⟩
  | number number =>
    obtain ⟨c, rest, rfl⟩ := List.exists_cons_of_ne_nil (ne_nil_of_isNumber number)
    obtain ⟨shown, other⟩ := isPlain_spec (isPlain_of_isNumber number List.mem_cons_self)
    refine ⟨c, rest, rfl, shown, fun member => other ?_⟩
    exact List.mem_cons_of_mem _ (List.mem_cons_of_mem _ (List.mem_cons_of_mem _ member))
  | string => exact ⟨_, _, rfl, by decide, by decide⟩
  | array => exact ⟨_, _, rfl, by decide, by decide⟩
  | object => exact ⟨_, _, rfl, by decide, by decide⟩
  | element _ inductionHypothesis => exact inductionHypothesis nofun
  | member => exact ⟨_, _, rfl, by decide, by decide⟩
  | noItems => exact absurd rfl (single _)
  | last => exact absurd rfl (single _)
  | next => exact absurd rfl (single _)

end JsonSyntax
