import Mathlib.Data.List.Basic
import Mathlib.Tactic.Common

/-!
# Pieces of JSON text

Strings as a compact writer quotes them, numbers in decimal and the UTF-8 bytes
of a text, each with the reader that takes it back off the front.
-/

namespace JsonText

def hexDigit (n : Nat) : Char := Nat.digitChar n

def hexValue (c : Char) : Nat :=
  if c.isDigit then c.toNat - '0'.toNat else c.toNat - 'a'.toNat + 10

/-- Quotes, backslashes and control characters are escaped, and nothing else. -/
def escapeChar (c : Char) : List Char :=
  if c = '"' then ['\\', '"']
  else if c = '\\' then ['\\', '\\']
  else if c = '\x08' then ['\\', 'b']
  else if c = '\t' then ['\\', 't']
  else if c = '\n' then ['\\', 'n']
  else if c = '\x0c' then ['\\', 'f']
  else if c = '\r' then ['\\', 'r']
  else if c.toNat < 0x20 then
    ['\\', 'u', '0', '0', hexDigit (c.toNat / 16), hexDigit (c.toNat % 16)]
  else [c]

def quote (text : List Char) : List Char :=
  '"' :: (text.flatMap escapeChar ++ ['"'])

/-- What a backslash and one letter stand for. -/
def shortEscape (c : Char) : Option Char :=
  match c with
  | '"' => some '"'
  | '\\' => some '\\'
  | 'b' => some '\x08'
  | 't' => some '\t'
  | 'n' => some '\n'
  | 'f' => some '\x0c'
  | 'r' => some '\r'
  | _ => none

def prepend (c : Char) (found : List Char × List Char) : List Char × List Char :=
  (c :: found.1, found.2)

/-- The text up to the closing quote, and what follows it. -/
def unquoteBody : List Char → Option (List Char × List Char)
  | [] => none
  | '"' :: rest => some ([], rest)
  | '\\' :: 'u' :: '0' :: '0' :: high :: low :: rest =>
    (unquoteBody rest).map (prepend (Char.ofNat (16 * hexValue high + hexValue low)))
  | '\\' :: c :: rest =>
    match shortEscape c with
    | some meant => (unquoteBody rest).map (prepend meant)
    | none => none
  | c :: rest => (unquoteBody rest).map (prepend c)

def expect : List Char → List Char → Option (List Char)
  | [], rest => some rest
  | _ :: _, [] => none
  | c :: literal, d :: rest => if c = d then expect literal rest else none

def unquote (input : List Char) : Option (List Char × List Char) := do
  let rest ← expect ['"'] input
  unquoteBody rest

def number (n : Nat) : List Char := Nat.toDigits 10 n

def readNumber (input : List Char) : Option (Nat × List Char) :=
  match input.takeWhile Char.isDigit with
  | [] => none
  | digits => some (Nat.ofDigitChars 10 digits 0, input.dropWhile Char.isDigit)

def utf8 (text : List Char) : List UInt8 := text.flatMap String.utf8EncodeChar

def readUtf8 (bytes : List UInt8) : Option (List Char) :=
  (String.fromUTF8? bytes.toByteArray).map String.toList

@[simp]
theorem expect_append (literal rest : List Char) : expect literal (literal ++ rest) = some rest := by
  induction literal with
  | nil => cases rest <;> rfl
  | cons c literal ih => simp [expect, ih]

theorem hexValue_hexDigit : ∀ n < 16, hexValue (hexDigit n) = n := by
  decide

theorem unquoteBody_escapeChar (c : Char) (rest : List Char) :
    unquoteBody (escapeChar c ++ rest) = (unquoteBody rest).map (prepend c) := by
  unfold escapeChar
  split
  · subst c; rfl
  split
  · subst c; rfl
  split
  · subst c; rfl
  split
  · subst c; rfl
  split
  · subst c; rfl
  split
  · subst c; rfl
  split
  · subst c; rfl
  split
  · rename_i control
    have high := hexValue_hexDigit (c.toNat / 16) (by omega)
    have low := hexValue_hexDigit (c.toNat % 16) (by omega)
    simp only [List.cons_append, List.nil_append, unquoteBody]
    rw [high, low, Nat.div_add_mod, Char.ofNat_toNat]
  · rename_i notQuote notBackslash _ _ _ _ _ _
    rw [List.singleton_append]
    exact unquoteBody.eq_5 c rest notQuote (fun _ _ _ h => absurd h notBackslash)
      fun _ _ h => absurd h notBackslash

theorem unquoteBody_flatMap (text rest : List Char) :
    unquoteBody (text.flatMap escapeChar ++ '"' :: rest) = some (text, rest) := by
  induction text with
  | nil => rfl
  | cons c text ih =>
    rw [List.flatMap_cons, List.append_assoc, unquoteBody_escapeChar, ih]
    rfl

theorem unquote_quote (text rest : List Char) :
    unquote (quote text ++ rest) = some (text, rest) := by
  simp [unquote, quote, expect, unquoteBody_flatMap]

theorem readNumber_number (n : Nat) {rest : List Char}
    (ends : ∀ c ∈ rest.head?, c.isDigit = false) :
    readNumber (number n ++ rest) = some (n, rest) := by
  have digits : ∀ c ∈ number n, c.isDigit = true := fun c member =>
    Nat.isDigit_of_mem_toDigits (by decide) (by decide) member
  have taken : (number n ++ rest).takeWhile Char.isDigit = number n := by
    rw [List.takeWhile_append_of_pos digits]
    cases rest with
    | nil => simp
    | cons c rest => simp [ends c (by simp)]
  have dropped : (number n ++ rest).dropWhile Char.isDigit = rest := by
    rw [List.dropWhile_append_of_pos digits]
    cases rest with
    | nil => simp
    | cons c rest => simp [ends c (by simp)]
  unfold readNumber
  rw [taken, dropped]
  cases spelled : number n with
  | nil => exact absurd spelled Nat.toDigits_ne_nil
  | cons c digits =>
    simp only
    rw [← spelled, number, Nat.ofDigitChars_ten_toDigits]

theorem readUtf8_utf8 (text : List Char) : readUtf8 (utf8 text) = some text := by
  have same : (utf8 text).toByteArray = (String.ofList text).toByteArray := rfl
  unfold readUtf8 String.fromUTF8?
  rw [same, dif_pos (String.ofList text).isValidUTF8]
  exact congrArg some String.toList_ofList

section Length

variable (text : List Char)

theorem length_le_utf8 : text.length ≤ (utf8 text).length := by
  induction text with
  | nil => simp [utf8]
  | cons c text ih =>
    have := Char.utf8Size_pos c
    simp only [utf8, List.flatMap_cons, List.length_append, List.length_cons,
      String.length_utf8EncodeChar] at ih ⊢
    omega

theorem length_utf8_le : (utf8 text).length ≤ 4 * text.length := by
  induction text with
  | nil => simp [utf8]
  | cons c text ih =>
    have := Char.utf8Size_le_four c
    simp only [utf8, List.flatMap_cons, List.length_append, List.length_cons,
      String.length_utf8EncodeChar] at ih ⊢
    omega

theorem length_escapeChar (c : Char) : 1 ≤ (escapeChar c).length ∧ (escapeChar c).length ≤ 6 := by
  unfold escapeChar
  repeat' split
  all_goals simp

theorem length_quote :
    text.length + 2 ≤ (quote text).length ∧ (quote text).length ≤ 6 * text.length + 2 := by
  induction text with
  | nil => simp [quote]
  | cons c text ih =>
    have := length_escapeChar c
    simp only [quote, List.flatMap_cons, List.length_append, List.length_cons] at ih ⊢
    omega

end Length

end JsonText
