import Supercov.Library.JsonSyntax

/-!
# Comments and trailing commas of a configuration

Two passes make JSON of a configuration with comments: one over its comments, one over its
trailing commas.  Each follows the strings and their escapes for itself.
-/

namespace Supercov.Discovery

/-- Whether the next character is escaped, or nothing where the string ends. -/
def afterStringChar (escaped : Bool) (c : Char) : Option Bool :=
  if escaped then some false
  else if c = '\\' then some true
  else if c = '"' then none
  else some false

inductive CommentMode where
  | code
  | string (escaped : Bool)
  | line
  /-- A block comment, with the character read last. -/
  | block (previous : Char)

def stripComments : CommentMode → List Char → List Char
  | _, [] => []
  | .string escaped, c :: rest =>
    c :: stripComments ((afterStringChar escaped c).elim .code .string) rest
  | .line, c :: rest =>
    if c = '\n' then '\n' :: stripComments .code rest else stripComments .line rest
  | .block previous, c :: rest =>
    if previous = '*' ∧ c = '/' then stripComments .code rest else stripComments (.block c) rest
  | .code, '/' :: '/' :: rest => stripComments .line rest
  | .code, '/' :: '*' :: rest => stripComments (.block '\x00') rest
  | .code, c :: rest =>
    c :: stripComments (if c = '"' then .string false else .code) rest

section Comments

variable (c : Char) (rest : List Char)

theorem stripComments_nil (mode : CommentMode) : stripComments mode [] = [] := by
  cases mode <;> rfl

theorem stripComments_inString (escaped : Bool) : stripComments (.string escaped) (c :: rest) =
    c :: stripComments ((afterStringChar escaped c).elim .code .string) rest := rfl

theorem stripComments_inLine : stripComments .line (c :: rest) =
    if c = '\n' then '\n' :: stripComments .code rest else stripComments .line rest := rfl

theorem stripComments_inBlock (previous : Char) : stripComments (.block previous) (c :: rest) =
    if previous = '*' ∧ c = '/' then stripComments .code rest
    else stripComments (.block c) rest := rfl

theorem stripComments_opensLine :
    stripComments .code ('/' :: '/' :: rest) = stripComments .line rest := rfl

theorem stripComments_opensBlock :
    stripComments .code ('/' :: '*' :: rest) = stripComments (.block '\x00') rest := rfl

theorem stripComments_quote :
    stripComments .code ('"' :: rest) = '"' :: stripComments (.string false) rest := rfl

end Comments

def stripJsoncComments (contents : List Char) : List Char := stripComments .code contents

inductive CommaMode where
  | code
  | string (escaped : Bool)

/-- The first character that is seen closes an object or an array. -/
def closes (rest : List Char) : Bool :=
  (rest.find? fun c => !Text.isWhitespace c).any fun c => c = '\x7d' || c = ']'

def stripCommas : CommaMode → List Char → List Char
  | _, [] => []
  | .string escaped, c :: rest =>
    c :: stripCommas ((afterStringChar escaped c).elim .code .string) rest
  | .code, c :: rest =>
    if c = '"' then c :: stripCommas (.string false) rest
    else if c = ',' ∧ closes rest then stripCommas .code rest
    else c :: stripCommas .code rest

section Commas

variable (c : Char) (rest : List Char)

theorem stripCommas_nil (mode : CommaMode) : stripCommas mode [] = [] := by
  cases mode <;> rfl

theorem stripCommas_inString (escaped : Bool) : stripCommas (.string escaped) (c :: rest) =
    c :: stripCommas ((afterStringChar escaped c).elim .code .string) rest := rfl

theorem stripCommas_inCode : stripCommas .code (c :: rest) =
    if c = '"' then c :: stripCommas (.string false) rest
    else if c = ',' ∧ closes rest then stripCommas .code rest
    else c :: stripCommas .code rest := rfl

end Commas

def stripTrailingCommas (contents : List Char) : List Char := stripCommas .code contents

/-- A pass gives `kept` for `piece`, whatever follows it. -/
def Passes (pass : List Char → List Char) (piece kept : List Char) : Prop :=
  ∀ rest, pass (piece ++ rest) = kept ++ pass rest

theorem Passes.nil (pass : List Char → List Char) : Passes pass [] [] := fun _ => rfl

theorem Passes.append {pass : List Char → List Char} {piece kept other other' : List Char}
    (passes : Passes pass piece kept) (passes' : Passes pass other other') :
    Passes pass (piece ++ other) (kept ++ other') := by
  intro rest
  rw [List.append_assoc, passes, passes', List.append_assoc]

theorem Passes.cons {pass : List Char → List Char} {c : Char} {piece kept : List Char}
    (single : Passes pass [c] [c]) (passes : Passes pass piece kept) :
    Passes pass (c :: piece) (c :: kept) :=
  single.append passes

section Strings

open JsonSyntax

variable {text meant : List Char}

/-- Passing a string's characters, each of them kept, leads back to where it began. -/
def Strung (pass : Bool → List Char → List Char) : Prop :=
  ∀ escaped escaped' c rest, afterStringChar escaped c = some escaped' →
    pass escaped (c :: rest) = c :: pass escaped' rest

variable {pass : Bool → List Char → List Char}

theorem Strung.plain (strung : Strung pass) {c : Char} (unquoted : c ≠ '"') (unescaped : c ≠ '\\') :
    Passes (pass false) [c] [c] :=
  fun rest => strung false false c rest (by simp [afterStringChar, unquoted, unescaped])

theorem Strung.escape (strung : Strung pass) (c : Char) : Passes (pass false) ['\\', c] ['\\', c] := by
  intro rest
  exact (strung false true '\\' (c :: rest) rfl).trans
    (congrArg _ (strung true false c rest rfl))

theorem ne_of_hexValue {c : Char} (value : (hexValue c).isSome) : c ≠ '"' ∧ c ≠ '\\' := by
  constructor
  · rintro rfl
    exact absurd value (by decide)
  · rintro rfl
    exact absurd value (by decide)

theorem Strung.digits (strung : Strung pass) {digits : List Char}
    (values : ∀ c ∈ digits, (hexValue c).isSome) : Passes (pass false) digits digits := by
  induction digits with
  | nil => exact Passes.nil _
  | cons c digits inductionHypothesis =>
    obtain ⟨value, values⟩ := List.forall_mem_cons.mp values
    obtain ⟨unquoted, unescaped⟩ := ne_of_hexValue value
    exact (strung.plain unquoted unescaped).cons (inductionHypothesis values)

theorem isSome_of_codeUnit {digits : List Char} {unit : Nat} (means : codeUnit digits = some unit) :
    ∀ c ∈ digits, (hexValue c).isSome := by
  obtain ⟨values, mapped, -⟩ := Option.map_eq_some_iff.mp means
  clear means
  induction digits generalizing values with
  | nil => exact fun _ member => absurd member List.not_mem_nil
  | cons c digits inductionHypothesis =>
    rw [List.mapM_cons] at mapped
    obtain ⟨value, valued, mapped⟩ := Option.bind_eq_some_iff.mp mapped
    obtain ⟨values', mapped, -⟩ := Option.bind_eq_some_iff.mp mapped
    exact List.forall_mem_cons.mpr ⟨Option.isSome_of_eq_some valued, inductionHypothesis _ mapped⟩

theorem Strung.body (strung : Strung pass) (body : Body text meant) :
    Passes (pass false) text text := by
  induction body with
  | nil => exact Passes.nil _
  | plain unquoted unescaped _ _ inductionHypothesis =>
    exact (strung.plain unquoted unescaped).cons inductionHypothesis
  | short _ _ inductionHypothesis => exact (strung.escape _).append inductionHypothesis
  | unit _ means _ _ inductionHypothesis =>
    have digits := strung.digits (isSome_of_codeUnit means)
    exact (strung.escape 'u').append (digits.append inductionHypothesis)
  | pair _ means means' _ _ inductionHypothesis =>
    have first := strung.digits (isSome_of_codeUnit means)
    have second := strung.digits (isSome_of_codeUnit means')
    exact (strung.escape 'u').append
      (first.append ((strung.escape 'u').append (second.append inductionHypothesis)))

theorem passes_string {code : List Char → List Char} (strung : Strung pass)
    (opens : ∀ rest, code ('"' :: rest) = '"' :: pass false rest)
    (closes : ∀ rest, pass false ('"' :: rest) = '"' :: code rest) (body : Body text meant) :
    Passes code ('"' :: (text ++ ['"'])) ('"' :: (text ++ ['"'])) := by
  intro rest
  rw [List.cons_append, opens, List.append_assoc, strung.body body, List.singleton_append, closes]
  simp

end Strings

end Supercov.Discovery
