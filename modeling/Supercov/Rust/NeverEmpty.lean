import Supercov.Library.Outcome
import Supercov.Library.Text

/-!
# Rust loops that cannot be empty

The answer is read from an iterable's text: from array literals, ranges between integers, and the
names of methods, functions and the file's constants.  What a name stands for is another matter,
which the language resolves: the evaluations of an iterable go by that.
-/

namespace Supercov.Rust

namespace Loops

abbrev Name := List Char

section Syntax

/-- What a method is resolved to: that of the standard library that its name suggests, or another.
`BufRead` has a `split` too, which yields nothing where nothing is left to read. -/
inductive Method where
  | split | splitn | chain | keeps | other
  deriving DecidableEq

/-- An expression, with what the language takes its parts for: whether `cfg` leaves an element,
the number of an integer literal in its type, the constant of the file that a path leads to, the
method a call is of, and whether the function called is `std::iter::once`. -/
inductive Expr where
  | literal (text : List Char) (number : Option Nat)
  | array (elements : List (Bool × Expr))
  | «repeat» (element count : Expr)
  | range (start stop : Option Expr) (inclusive : Bool)
  | paren (inner : Expr)
  | ref (inner : Expr)
  | path (bare : Option Name) (refers : Option Nat)
  | methodCall (receiver : Expr) (name : Name) (args : List Expr) (method : Method)
  | call (path : Option (List Char)) (once : Bool)
  | other

/-- A `const` or `static` item, wherever it stands in the file. `const _` has no name. -/
structure Constant where
  name : Option Name
  body : Option Expr
  isMut : Bool

structure File where
  constants : List Constant
  loops : List Expr

end Syntax

section Answers

/-- A text from some of its bytes on; inside a character there is no place to cut. -/
def sliceFrom : Nat → List Char → Outcome Unit (List Char)
  | 0, text => .ok text
  | _ + 1, [] => .crashed
  | offset + 1, c :: text =>
    if offset + 1 < c.utf8Size then .crashed else sliceFrom (offset + 1 - c.utf8Size) text

def isDigitOrBlank (c : Char) : Bool := c.isDigit || c = '_'

def literalInteger (text : List Char) : Outcome Unit (Option Nat) := do
  let digits := (text.takeWhile isDigitOrBlank).filter (· ≠ '_')
  let length := (text.map Char.utf8Size).sum
  let suffix ← sliceFrom (min length (digits.length + text.count '_')) text
  if suffix = [] ∨ suffix.head? = some 'u' ∨ suffix.head? = some 'i' then
    return Text.unsigned 128 digits
  else
    return none

/-- Goes through the values of the constants of a name for one that is as asked. A constant without
a name stops it. -/
def anyBody (name : Name) (asked : Expr → Outcome Unit Bool) :
    List Constant → Outcome Unit Bool
  | [] => .ok false
  | ⟨none, _, _⟩ :: _ => .crashed
  | ⟨some named, body, _⟩ :: constants =>
    match body with
    | some body =>
      if named = name then
        (asked body) >>= fun found => if found then .ok true else anyBody name asked constants
      else
        anyBody name asked constants
    | none => anyBody name asked constants

def findIntegerBody (name : Name) : List Constant → Outcome Unit (Option Nat)
  | [] => .ok none
  | ⟨none, _, _⟩ :: _ => .crashed
  | ⟨some named, body, _⟩ :: constants =>
    match body with
    | some (.literal text _) =>
      if named = name then
        (literalInteger text) >>= fun found =>
          if found.isSome then .ok found else findIntegerBody name constants
      else
        findIntegerBody name constants
    | _ => findIntegerBody name constants

/-- A bound of a range: with the file's constants, it may be the name of one. -/
def integer (constants : Option (List Constant)) : Option Expr → Outcome Unit (Option Nat)
  | some (.literal text _) => literalInteger text
  | some (.path (some name) _) =>
    match constants with
    | some constants => findIntegerBody name constants
    | none => .ok none
  | _ => .ok none

def onces : List (List Char) := ["once", "iter::once", "std::iter::once"].map String.toList

def adapters : List Name :=
  ["iter", "into_iter", "iter_mut", "enumerate", "copied", "cloned", "map", "rev"].map
    String.toList

/-- The answer for an iterable, given that for a constant's bare name. -/
def neverEmptyWith (constants : Option (List Constant)) (named : Name → Outcome Unit Bool) :
    Expr → Outcome Unit Bool
  | .array elements => .ok (elements ≠ [])
  | .range start stop inclusive => do
    match ← integer constants start, ← integer constants stop with
    | some start, some stop => return if inclusive then start ≤ stop else start < stop
    | _, _ => return false
  | .paren inner | .ref inner => neverEmptyWith constants named inner
  | .path (some name) _ => named name
  | .methodCall receiver name args _ =>
    if name = "split".toList ∨ name = "rsplit".toList then .ok true
    else if name = "chain".toList then
      (neverEmptyWith constants named receiver) >>= fun first =>
        if first then .ok true
        else
          match args with
          | [] => .ok false
          | argument :: _ => neverEmptyWith constants named argument
    else if name = "splitn".toList ∨ name = "rsplitn".toList then
      (integer constants args.head?) >>= fun count => .ok (count.any (0 < ·))
    else if name ∈ adapters then neverEmptyWith constants named receiver
    else .ok false
  | .call path _ => .ok (path.any (· ∈ onces))
  | _ => .ok false

/-- A constant's own value is read without following another. -/
def neverEmptyNaming (file : File) (constants : Bool) (iterable : Expr) : Outcome Unit Bool :=
  if constants then
    neverEmptyWith (some file.constants) (fun name =>
      anyBody name (neverEmptyWith none fun _ => .ok false) file.constants) iterable
  else
    neverEmptyWith none (fun _ => .ok false) iterable

def neverEmpty (file : File) (iterable : Expr) : Outcome Unit Bool :=
  neverEmptyNaming file true iterable

def forLoopAlternatives (file : File) (iterable : Expr) :
    Outcome Unit (List (String × String)) := do
  if ← neverEmpty file iterable then return [("entered", "entered")]
  else return [("zero", "zero iterations"), ("entered", "entered")]

end Answers

section Meanings

variable (file : File)

/-- Code whose value is not known. -/
def Expr.IsCode : Expr → Prop
  | .methodCall .. | .call .. | .other => True
  | _ => False

/-- The numbers that a bound or a count may be. A `static mut` is whatever it was set to. -/
inductive Value : Expr → Int → Prop where
  | literal (text : List Char) (number : Nat) : Value (.literal text (some number)) number
  | paren {inner : Expr} {value : Int} (same : Value inner value) : Value (.paren inner) value
  | constant {index : Nat} {name : Option Name} {body : Expr} {value : Int} (bare : Option Name)
      (leads : file.constants[index]? = some ⟨name, some body, false⟩) (same : Value body value) :
      Value (.path bare (some index)) value
  | mutable {index : Nat} {constant : Constant} (bare : Option Name) (value : Int)
      (leads : file.constants[index]? = some constant) (set : constant.isMut) :
      Value (.path bare (some index)) value
  | binding (bare : Option Name) (value : Int) : Value (.path bare none) value
  | code {expr : Expr} (value : Int) (code : expr.IsCode) : Value expr value

/-- How many items the evaluations of an iterable may yield. -/
inductive Yields : Expr → Nat → Prop where
  | array (elements : List (Bool × Expr)) : Yields (.array elements) (elements.countP Prod.fst)
  | «repeat» {count : Expr} {value : Int} (element : Expr) (counted : Value file count value) :
      Yields (.repeat element count) value.toNat
  | range {start stop : Expr} {first last : Int} (inclusive : Bool) (begins : Value file start first)
      (ends : Value file stop last) :
      Yields (.range (some start) (some stop) inclusive)
        ((if inclusive then last + 1 else last) - first).toNat
  | endless (start : Expr) (inclusive : Bool) (more : Nat) :
      Yields (.range (some start) none inclusive) (more + 1)
  | paren {inner : Expr} {items : Nat} (same : Yields inner items) : Yields (.paren inner) items
  | ref {inner : Expr} {items : Nat} (same : Yields inner items) : Yields (.ref inner) items
  | constant {index : Nat} {name : Option Name} {body : Expr} {items : Nat} (bare : Option Name)
      (leads : file.constants[index]? = some ⟨name, some body, false⟩) (same : Yields body items) :
      Yields (.path bare (some index)) items
  | mutable {index : Nat} {constant : Constant} (bare : Option Name) (items : Nat)
      (leads : file.constants[index]? = some constant) (set : constant.isMut) :
      Yields (.path bare (some index)) items
  | binding (bare : Option Name) (items : Nat) : Yields (.path bare none) items
  | split (receiver : Expr) (name : Name) (args : List Expr) (more : Nat) :
      Yields (.methodCall receiver name args .split) (more + 1)
  | splitn {count : Expr} {value : Int} {items : Nat} (receiver : Expr) (name : Name)
      (args : List Expr) (counted : Value file count value) (first : 0 < value → 0 < items)
      (atMost : items ≤ value.toNat) :
      Yields (.methodCall receiver name (count :: args) .splitn) items
  | chain {receiver argument : Expr} {items more : Nat} (name : Name) (args : List Expr)
      (first : Yields receiver items) (second : Yields argument more) :
      Yields (.methodCall receiver name (argument :: args) .chain) (items + more)
  | keeps {receiver : Expr} {items : Nat} (name : Name) (args : List Expr)
      (same : Yields receiver items) : Yields (.methodCall receiver name args .keeps) items
  | otherMethod (receiver : Expr) (name : Name) (args : List Expr) (items : Nat) :
      Yields (.methodCall receiver name args .other) items
  | once (path : Option (List Char)) : Yields (.call path true) 1
  | otherCall (path : Option (List Char)) (items : Nat) : Yields (.call path false) items
  | other (items : Nat) : Yields .other items

/-- What an expression's parts stand for leaves no evaluation without an item: an element stays, the
bounds' numbers are in order, the constant that the name leads to is never empty, and the methods
and functions are those that yield something. -/
def Certain : Expr → Prop
  | .array elements => ∃ element ∈ elements, element.1 = true
  | .repeat _ count => ∀ value, Value file count value → 0 < value
  | .range (some start) (some stop) inclusive => ∀ first last, Value file start first →
      Value file stop last → if inclusive then first ≤ last else first < last
  | .paren inner | .ref inner => Certain inner
  | .path _ (some index) => ∀ constant, file.constants[index]? = some constant →
      constant.isMut = false ∧
        ∀ body, constant.body = some body → ∀ items, Yields file body items → 0 < items
  | .path _ none => False
  | .methodCall receiver _ args method =>
    match method, args with
    | .split, _ => True
    | .splitn, count :: _ => ∀ value, Value file count value → 0 < value
    | .chain, argument :: _ => Certain receiver ∨ Certain argument
    | .keeps, _ => Certain receiver
    | .other, _ => False
    | _, [] => True
  | .call _ once => once = true
  | .range _ _ _ | .literal _ _ => True
  | .other => False

end Meanings

section Certain

variable {file : File}

theorem toNat_sub_pos {first last : Int} (inclusive : Bool) :
    0 < ((if inclusive then last + 1 else last) - first).toNat ↔
      if inclusive then first ≤ last else first < last := by
  cases inclusive with
  | true => simp only [if_true]; omega
  | false => simp only [Bool.false_eq_true, if_false]; omega

theorem certain_iff : (expr : Expr) →
    (Certain file expr ↔ ∀ items, Yields file expr items → 0 < items)
  | .literal text number => iff_of_true trivial nofun
  | .array elements => by
    have kept : Certain file (.array elements) ↔ 0 < elements.countP Prod.fst := by
      rw [Certain, List.countP_pos_iff]
    rw [kept]
    constructor
    · rintro some_ _ ⟨⟩
      exact some_
    · intro every
      exact every _ (.array elements)
  | .repeat element count => by
    rw [Certain]
    constructor
    · rintro every _ ⟨⟩
      next value counted => exact Int.lt_toNat.mpr (every value counted)
    · intro every value counted
      exact Int.lt_toNat.mp (every _ (.repeat element counted))
  | .range (some start) (some stop) inclusive => by
    rw [Certain]
    constructor
    · rintro every _ ⟨⟩
      next first last begins ends =>
        exact (toNat_sub_pos inclusive).mpr (every first last begins ends)
    · intro every first last begins ends
      exact (toNat_sub_pos inclusive).mp (every _ (.range inclusive begins ends))
  | .range (some start) none inclusive => by
    apply iff_of_true
    · trivial
    · rintro _ ⟨⟩
      exact Nat.succ_pos _
  | .range none stop inclusive => iff_of_true trivial nofun
  | .paren inner => by
    rw [Certain, certain_iff inner]
    constructor
    · rintro every items ⟨⟩
      exact every items ‹_›
    · exact fun every items yields => every items (.paren yields)
  | .ref inner => by
    rw [Certain, certain_iff inner]
    constructor
    · rintro every items ⟨⟩
      exact every items ‹_›
    · exact fun every items yields => every items (.ref yields)
  | .path bare (some index) => by
    rw [Certain]
    constructor
    · intro every items yields
      cases yields with
      | constant _ leads same => exact (every _ leads).2 _ rfl items same
      | mutable _ _ leads set => exact absurd ((every _ leads).1.symm.trans set) nofun
    · rintro every ⟨name, body, isMut⟩ leads
      cases isMut with
      | true => exact absurd (every 0 (.mutable bare 0 leads rfl)) (Nat.lt_irrefl 0)
      | false =>
        refine ⟨rfl, ?_⟩
        rintro body rfl items yields
        exact every items (.constant bare leads yields)
  | .path bare none =>
    iff_of_false id fun every => Nat.lt_irrefl 0 (every 0 (.binding bare 0))
  | .methodCall receiver name args .split => by
    rw [Certain]
    apply iff_of_true
    · trivial
    · rintro _ ⟨⟩
      exact Nat.succ_pos _
  | .methodCall receiver name [] .splitn => iff_of_true (by simp [Certain]) nofun
  | .methodCall receiver name (count :: args) .splitn => by
    rw [Certain]
    constructor
    · rintro every _ ⟨⟩
      next value counted first _ => exact first (every value counted)
    · intro every value counted
      by_contra none
      exact absurd (every 0 (.splitn receiver name args counted (fun some_ => absurd some_ none)
        (Nat.zero_le _))) (Nat.lt_irrefl 0)
  | .methodCall receiver name [] .chain => iff_of_true (by simp [Certain]) nofun
  | .methodCall receiver name (argument :: args) .chain => by
    rw [Certain, certain_iff receiver, certain_iff argument]
    constructor
    · rintro either _ ⟨⟩
      next items more first second =>
        rcases either with every | every
        · exact Nat.add_pos_left (every items first) more
        · exact Nat.add_pos_right items (every more second)
    · intro every
      by_contra neither
      simp only [not_or, not_forall, Nat.not_lt, Nat.le_zero] at neither
      obtain ⟨⟨_, first, rfl⟩, ⟨_, second, rfl⟩⟩ := neither
      exact absurd (every 0 (.chain name args first second)) (Nat.lt_irrefl 0)
  | .methodCall receiver name args .keeps => by
    rw [Certain, certain_iff receiver]
    constructor
    · rintro every items ⟨⟩
      exact every items ‹_›
    · exact fun every items yields => every items (.keeps name args yields)
  | .methodCall receiver name args .other => by
    rw [Certain]
    exact iff_of_false id fun every =>
      Nat.lt_irrefl 0 (every 0 (.otherMethod receiver name args 0))
  | .call path once => by
    rw [Certain]
    cases once with
    | true =>
      apply iff_of_true rfl
      rintro _ ⟨⟩
      exact Nat.one_pos
    | false => exact iff_of_false nofun fun every => Nat.lt_irrefl 0 (every 0 (.otherCall path 0))
  | .other => iff_of_false id fun every => Nat.lt_irrefl 0 (every 0 (.other 0))

/-- No loop whose outcome of zero iterations is left out has no iteration. -/
def File.NeverZero (file : File) : Prop :=
  ∀ iterable ∈ file.loops, neverEmpty file iterable = .ok true →
    ∀ items, Yields file iterable items → 0 < items

/-- `for part in reader.split(b',') {}`, of a `BufRead`. -/
def readerSplit : File where
  constants := []
  loops := [.methodCall (.path (some "reader".toList) none) "split".toList
    [.literal "b','".toList none] .other]

end Certain

section AsNamed

variable {file : File}

def MethodAsNamed (name : Name) (method : Method) : Prop :=
  (name = "split".toList ∨ name = "rsplit".toList → method = .split) ∧
    (name = "chain".toList → method = .chain) ∧
    (name = "splitn".toList ∨ name = "rsplitn".toList → method = .splitn) ∧
    (name ∈ adapters → method = .keeps)

/-- What an answer rests on stands for what it is taken for. -/
def AsNamedWith (named : Name → Option Nat → Prop) : Expr → Prop
  | .literal text number => ∀ value, literalInteger text = .ok (some value) → number = some value
  | .array elements => ∀ element ∈ elements, element.1 = true
  | .range (some start) (some stop) _ => AsNamedWith named start ∧ AsNamedWith named stop
  | .paren inner | .ref inner => AsNamedWith named inner
  | .path (some name) refers => named name refers
  | .methodCall receiver name args method => MethodAsNamed name method ∧
      AsNamedWith named receiver ∧
        match args with
        | [] => True
        | argument :: _ => AsNamedWith named argument
  | .call path once => path.any (· ∈ onces) → once = true
  | _ => True

def LeadsTo (file : File) (name : Name) (refers : Option Nat) (constant : Constant) : Prop :=
  ∃ index, refers = some index ∧ file.constants[index]? = some constant ∧
    constant.isMut = false ∧ ∀ other ∈ file.constants, other.name = some name → other = constant

def AsNamed (file : File) (iterable : Expr) : Prop :=
  AsNamedWith (fun name refers => ∃ constant, LeadsTo file name refers constant ∧
    ∀ body, constant.body = some body → AsNamedWith (fun _ _ => True) body) iterable

theorem mem_of_anyBody {name : Name} {asked : Expr → Outcome Unit Bool}
    {constants : List Constant} (found : anyBody name asked constants = .ok true) :
    ∃ constant ∈ constants, constant.name = some name ∧
      ∃ body, constant.body = some body ∧ asked body = .ok true := by
  fun_induction anyBody name asked constants with
  | case1 => cases found
  | case2 => cases found
  | case3 constants isMut body ih =>
    obtain ⟨answer, answered, rest⟩ := Outcome.bind_eq_ok.mp found
    cases answer with
    | true => exact ⟨_, List.mem_cons_self, rfl, body, rfl, answered⟩
    | false =>
      obtain ⟨constant, member, named⟩ := ih rest
      exact ⟨constant, List.mem_cons_of_mem _ member, named⟩
  | case4 constants named isMut body other ih =>
    obtain ⟨constant, member, named⟩ := ih found
    exact ⟨constant, List.mem_cons_of_mem _ member, named⟩
  | case5 constants named isMut ih =>
    obtain ⟨constant, member, named⟩ := ih found
    exact ⟨constant, List.mem_cons_of_mem _ member, named⟩

theorem mem_of_findIntegerBody {name : Name} {constants : List Constant} {value : Nat}
    (found : findIntegerBody name constants = .ok (some value)) :
    ∃ constant ∈ constants, constant.name = some name ∧ ∃ text number,
      constant.body = some (.literal text number) ∧ literalInteger text = .ok (some value) := by
  fun_induction findIntegerBody name constants with
  | case1 => cases found
  | case2 => cases found
  | case3 constants isMut text number ih =>
    obtain ⟨answer, answered, rest⟩ := Outcome.bind_eq_ok.mp found
    split at rest
    · cases rest
      exact ⟨_, List.mem_cons_self, rfl, text, number, rfl, answered⟩
    · obtain ⟨constant, member, named⟩ := ih rest
      exact ⟨constant, List.mem_cons_of_mem _ member, named⟩
  | case4 constants named isMut text number other ih =>
    obtain ⟨constant, member, named⟩ := ih found
    exact ⟨constant, List.mem_cons_of_mem _ member, named⟩
  | case5 constants named body isMut other ih =>
    obtain ⟨constant, member, named⟩ := ih found
    exact ⟨constant, List.mem_cons_of_mem _ member, named⟩

/-- An answer is right where bounds are read as the numbers they are, and where the answer for a
constant's name is right. -/
theorem certain_of_neverEmptyWith {constants : Option (List Constant)}
    {answer : Name → Outcome Unit Bool} {named : Name → Option Nat → Prop}
    (bounds : ∀ expr value, integer constants (some expr) = .ok (some value) →
      AsNamedWith named expr → ∀ number, Value file expr number → number = value)
    (paths : ∀ name refers, answer name = .ok true → named name refers →
      Certain file (.path (some name) refers)) :
    (iterable : Expr) → AsNamedWith named iterable →
      neverEmptyWith constants answer iterable = .ok true → Certain file iterable
  | .array [], _, answered => by cases answered
  | .array (element :: elements), meant, _ => by
    rw [Certain]
    rw [AsNamedWith] at meant
    exact ⟨element, List.mem_cons_self, meant element List.mem_cons_self⟩
  | .range (some start) (some stop) inclusive, meant, answered => by
    rw [AsNamedWith] at meant
    rw [neverEmptyWith] at answered
    rw [Certain]
    obtain ⟨first, begins, answered⟩ := Outcome.bind_eq_ok.mp answered
    obtain ⟨last, ends, answered⟩ := Outcome.bind_eq_ok.mp answered
    cases first with
    | none => cases answered
    | some first =>
      cases last with
      | none => cases answered
      | some last =>
        intro number other isFirst isLast
        rw [bounds start first begins meant.1 number isFirst, bounds stop last ends meant.2 other isLast]
        cases inclusive with
        | true => exact Int.ofNat_le.mpr (of_decide_eq_true (Outcome.ok.inj answered))
        | false => exact Int.ofNat_lt.mpr (of_decide_eq_true (Outcome.ok.inj answered))
  | .range (some _) none _, _, _ => by simp [Certain]
  | .range none _ _, _, _ => by simp [Certain]
  | .paren inner, meant, answered => by
    rw [AsNamedWith] at meant
    rw [neverEmptyWith] at answered
    rw [Certain]
    exact certain_of_neverEmptyWith bounds paths inner meant answered
  | .ref inner, meant, answered => by
    rw [AsNamedWith] at meant
    rw [neverEmptyWith] at answered
    rw [Certain]
    exact certain_of_neverEmptyWith bounds paths inner meant answered
  | .path (some name) refers, meant, answered => by
    rw [AsNamedWith] at meant
    rw [neverEmptyWith] at answered
    exact paths name refers answered meant
  | .path none _, _, answered => by cases answered
  | .methodCall receiver name args method, meant, answered => by
    unfold AsNamedWith at meant
    obtain ⟨⟨splits, chains, counts, keeps⟩, meant, argued⟩ := meant
    unfold neverEmptyWith at answered
    split at answered
    · next split_ => simp [Certain, splits split_]
    split at answered
    · next chain =>
      rw [chains chain]
      obtain ⟨first, asked, answered⟩ := Outcome.bind_eq_ok.mp answered
      cases args with
      | nil => simp [Certain]
      | cons argument args =>
        rw [Certain]
        cases first with
        | true => exact .inl (certain_of_neverEmptyWith bounds paths receiver meant asked)
        | false => exact .inr (certain_of_neverEmptyWith bounds paths argument argued answered)
    split at answered
    · next splitn =>
      rw [counts splitn]
      cases args with
      | nil => simp [Certain]
      | cons count args =>
        rw [Certain]
        intro number isNumber
        obtain ⟨value, counted, answered⟩ := Outcome.bind_eq_ok.mp answered
        have some_ := Outcome.ok.inj answered
        rw [Option.any_eq_true] at some_
        obtain ⟨value, rfl, positive⟩ := some_
        rw [bounds count value counted argued number isNumber]
        exact Int.natCast_pos.mpr (of_decide_eq_true positive)
    split at answered
    · next adapter =>
      rw [keeps adapter, Certain]
      exact certain_of_neverEmptyWith bounds paths receiver meant answered
    · cases answered
  | .call path once, meant, answered => by
    rw [AsNamedWith] at meant
    rw [Certain]
    exact meant (Outcome.ok.inj answered)
  | .literal _ _, _, answered => by cases answered
  | .repeat _ _, _, answered => by cases answered
  | .other, _, answered => by cases answered

end AsNamed

end Loops

end Supercov.Rust
