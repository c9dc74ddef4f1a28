import Supercov.Library.Counters
import Supercov.Library.Outcome
import Supercov.Library.Text
import Mathlib.Data.List.Lex

/-!
# Reading an LCOV tracefile

A tracefile is read line by line into what each recorded file says ran: its lines and the starts
of its functions, with their counts.
-/

namespace Supercov.OutsideEvidence

open Ordered (put find)

abbrev Name := List Char

abbrev Counts := List (Nat × Nat)

structure RecordedFile where
  lines : Counts
  functions : Counts
  deriving DecidableEq

abbrev RecordedFiles := List (Name × RecordedFile)

inductive LcovError where
  | notNumber (index : Nat) (what : String) (value : List Char)
  | beforeFile (index : Nat) (tag : List Char)
  | daFields (index : Nat)
  | malformed (index : Nat) (tag : List Char)
  | noFile
  deriving DecidableEq

def maxCount : Nat := 2 ^ 64 - 1

/-- What `saturating_add` keeps of a sum. -/
def saturated (sum : Nat) : Nat := min sum maxCount

def Counts.note (counts : Counts) (line count : Nat) : Counts :=
  Counters.note saturated counts (line, count)

section Numbers

/-- Whether a decimal number, with so many of its digits behind the point and this exponent, is
over half of the least positive `f64`, and so not read as zero. -/
def decimalNonzero (digits : List Char) (fraction : Nat) (exponent : Int) : Bool :=
  let scale := exponent - fraction
  10 ^ (-scale).toNat < Nat.ofDigitChars 10 digits 0 * 2 ^ 1075 * 10 ^ scale.toNat

def exponentOf (text : List Char) : Option Int :=
  match text with
  | [] => some 0
  | e :: rest =>
    let digits := if rest.head? = some '+' ∨ rest.head? = some '-' then rest.tail else rest
    if (e = 'e' ∨ e = 'E') ∧ digits ≠ [] ∧ digits.all Char.isDigit then
      let size : Int := Nat.ofDigitChars 10 digits 0
      some (if rest.head? = some '-' then -size else size)
    else none

/-- Whether the text is an `f64` other than zero; one that is not a number is other than zero. -/
def floatNonzero (text : List Char) : Bool :=
  let body := if text.head? = some '+' ∨ text.head? = some '-' then text.tail else text
  let whole := body.takeWhile Char.isDigit
  let behind := body.dropWhile Char.isDigit
  let fraction := if behind.head? = some '.' then behind.tail.takeWhile Char.isDigit else []
  let rest := if behind.head? = some '.' then behind.tail.dropWhile Char.isDigit else behind
  if body.map Char.toLower ∈ ["inf".toList, "infinity".toList, "nan".toList] then true
  else if whole = [] ∧ fraction = [] then false
  else (exponentOf rest).any fun exponent =>
    decimalNonzero (whole ++ fraction) fraction.length exponent

def number (value : List Char) (what : String) (index : Nat) : Outcome LcovError Nat :=
  match Text.unsigned 64 (Text.trim value) with
  | some n => .ok n
  | none => .refused (.notNumber index what value)

end Numbers

section Fields

/-- `DA:<line>,<count>[,<checksum>]`, with a count of one for any other number than zero. -/
def daFields (index : Nat) (fields : List (List Char)) : Outcome LcovError (Nat × Nat) :=
  match fields with
  | line :: count :: _ => do
    let line ← number line "DA line" index
    let count := match Text.unsigned 64 (Text.trim count) with
      | some count => count
      | none => if floatNonzero (Text.trim count) then 1 else 0
    return (line, count)
  | _ => .refused (.daFields index)

/-- `FN:<line>,<name>` or, in LCOV 2, `FN:<line>,<end>,<name>`. -/
def fnFields (index : Nat) (fields : List (List Char)) : Outcome LcovError (Name × Nat) :=
  match fields with
  | line :: name :: rest => do
    let line ← number line "FN line" index
    return ((name :: rest).getLast (List.cons_ne_nil _ _), line)
  | _ => .refused (.malformed index "FN".toList)

/-- `FNDA:<count>,<name>`: the name as it is, and its last part. -/
def fndaFields (index : Nat) (fields : List (List Char)) :
    Outcome LcovError (Nat × Name × Name) :=
  match fields with
  | count :: name :: rest => do
    let count ← number count "FNDA count" index
    return (count, [','].intercalate (name :: rest), (name :: rest).getLast (List.cons_ne_nil _ _))
  | _ => .refused (.malformed index "FNDA".toList)

end Fields

structure Reader where
  files : RecordedFiles
  current : Option Name
  functionLines : List (Name × Nat)

def register (file : Name) (files : RecordedFiles) : RecordedFiles :=
  if (find file files).isSome then files else put file { lines := [], functions := [] } files

def functionLine (functionLines : List (Name × Nat)) (name last : Name) : Option Nat :=
  (find name functionLines).or (find last functionLines)

def readLine (reader : Reader) (index : Nat) (raw : List Char) : Outcome LcovError Reader :=
  let line := Text.trim raw
  if line = [] then .ok reader
  else if line = "end_of_record".toList then .ok { reader with current := none, functionLines := [] }
  else
    match Text.splitOnce ':' line with
    | none => .ok reader
    | some (tag, value) =>
      if tag = "SF".toList then
        .ok { files := register value reader.files, current := some value, functionLines := [] }
      else if tag ∈ ["DA".toList, "FN".toList, "FNDA".toList] then
        match reader.current with
        | none => .refused (.beforeFile index tag)
        | some file =>
          match find file reader.files with
          | none => .crashed
          | some record =>
            let fields := value.splitOn ','
            if tag = "DA".toList then do
              let (line, count) ← daFields index fields
              return { reader with
                files := put file { record with lines := record.lines.note line count } reader.files }
            else if tag = "FN".toList then do
              let (name, line) ← fnFields index fields
              return { reader with functionLines := put name line reader.functionLines }
            else do
              let (count, name, last) ← fndaFields index fields
              match functionLine reader.functionLines name last with
              | none => return reader
              | some line =>
                return { reader with
                  files :=
                    put file { record with functions := record.functions.note line count }
                      reader.files }
      else .ok reader

def readLines (reader : Reader) (index : Nat) : List (List Char) → Outcome LcovError Reader
  | [] => .ok reader
  | raw :: lines => do
    let reader ← readLine reader index raw
    readLines reader (index + 1) lines

def parseLcov (text : List Char) : Outcome LcovError RecordedFiles := do
  let reader ← readLines { files := [], current := none, functionLines := [] } 1 (Text.lines text)
  if reader.files = [] then .refused .noFile else .ok reader.files

end Supercov.OutsideEvidence
