import Supercov.Library.Ordered
import Supercov.Library.Outcome
import Supercov.Library.Text
import Mathlib.Data.List.Lex
import Mathlib.Order.Interval.Finset.Nat

/-!
# The lines a patch adds

A diff is read line by line: a line that begins like the name of a post-image names the file,
and one that begins like the head of a hunk says which of its lines are new.
-/

namespace Supercov.PatchView

open Ordered (put find)

abbrev Path := List Char

abbrev ChangedLines := List (Path × Finset Nat)

structure Reader where
  changed : ChangedLines
  file : Option Path

/-- The file a name line names; none of a deletion, which has no post-image. -/
def postImage (rest : List Char) : Option Path :=
  (((rest.dropPrefix? "b/".toList).or (some rest)).filter (· ≠ "/dev/null".toList)).map Text.trimEnd

/-- The first line a hunk adds, and how many. -/
def addedRange (rest : List Char) : Option (Nat × Nat) := do
  let plus ← (Text.words rest).find? (·.head? = some '+')
  let numbers := plus.tail.splitOn ','
  let start ← numbers.head?.bind (Text.unsigned 64)
  let count := ((numbers[1]?).elim (some 1) (Text.unsigned 64)).getD 1
  return (start, count)

def changedLine (reader : Reader) (line : List Char) : Outcome Empty Reader :=
  match line.dropPrefix? "+++ ".toList with
  | some rest => .ok { reader with file := postImage rest }
  | none =>
    match line.dropPrefix? "@@ ".toList, reader.file with
    | some rest, some file =>
      match addedRange rest with
      | none => .ok reader
      | some (start, count) =>
        if count = 0 then .ok reader
        else do
          let stop ← Checked.add 64 start count
          let held := (find file reader.changed).getD ∅
          return { reader with changed := put file (held ∪ Finset.Ico start stop) reader.changed }
    | _, _ => .ok reader

def changedLines (diff : List Char) : Outcome Empty ChangedLines := do
  let reader ← (Text.lines diff).foldlM changedLine { changed := [], file := none }
  return reader.changed

/-!
A change of files as its diff with no context shows it: of each file, the lines both versions
have, and between them what one version has and the other has not.
-/

abbrev Line := { line : List Char // '\n' ∉ line }

structure Hunk where
  /-- The lines both versions have, since the hunk before. -/
  kept : List Line
  removed : List Line
  added : List Line
  /-- Whether the last line removed, or added, ends its file without a line feed. -/
  removedUnended : Bool
  addedUnended : Bool
  /-- What stands behind the numbers of the hunk: often the function it is in. -/
  heading : Line

def newVersion (hunks : List Hunk) (rest : List Line) : List (Line × Bool) :=
  hunks.flatMap (fun hunk => hunk.kept.map (·, false) ++ hunk.added.map (·, true)) ++
    rest.map (·, false)

def oldVersion (hunks : List Hunk) (rest : List Line) : List Line :=
  hunks.flatMap (fun hunk => hunk.kept ++ hunk.removed) ++ rest

structure FileChange where
  /-- The file before and after; none where there is none. -/
  old : Option Path
  new : Option Path
  hunks : List Hunk
  /-- The lines both versions have, since the last hunk. -/
  rest : List Line
  /-- What the diff says of the file before its hunks: its names, modes and blobs. -/
  header : List Line
  worded : ∀ line ∈ header, ∀ c ∈ line.val.head?, c ≠ '+' ∧ c ≠ '@'
  made : old = none → oldVersion hunks rest = []
  gone : new = none → newVersion hunks rest = []
  fits : (newVersion hunks rest).length < 2 ^ 63

structure Change where
  files : List FileChange
  apart : (files.filterMap (·.new)).Nodup

def FileChange.Adds (file : FileChange) (n : Nat) : Prop :=
  ∃ line, 0 < n ∧ (newVersion file.hunks file.rest)[n - 1]? = some (line, true)

structure Exact (change : Change) (changed : ChangedLines) : Prop where
  lines : ∀ file ∈ change.files, ∀ path, file.new = some path →
    ∀ n, n ∈ (find path changed).getD ∅ ↔ file.Adds n
  files : ∀ path ∈ changed.map Prod.fst, ∃ file ∈ change.files, file.new = some path

section Writing

/-- A character that is not written as it is in a name. -/
def isEscaped (c : Char) : Bool := c.toNat < 0x20 || c.toNat = 0x7f || c = '"' || c = '\\'

def octal (n : Nat) : List Char := [n / 64 % 8, n / 8 % 8, n % 8].map Nat.digitChar

def escape (c : Char) : List Char :=
  if c = '\n' then ['\\', 'n']
  else if c = '\t' then ['\\', 't']
  else if c = '\r' then ['\\', 'r']
  else if c = '\x07' then ['\\', 'a']
  else if c = '\x08' then ['\\', 'b']
  else if c = '\x0b' then ['\\', 'v']
  else if c = '\x0c' then ['\\', 'f']
  else if c = '"' ∨ c = '\\' then ['\\', c]
  else if isEscaped c then '\\' :: octal c.toNat
  else [c]

def quoted (side : Char) (path : Path) : List Char :=
  if path.any isEscaped then '"' :: (side :: '/' :: path).flatMap escape ++ ['"']
  else side :: '/' :: path

/-- The name as a diff has it: with a tab behind it where a space is in it. -/
def label (side : Char) : Option Path → List Char
  | none => "/dev/null".toList
  | some path => quoted side path ++ if ' ' ∈ quoted side path then ['\t'] else []

/-- So many lines behind the first `before`: the number of the first, and how many if not one. -/
def rangeText (before count : Nat) : List Char :=
  Text.decimal (if count = 0 then before else before + 1) ++
    if count = 1 then [] else ',' :: Text.decimal count

def unendedText (unended : Bool) : List (List Char) :=
  if unended then ["\\ No newline at end of file".toList] else []

/-- A hunk behind so many lines of each version. -/
def Hunk.text (hunk : Hunk) (before after : Nat) : List (List Char) :=
  ("@@ -".toList ++ rangeText before hunk.removed.length ++ " +".toList ++
      rangeText after hunk.added.length ++ " @@".toList ++ hunk.heading.val) ::
    (hunk.removed.map ('-' :: ·.val) ++ unendedText hunk.removedUnended ++
      (hunk.added.map ('+' :: ·.val) ++ unendedText hunk.addedUnended))

def hunksText (before after : Nat) : List Hunk → List (List Char)
  | [] => []
  | hunk :: hunks =>
    hunk.text (before + hunk.kept.length) (after + hunk.kept.length) ++
      hunksText (before + hunk.kept.length + hunk.removed.length)
        (after + hunk.kept.length + hunk.added.length) hunks

def FileChange.text (file : FileChange) : List (List Char) :=
  file.header.map (·.val) ++
    if file.hunks.isEmpty then []
    else
      ("--- ".toList ++ label 'a' file.old) :: ("+++ ".toList ++ label 'b' file.new) ::
        hunksText 0 0 file.hunks

def Change.diff (change : Change) : List Char :=
  (change.files.flatMap (·.text)).flatMap (· ++ ['\n'])

end Writing

end Supercov.PatchView
