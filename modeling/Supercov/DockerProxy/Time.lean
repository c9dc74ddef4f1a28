import Supercov.Library.Outcome
import Supercov.Library.Text

/-!
# Reading the daemon's times

A time of RFC 3339 is read as milliseconds since the epoch: its fields one by one, then the days
of its date and the seconds of its clock and offset, in integers of 64 bits.
-/

namespace Supercov.DockerProxy

/-- Nothing is refused but a text that is no time. -/
abbrev Timing := Outcome Unit

def known {Value : Type} : Option Value → Timing Value
  | some value => .ok value
  | none => .refused ⟨⟩

/-- The integers of 64 bits with a sign. -/
def InI64 (value : Int) : Prop := -2 ^ 63 ≤ value ∧ value < 2 ^ 63

instance (value : Int) : Decidable (InI64 value) := inferInstanceAs (Decidable (_ ∧ _))

/-- An operation of the arithmetic, which must not overflow. -/
def i64 (value : Int) : Timing Int := if InI64 value then .ok value else .crashed

/-- `str::parse::<i64>` -/
def signed (text : List Char) : Option Int :=
  let (negative, digits) :=
    match text with
    | '-' :: rest => (true, rest)
    | '+' :: rest => (false, rest)
    | _ => (false, text)
  if digits ≠ [] ∧ digits.all Char.isDigit then
    let size : Int := Nat.ofDigitChars 10 digits 0
    some (if negative then -size else size) |>.filter (InI64 ·)
  else
    none

structure DateFields where
  year : Int
  month : Int
  day : Int

structure ClockFields where
  hour : Int
  minute : Int
  second : Int
  millis : Int

inductive Zone where
  | utc
  | offset (negative : Bool) (hours minutes : Int)

/-- Pieces behind the third are not looked at. -/
def readDate (date : List Char) : Option DateFields :=
  match date.splitOnP (· = '-') with
  | year :: month :: day :: _ => do
    return { year := ← signed year, month := ← signed month, day := ← signed day }
  | _ => none

def isSign (c : Char) : Bool := c = '+' || c = '-'

def rfindSign (text : List Char) : Option (List Char × Char × List Char) :=
  match text.reverse.dropWhile fun c => !isSign c with
  | [] => none
  | sign :: before =>
    some (before.reverse, sign, (text.reverse.takeWhile fun c => !isSign c).reverse)

def readZone (rest : List Char) : Option (List Char × Zone) :=
  if rest.getLast? = some 'Z' then some (rest.dropLast, .utc)
  else do
    let (time, sign, offset) ← rfindSign rest
    match offset.splitOnP (· = ':') with
    | [] => none
    | hours :: others =>
      return (time, .offset (sign = '-') (← signed hours) (← signed (others.head?.getD ['0'])))

/-- The first three digits of a fraction, filled up with zeros. -/
def readFraction (fraction : List Char) : Option Int :=
  signed ((fraction ++ List.replicate (3 - fraction.length) '0').take 3)

def readClock (time : List Char) : Option ClockFields :=
  let (clock, fraction) := (Text.splitOnce '.' time).getD (time, ['0'])
  match clock.splitOnP (· = ':') with
  | hour :: minute :: second :: _ => do
    return {
      hour := ← signed hour
      minute := ← signed minute
      second := ← signed second
      millis := ← readFraction fraction }
  | _ => none

def offsetSeconds : Zone → Timing Int
  | .utc => .ok 0
  | .offset negative hours minutes => do
    let hours ← i64 (hours * 3600)
    let minutes ← i64 (minutes * 60)
    let seconds ← i64 (hours + minutes)
    i64 ((if negative then -1 else 1) * seconds)

/-- Days from the civil date (Howard Hinnant's algorithm). -/
def daysFromCivil (date : DateFields) : Timing Int := do
  let year ← if date.month ≤ 2 then i64 (date.year - 1) else .ok date.year
  let era := year / 400
  let eraYears ← i64 (era * 400)
  let yearOfEra ← i64 (year - eraYears)
  let month ← i64 (date.month + 9)
  let monthIndex := month.tmod 12
  let monthDays ← i64 (153 * monthIndex)
  let monthDays ← i64 (monthDays + 2)
  let dayOfYear ← i64 (monthDays.tdiv 5 + date.day)
  let dayOfYear ← i64 (dayOfYear - 1)
  let yearDays ← i64 (yearOfEra * 365)
  let yearDays ← i64 (yearDays + yearOfEra.tdiv 4)
  let yearDays ← i64 (yearDays - yearOfEra.tdiv 100)
  let dayOfEra ← i64 (yearDays + dayOfYear)
  let eraDays ← i64 (era * 146097)
  let days ← i64 (eraDays + dayOfEra)
  i64 (days - 719468)

def millisOf (date : DateFields) (clock : ClockFields) (offset : Int) : Timing Int := do
  let days ← daysFromCivil date
  let seconds ← i64 (days * 86400)
  let hours ← i64 (clock.hour * 3600)
  let seconds ← i64 (seconds + hours)
  let minutes ← i64 (clock.minute * 60)
  let seconds ← i64 (seconds + minutes)
  let seconds ← i64 (seconds + clock.second)
  let seconds ← i64 (seconds - offset)
  let millis ← i64 (seconds * 1000)
  i64 (millis + clock.millis)

def parseRfc3339Ms (text : List Char) : Timing Int := do
  let (date, rest) ← known (Text.splitOnce 'T' text)
  let date ← known (readDate date)
  let (time, zone) ← known (readZone rest)
  let offset ← offsetSeconds zone
  let clock ← known (readClock time)
  millisOf date clock offset

def AllFit (values : List Int) : Prop := ∀ value ∈ values, InI64 value

instance (values : List Int) : Decidable (AllFit values) :=
  inferInstanceAs (Decidable (∀ value ∈ values, InI64 value))

namespace Zone

def seconds : Zone → Int
  | utc => 0
  | offset negative hours minutes => (if negative then -1 else 1) * (hours * 3600 + minutes * 60)

def steps : Zone → List Int
  | utc => []
  | offset negative hours minutes =>
    [hours * 3600, minutes * 60, hours * 3600 + minutes * 60, (offset negative hours minutes).seconds]

end Zone

namespace DateFields

variable (date : DateFields)

def marchYear : Int := if date.month ≤ 2 then date.year - 1 else date.year

def yearOfEra : Int := date.marchYear - date.marchYear / 400 * 400

def dayOfYear : Int := (153 * (date.month + 9).tmod 12 + 2).tdiv 5 + date.day - 1

def dayOfEra : Int :=
  date.yearOfEra * 365 + date.yearOfEra.tdiv 4 - date.yearOfEra.tdiv 100 + date.dayOfYear

def days : Int := date.marchYear / 400 * 146097 + date.dayOfEra - 719468

def steps : List Int :=
  (if date.month ≤ 2 then [date.year - 1] else []) ++
    [date.marchYear / 400 * 400, date.yearOfEra, date.month + 9, 153 * (date.month + 9).tmod 12,
      153 * (date.month + 9).tmod 12 + 2, (153 * (date.month + 9).tmod 12 + 2).tdiv 5 + date.day,
      date.dayOfYear, date.yearOfEra * 365, date.yearOfEra * 365 + date.yearOfEra.tdiv 4,
      date.yearOfEra * 365 + date.yearOfEra.tdiv 4 - date.yearOfEra.tdiv 100, date.dayOfEra,
      date.marchYear / 400 * 146097, date.marchYear / 400 * 146097 + date.dayOfEra, date.days]

end DateFields

namespace ClockFields

variable (clock : ClockFields) (days offset : Int)

def seconds : Int :=
  days * 86400 + clock.hour * 3600 + clock.minute * 60 + clock.second - offset

def millisSince : Int := clock.seconds days offset * 1000 + clock.millis

def steps : List Int :=
  [days * 86400, clock.hour * 3600, days * 86400 + clock.hour * 3600, clock.minute * 60,
    days * 86400 + clock.hour * 3600 + clock.minute * 60,
    days * 86400 + clock.hour * 3600 + clock.minute * 60 + clock.second,
    clock.seconds days offset, clock.seconds days offset * 1000, clock.millisSince days offset]

end ClockFields

section Exact

theorem i64_bind {Value : Type} (value : Int) (next : Int → Timing Value) :
    (i64 value >>= next) = if InI64 value then next value else .crashed := by
  unfold i64
  split_ifs <;> rfl

theorem allFit_cons {value : Int} {values : List Int} :
    AllFit (value :: values) ↔ InI64 value ∧ AllFit values :=
  List.forall_mem_cons

theorem allFit_nil : AllFit [] := fun _ member => absurd member List.not_mem_nil

theorem offsetSeconds_eq (zone : Zone) :
    offsetSeconds zone = if AllFit zone.steps then .ok zone.seconds else .crashed := by
  cases zone with
  | utc => exact (if_pos allFit_nil).symm
  | offset negative hours minutes =>
    simp only [offsetSeconds, i64_bind, Zone.steps, Zone.seconds, allFit_cons, allFit_nil, and_true,
      ite_and]
    rfl

theorem daysFromCivil_eq (date : DateFields) :
    daysFromCivil date = if AllFit date.steps then .ok date.days else .crashed := by
  by_cases early : date.month ≤ 2
  · simp only [daysFromCivil, DateFields.steps, DateFields.days, DateFields.dayOfEra,
      DateFields.dayOfYear, DateFields.yearOfEra, DateFields.marchYear, if_pos early,
      List.singleton_append, i64_bind, allFit_cons, allFit_nil, and_true, ite_and]
    rfl
  · simp only [daysFromCivil, DateFields.steps, DateFields.days, DateFields.dayOfEra,
      DateFields.dayOfYear, DateFields.yearOfEra, DateFields.marchYear, if_neg early,
      List.nil_append, Outcome.ok_bind, i64_bind, allFit_cons, allFit_nil, and_true, ite_and]
    rfl

theorem millisOf_eq (date : DateFields) (clock : ClockFields) (offset : Int) :
    millisOf date clock offset =
      if AllFit date.steps ∧ AllFit (clock.steps date.days offset) then
        .ok (clock.millisSince date.days offset)
      else .crashed := by
  unfold millisOf
  rw [daysFromCivil_eq]
  by_cases fits : AllFit date.steps
  · simp only [fits, if_true, true_and, Outcome.ok_bind, ClockFields.steps,
      ClockFields.millisSince, ClockFields.seconds, i64_bind, allFit_cons, allFit_nil, and_true,
      ite_and]
    rfl
  · simp [fits]

end Exact

end Supercov.DockerProxy
