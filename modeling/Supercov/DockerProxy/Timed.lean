import Supercov.DockerProxy.Time
import Supercov.Library.Calendar
import Mathlib.Algebra.Order.Floor.Ring
import Mathlib.Data.Rat.Floor

/-!
# Times that are read exactly

What the texts of RFC 3339 mean, and where the reader gives that.
-/

namespace Supercov.DockerProxy

open Calendar (Date)

structure Offset where
  negative : Bool
  hours : Nat
  minutes : Nat
  bounds : hours ≤ 23 ∧ minutes ≤ 59

/-- A time of RFC 3339: a date and a clock, with a fraction of the second in any digits, in UTC
or at an offset from it. -/
structure Rfc3339Time where
  date : Date
  hour : Nat
  minute : Nat
  second : Nat
  clock_bounds : hour ≤ 23 ∧ minute ≤ 59 ∧ second ≤ 60
  fraction : List Char
  fraction_digits : fraction.all Char.isDigit
  offset : Option Offset

def padded (width n : Nat) : List Char :=
  List.replicate (width - (Text.decimal n).length) '0' ++ Text.decimal n

namespace Rfc3339Time

variable (time : Rfc3339Time)

def spelledDate : List Char :=
  padded 4 time.date.year ++ '-' :: (padded 2 time.date.month ++ '-' :: padded 2 time.date.day)

def spelledClock : List Char :=
  padded 2 time.hour ++ ':' :: (padded 2 time.minute ++ ':' :: padded 2 time.second)

def spelledFraction : List Char := if time.fraction = [] then [] else '.' :: time.fraction

def spelledOffset (zulu : Char) : List Char :=
  match time.offset with
  | none => [zulu]
  | some offset =>
    (if offset.negative then '-' else '+') ::
      (padded 2 offset.hours ++ ':' :: padded 2 offset.minutes)

/-- The texts of a time: the letters may be small ones. -/
def spelled (separator zulu : Char) : List Char :=
  time.spelledDate ++ separator ::
    (time.spelledClock ++ (time.spelledFraction ++ time.spelledOffset zulu))

def offsetSeconds : Int :=
  match time.offset with
  | none => 0
  | some offset => (if offset.negative then -1 else 1) * (offset.hours * 3600 + offset.minutes * 60)

def seconds : Int :=
  time.date.dayNumber * 86400 + time.hour * 3600 + time.minute * 60 + time.second -
    time.offsetSeconds

def instant : ℚ :=
  time.seconds + (Nat.ofDigitChars 10 time.fraction 0 : ℚ) / (10 ^ time.fraction.length : Nat)

end Rfc3339Time

section Digits

variable {text : List Char}

theorem ne_of_isDigit {c d : Char} (digit : c.isDigit = true) (other : d.isDigit = false) :
    c ≠ d := by
  rintro rfl
  rw [other] at digit
  exact Bool.false_ne_true digit

theorem isDigit_of_mem_padded {width n : Nat} {c : Char} (member : c ∈ padded width n) :
    c.isDigit = true := by
  rcases List.mem_append.mp member with zero | digit
  · rw [List.eq_of_mem_replicate zero]
    rfl
  · exact Text.isDigit_of_mem_decimal digit

theorem not_mem_padded {width n : Nat} {d : Char} (other : d.isDigit = false) : d ∉ padded width n :=
  fun member => ne_of_isDigit (isDigit_of_mem_padded member) other rfl

theorem padded_ne_nil (width n : Nat) : padded width n ≠ [] := by
  unfold padded
  exact List.append_ne_nil_of_right_ne_nil _ Text.decimal_ne_nil

theorem signed_digits (some_ : text ≠ []) (digits : text.all Char.isDigit)
    (fits : Nat.ofDigitChars 10 text 0 < 2 ^ 63) :
    signed text = some (Nat.ofDigitChars 10 text 0 : Int) := by
  have range : InI64 (Nat.ofDigitChars 10 text 0 : Int) := by
    unfold InI64
    omega
  cases text with
  | nil => exact absurd rfl some_
  | cons c rest =>
    have digit : c.isDigit = true := (Bool.and_eq_true_iff.mp digits).1
    have plain : c ≠ '-' ∧ c ≠ '+' := ⟨ne_of_isDigit digit rfl, ne_of_isDigit digit rfl⟩
    unfold signed
    split
    next held =>
      split at held
      · next same => exact absurd (List.cons.inj same).1 plain.1
      · next same => exact absurd (List.cons.inj same).1 plain.2
      · obtain ⟨rfl, rfl⟩ := Prod.mk.inj held
        rw [if_pos ⟨some_, digits⟩]
        simp [range]

theorem ofDigitChars_padded (width n : Nat) : Nat.ofDigitChars 10 (padded width n) 0 = n := by
  rw [padded, Nat.ofDigitChars_append, Nat.ofDigitChars_replicate_zero, Nat.mul_zero, Text.decimal,
    Nat.ofDigitChars_ten_toDigits]

theorem signed_padded {width n : Nat} (small : n ≤ 9999) :
    signed (padded width n) = some (n : Int) := by
  have digits : (padded width n).all Char.isDigit :=
    List.all_eq_true.mpr fun _ member => isDigit_of_mem_padded member
  have value := signed_digits (padded_ne_nil width n) digits (by rw [ofDigitChars_padded]; omega)
  rwa [ofDigitChars_padded] at value

theorem splitOnP_three {mark : Char} (other : mark.isDigit = false) (first second third : List Char)
    (digits : ∀ c ∈ first ++ second ++ third, c.isDigit = true) :
    (first ++ mark :: (second ++ mark :: third)).splitOnP (· = mark) = [first, second, third] := by
  have unmarked : ∀ c ∈ first ++ second ++ third, decide (c = mark) = false := fun c member =>
    decide_eq_false (ne_of_isDigit (digits c member) other)
  simp only [List.mem_append] at unmarked
  rw [List.splitOnP_append_cons_of_forall_mem (fun c member => unmarked c (Or.inl (Or.inl member))) _
      (decide_eq_true rfl),
    List.splitOnP_append_cons_of_forall_mem (fun c member => unmarked c (Or.inl (Or.inr member))) _
      (decide_eq_true rfl),
    List.splitOnP_eq_singleton fun c member => unmarked c (Or.inr member)]

theorem ofDigitChars_lt (digits : text.all Char.isDigit) :
    Nat.ofDigitChars 10 text 0 < 10 ^ text.length := by
  induction text with
  | nil => exact Nat.one_pos
  | cons c rest inductionHypothesis =>
    obtain ⟨digit, digits⟩ := Bool.and_eq_true_iff.mp digits
    have ⟨low, high⟩ : 48 ≤ c.toNat ∧ c.toNat ≤ 57 := by
      simpa [Char.isDigit, UInt32.le_iff_toNat_le] using digit
    have size : c.toNat - '0'.toNat ≤ 9 := by
      have zero : '0'.toNat = 48 := rfl
      omega
    rw [Nat.ofDigitChars_cons, Nat.mul_zero, Nat.zero_add, Nat.ofDigitChars_eq_ofDigitChars_zero,
      List.length_cons, pow_succ]
    have first := Nat.mul_le_mul_left (10 ^ rest.length) size
    have others := inductionHypothesis digits
    omega

theorem readFraction_digits (digits : text.all Char.isDigit) :
    readFraction text =
      some ((1000 * Nat.ofDigitChars 10 text 0 / 10 ^ text.length : Nat) : Int) := by
  have all : ∀ c ∈ text ++ List.replicate (3 - text.length) '0', c.isDigit = true := by
    intro c member
    rcases List.mem_append.mp member with digit | zero
    · exact List.all_eq_true.mp digits c digit
    · rw [List.eq_of_mem_replicate zero]
      rfl
  have length : ((text ++ List.replicate (3 - text.length) '0').take 3).length = 3 := by
    simp only [List.length_take, List.length_append, List.length_replicate]
    omega
  have taken : ((text ++ List.replicate (3 - text.length) '0').take 3).all Char.isDigit :=
    List.all_eq_true.mpr fun c member => all c (List.mem_of_mem_take member)
  have small := ofDigitChars_lt taken
  rw [length] at small
  have read : readFraction text = some (Nat.ofDigitChars 10
      ((text ++ List.replicate (3 - text.length) '0').take 3) 0 : Int) :=
    signed_digits (List.ne_nil_of_length_eq_add_one length) taken (by omega)
  rw [read]
  congr 2
  by_cases short : text.length ≤ 3
  · rw [List.take_of_length_le (by simp only [List.length_append, List.length_replicate]; omega),
      Nat.ofDigitChars_append, Nat.ofDigitChars_replicate_zero]
    have scale : 1000 = 10 ^ (3 - text.length) * 10 ^ text.length := by
      rw [← pow_add, Nat.sub_add_cancel short]
      rfl
    rw [scale, Nat.mul_right_comm, Nat.mul_div_cancel _ (Nat.pow_pos (by decide))]
  · have filled : 3 - text.length = 0 := by omega
    have split : text = text.take 3 ++ text.drop 3 := (List.take_append_drop 3 text).symm
    have behind : (text.drop 3).all Char.isDigit :=
      List.all_eq_true.mpr fun c member => List.all_eq_true.mp digits c (List.mem_of_mem_drop member)
    have rest := ofDigitChars_lt behind
    have scale : 10 ^ text.length = 1000 * 10 ^ (text.drop 3).length := by
      rw [List.length_drop, show (1000 : Nat) = 10 ^ 3 from rfl, ← pow_add]
      congr 1
      omega
    rw [filled, List.replicate_zero, List.append_nil, scale,
      Nat.mul_div_mul_left _ _ (by decide : 0 < 1000)]
    conv_rhs => rw [split, Nat.ofDigitChars_append, Nat.ofDigitChars_eq_ofDigitChars_zero]
    rw [← split, Nat.mul_add_div (Nat.pow_pos (by decide)), Nat.div_eq_of_lt rest, Nat.add_zero]

end Digits

section Spelled

variable (time : Rfc3339Time)

def Rfc3339Time.dateFields : DateFields := ⟨time.date.year, time.date.month, time.date.day⟩

def Rfc3339Time.clockFields : ClockFields where
  hour := time.hour
  minute := time.minute
  second := time.second
  millis := (1000 * Nat.ofDigitChars 10 time.fraction 0 / 10 ^ time.fraction.length : Nat)

def Rfc3339Time.zone : Zone :=
  match time.offset with
  | none => .utc
  | some offset => .offset offset.negative offset.hours offset.minutes

theorem readDate_spelled : readDate time.spelledDate = some time.dateFields := by
  obtain ⟨-, year⟩ := time.date.year_bounds
  obtain ⟨-, month⟩ := time.date.month_bounds
  obtain ⟨-, day⟩ := time.date.day_bounds
  have length := Calendar.monthLength_le (Calendar.isLeap time.date.year) time.date.month
  unfold readDate Rfc3339Time.spelledDate
  rw [splitOnP_three rfl]
  · simp only [signed_padded (show time.date.year ≤ 9999 from year),
      signed_padded (show time.date.month ≤ 9999 by omega),
      signed_padded (show time.date.day ≤ 9999 by omega)]
    rfl
  · intro c member
    simp only [List.mem_append] at member
    rcases member with (digit | digit) | digit <;> exact isDigit_of_mem_padded digit

theorem readClock_spelled :
    readClock (time.spelledClock ++ time.spelledFraction) = some time.clockFields := by
  obtain ⟨hour, minute, second⟩ := time.clock_bounds
  have pieces : time.spelledClock.splitOnP (· = ':') =
      [padded 2 time.hour, padded 2 time.minute, padded 2 time.second] := by
    apply splitOnP_three rfl
    intro c member
    simp only [List.mem_append] at member
    rcases member with (digit | digit) | digit <;> exact isDigit_of_mem_padded digit
  have undotted : '.' ∉ time.spelledClock := by
    simp only [Rfc3339Time.spelledClock, List.mem_append, List.mem_cons, not_or]
    exact ⟨not_mem_padded rfl, by decide, not_mem_padded rfl, by decide, not_mem_padded rfl⟩
  have split : (Text.splitOnce '.' (time.spelledClock ++ time.spelledFraction)).getD
      (time.spelledClock ++ time.spelledFraction, ['0']) =
        (time.spelledClock, if time.fraction = [] then ['0'] else time.fraction) := by
    unfold Rfc3339Time.spelledFraction
    by_cases none : time.fraction = []
    · rw [if_pos none, if_pos none, List.append_nil, Text.splitOnce, if_neg undotted]
      rfl
    · rw [if_neg none, if_neg none, Text.splitOnce_append undotted]
      rfl
  have fraction : readFraction (if time.fraction = [] then ['0'] else time.fraction) =
      some time.clockFields.millis := by
    by_cases none : time.fraction = []
    · rw [if_pos none]
      simp only [Rfc3339Time.clockFields, none]
      decide
    · rw [if_neg none, readFraction_digits time.fraction_digits]
      rfl
  unfold readClock
  rw [split]
  dsimp only
  rw [pieces]
  simp only [signed_padded (show time.hour ≤ 9999 by omega),
    signed_padded (show time.minute ≤ 9999 by omega),
    signed_padded (show time.second ≤ 9999 by omega), fraction]
  rfl

theorem isSign_of_isDigit {c : Char} (digit : c.isDigit = true) : isSign c = false := by
  simp [isSign, ne_of_isDigit digit (rfl : '+'.isDigit = false),
    ne_of_isDigit digit (rfl : '-'.isDigit = false)]

theorem rfindSign_append {sign : Char} (found : isSign sign = true) (front : List Char)
    {behind : List Char} (unsigned : ∀ c ∈ behind, isSign c = false) :
    rfindSign (front ++ sign :: behind) = some (front, sign, behind) := by
  have passes : ∀ c ∈ behind.reverse, (!isSign c) = true := by
    intro c member
    rw [unsigned c (List.mem_reverse.mp member)]
    rfl
  have split : (front ++ sign :: behind).reverse = behind.reverse ++ sign :: front.reverse := by
    simp
  have taken : (behind.reverse ++ sign :: front.reverse).takeWhile (fun c => !isSign c) =
      behind.reverse := by
    rw [List.takeWhile_append_of_pos passes, List.takeWhile_cons_of_neg (by simp [found]),
      List.append_nil]
  have dropped : (behind.reverse ++ sign :: front.reverse).dropWhile (fun c => !isSign c) =
      sign :: front.reverse := by
    rw [List.dropWhile_append_of_pos passes, List.dropWhile_cons_of_neg (by simp [found])]
  unfold rfindSign
  rw [split, taken, dropped]
  simp

theorem rfindSign_unsigned {text : List Char} (unsigned : ∀ c ∈ text, isSign c = false) :
    rfindSign text = none := by
  have dropped : text.reverse.dropWhile (fun c => !isSign c) = [] := by
    apply List.dropWhile_eq_nil_iff.mpr
    intro c member
    rw [unsigned c (List.mem_reverse.mp member)]
    rfl
  rw [rfindSign, dropped]

theorem isSign_of_mem_clock {c : Char}
    (member : c ∈ time.spelledClock ++ time.spelledFraction) : isSign c = false := by
  simp only [Rfc3339Time.spelledClock, Rfc3339Time.spelledFraction, List.mem_append,
    List.mem_cons] at member
  rcases member with (digit | rfl | digit | rfl | digit) | fraction
  · exact isSign_of_isDigit (isDigit_of_mem_padded digit)
  · rfl
  · exact isSign_of_isDigit (isDigit_of_mem_padded digit)
  · rfl
  · exact isSign_of_isDigit (isDigit_of_mem_padded digit)
  · split_ifs at fraction
    · exact absurd fraction List.not_mem_nil
    · rcases List.mem_cons.mp fraction with rfl | digit
      · rfl
      · exact isSign_of_isDigit (List.all_eq_true.mp time.fraction_digits c digit)

theorem readZone_spelled {zulu : Char} (capital : time.offset = none → zulu = 'Z') :
    readZone (time.spelledClock ++ (time.spelledFraction ++ time.spelledOffset zulu)) =
      some (time.spelledClock ++ time.spelledFraction, time.zone) := by
  rw [← List.append_assoc]
  unfold Rfc3339Time.spelledOffset Rfc3339Time.zone
  cases held : time.offset with
  | none =>
    rw [capital held]
    simp [readZone]
  | some offset =>
    obtain ⟨hours, minutes⟩ := offset.bounds
    have sign : isSign (if offset.negative then '-' else '+') = true := by
      split_ifs <;> rfl
    have unsigned : ∀ c ∈ padded 2 offset.hours ++ ':' :: padded 2 offset.minutes,
        isSign c = false := by
      intro c member
      rcases List.mem_append.mp member with digit | rest
      · exact isSign_of_isDigit (isDigit_of_mem_padded digit)
      · rcases List.mem_cons.mp rest with rfl | digit
        · rfl
        · exact isSign_of_isDigit (isDigit_of_mem_padded digit)
    have pieces : (padded 2 offset.hours ++ ':' :: padded 2 offset.minutes).splitOnP (· = ':') =
        [padded 2 offset.hours, padded 2 offset.minutes] := by
      have unmarked : ∀ n : Nat, ∀ c ∈ padded 2 n, decide (c = ':') = false := fun n c member =>
        decide_eq_false (ne_of_isDigit (isDigit_of_mem_padded member) rfl)
      rw [List.splitOnP_append_cons_of_forall_mem (unmarked _) _ (decide_eq_true rfl),
        List.splitOnP_eq_singleton (unmarked _)]
    have last : (time.spelledClock ++ time.spelledFraction ++
        (if offset.negative then '-' else '+') ::
          (padded 2 offset.hours ++ ':' :: padded 2 offset.minutes)).getLast? ≠ some 'Z' := by
      have whole : time.spelledClock ++ time.spelledFraction ++
          (if offset.negative then '-' else '+') ::
            (padded 2 offset.hours ++ ':' :: padded 2 offset.minutes) =
          (time.spelledClock ++ time.spelledFraction ++ (if offset.negative then '-' else '+') ::
            (padded 2 offset.hours ++ [':'])) ++ padded 2 offset.minutes := by
        simp
      have letter : 'Z' ∉ padded 2 offset.minutes := not_mem_padded rfl
      rw [whole, List.getLast?_append, List.getLast?_eq_some_getLast (padded_ne_nil _ _),
        Option.some_or]
      exact fun ends => letter (Option.some.inj ends ▸ List.getLast_mem _)
    unfold readZone
    rw [if_neg last, rfindSign_append sign _ unsigned]
    simp only [Option.bind_eq_bind, Option.bind_some]
    rw [pieces]
    simp only [List.head?_cons, Option.getD_some, signed_padded (show offset.hours ≤ 9999 by omega),
      signed_padded (show offset.minutes ≤ 9999 by omega)]
    cases offset.negative <;> rfl

end Spelled

section Valid

variable (time : Rfc3339Time)

theorem marchYear_bounds :
    0 ≤ time.dateFields.marchYear ∧ time.dateFields.marchYear ≤ 9999 := by
  obtain ⟨first, last⟩ := time.date.year_bounds
  unfold DateFields.marchYear Rfc3339Time.dateFields
  split_ifs <;> constructor <;> dsimp only <;> omega

theorem steps_dateFields : AllFit time.dateFields.steps := by
  obtain ⟨first, last⟩ := marchYear_bounds time
  obtain ⟨yearFirst, yearLast⟩ := time.date.year_bounds
  obtain ⟨monthFirst, monthLast⟩ := time.date.month_bounds
  obtain ⟨dayFirst, dayLast⟩ := time.date.day_bounds
  have length := Calendar.monthLength_le (Calendar.isLeap time.date.year) time.date.month
  have month : ((time.date.month : Int) + 9).tmod 12 = ((time.date.month : Int) + 9) % 12 :=
    Int.tmod_eq_emod_of_nonneg (by omega)
  have era : 0 ≤ time.dateFields.yearOfEra ∧ time.dateFields.yearOfEra < 400 := by
    unfold DateFields.yearOfEra
    omega
  have four : time.dateFields.yearOfEra.tdiv 4 = time.dateFields.yearOfEra / 4 :=
    Int.tdiv_eq_ediv_of_nonneg era.1
  have hundred : time.dateFields.yearOfEra.tdiv 100 = time.dateFields.yearOfEra / 100 :=
    Int.tdiv_eq_ediv_of_nonneg era.1
  have days : (153 * (((time.date.month : Int) + 9) % 12) + 2).tdiv 5 =
      (153 * (((time.date.month : Int) + 9) % 12) + 2) / 5 :=
    Int.tdiv_eq_ediv_of_nonneg (by omega)
  have year : time.dateFields.year = time.date.year := rfl
  have day : time.dateFields.day = time.date.day := rfl
  have monthField : time.dateFields.month = time.date.month := rfl
  intro value member
  simp only [DateFields.steps, DateFields.days, DateFields.dayOfEra, DateFields.dayOfYear, month,
    four, hundred, days, year, day, monthField, List.mem_append, List.mem_cons, List.not_mem_nil,
    or_false] at member
  have index : 0 ≤ ((time.date.month : Int) + 9) % 12 ∧ ((time.date.month : Int) + 9) % 12 ≤ 11 := by
    omega
  generalize ((time.date.month : Int) + 9) % 12 = monthIndex at index member
  generalize time.dateFields.yearOfEra = yearOfEra at era member
  generalize time.dateFields.marchYear = marchYear at first last member
  clear month days four hundred
  unfold InI64
  rcases member with early | rfl | rfl | rfl | rfl | rfl | rfl | rfl | rfl | rfl | rfl | rfl | rfl |
    rfl | rfl
  · split_ifs at early
    · rw [List.mem_singleton.mp early]
      omega
    · exact absurd early List.not_mem_nil
  all_goals omega

theorem marchYear_dateFields : time.dateFields.marchYear =
    if time.date.month ≤ 2 then (time.date.year : Int) - 1 else time.date.year := by
  unfold DateFields.marchYear
  by_cases early : time.date.month ≤ 2
  · rw [if_pos early, if_pos (show time.dateFields.month ≤ 2 from Int.ofNat_le.mpr early)]
    rfl
  · rw [if_neg early, if_neg fun small : time.dateFields.month ≤ 2 =>
      early (Int.ofNat_le.mp small)]
    rfl

theorem days_dateFields : time.dateFields.days = time.date.dayNumber := by
  obtain ⟨monthFirst, -⟩ := time.date.month_bounds
  have month : (time.dateFields.month + 9).tmod 12 = ((time.date.month : Int) + 9) % 12 :=
    Int.tmod_eq_emod_of_nonneg (by unfold Rfc3339Time.dateFields; dsimp only; omega)
  have era : 0 ≤ time.dateFields.yearOfEra := by
    unfold DateFields.yearOfEra
    omega
  have day : time.dateFields.day = time.date.day := rfl
  rw [Calendar.dayNumber_eq, ← marchYear_dateFields]
  unfold DateFields.days DateFields.dayOfEra DateFields.dayOfYear Calendar.daysFromMarch
  rw [month, day, Int.tdiv_eq_ediv_of_nonneg era, Int.tdiv_eq_ediv_of_nonneg era,
    Int.tdiv_eq_ediv_of_nonneg (by omega)]
  unfold DateFields.yearOfEra
  omega

theorem dayNumber_bounds :
    -1000000 ≤ time.date.dayNumber ∧ time.date.dayNumber ≤ 4000000 := by
  obtain ⟨first, last⟩ := marchYear_bounds time
  obtain ⟨dayFirst, dayLast⟩ := time.date.day_bounds
  have length := Calendar.monthLength_le (Calendar.isLeap time.date.year) time.date.month
  rw [Calendar.dayNumber_eq, ← marchYear_dateFields]
  unfold Calendar.daysFromMarch
  generalize time.dateFields.marchYear = marchYear at first last
  omega

theorem offsetSeconds_zone : time.zone.seconds = time.offsetSeconds ∧ AllFit time.zone.steps ∧
    -86400 ≤ time.offsetSeconds ∧ time.offsetSeconds ≤ 86400 := by
  unfold Rfc3339Time.zone Rfc3339Time.offsetSeconds
  cases time.offset with
  | none => exact ⟨rfl, allFit_nil, by decide, by decide⟩
  | some offset =>
    obtain ⟨hours, minutes⟩ := offset.bounds
    refine ⟨rfl, ?_, ?_⟩
    · simp only [Zone.steps, Zone.seconds, allFit_cons, allFit_nil, and_true, InI64]
      cases offset.negative <;> simp <;> omega
    · cases offset.negative <;> simp <;> omega

theorem millis_bounds :
    0 ≤ time.clockFields.millis ∧ time.clockFields.millis ≤ 999 := by
  have small := ofDigitChars_lt time.fraction_digits
  have below : 1000 * Nat.ofDigitChars 10 time.fraction 0 / 10 ^ time.fraction.length < 1000 :=
    Nat.div_lt_of_lt_mul (by omega)
  exact ⟨Int.natCast_nonneg _, Int.ofNat_le.mpr (Nat.le_of_lt_succ below)⟩

theorem steps_clockFields :
    AllFit (time.clockFields.steps time.dateFields.days time.offsetSeconds) := by
  obtain ⟨hour, minute, second⟩ := time.clock_bounds
  obtain ⟨dayLow, dayHigh⟩ := dayNumber_bounds time
  obtain ⟨-, -, offsetLow, offsetHigh⟩ := offsetSeconds_zone time
  obtain ⟨millisLow, millisHigh⟩ := millis_bounds time
  have hourField : time.clockFields.hour = time.hour := rfl
  have minuteField : time.clockFields.minute = time.minute := rfl
  have secondField : time.clockFields.second = time.second := rfl
  rw [days_dateFields]
  simp only [ClockFields.steps, ClockFields.millisSince, ClockFields.seconds, hourField,
    minuteField, secondField, allFit_cons, allFit_nil, and_true, InI64]
  omega

theorem floor_instant : ⌊1000 * time.instant⌋ =
    time.clockFields.millisSince time.dateFields.days time.offsetSeconds := by
  have scaled : 1000 * time.instant = ((1000 * time.seconds : Int) : ℚ) +
      ((1000 * Nat.ofDigitChars 10 time.fraction 0 : Nat) : ℚ) /
        ((10 ^ time.fraction.length : Nat) : ℚ) := by
    unfold Rfc3339Time.instant
    push_cast
    ring
  rw [scaled, Int.floor_intCast_add, Rat.floor_natCast_div_natCast, days_dateFields]
  unfold ClockFields.millisSince ClockFields.seconds Rfc3339Time.seconds
  rw [Int.mul_comm 1000]
  rfl

theorem not_mem_spelledDate {c : Char} (undigit : c.isDigit = false) (unmarked : c ≠ '-') :
    c ∉ time.spelledDate := by
  simp only [Rfc3339Time.spelledDate, List.mem_append, List.mem_cons, not_or]
  exact ⟨not_mem_padded undigit, unmarked, not_mem_padded undigit, unmarked,
    not_mem_padded undigit⟩

theorem parseRfc3339Ms_spelled {zulu : Char} (capital : time.offset = none → zulu = 'Z') :
    parseRfc3339Ms (time.spelled 'T' zulu) = .ok ⌊1000 * time.instant⌋ := by
  obtain ⟨seconds, zone, -⟩ := offsetSeconds_zone time
  unfold parseRfc3339Ms Rfc3339Time.spelled
  rw [Text.splitOnce_append (not_mem_spelledDate time rfl (by decide))]
  simp only [known, Outcome.ok_bind]
  rw [readDate_spelled, readZone_spelled time capital]
  simp only [Outcome.ok_bind]
  rw [offsetSeconds_eq, if_pos zone, Outcome.ok_bind, readClock_spelled]
  simp only [Outcome.ok_bind]
  rw [millisOf_eq, seconds, if_pos ⟨steps_dateFields time, steps_clockFields time⟩, floor_instant]

end Valid

section Bounds

theorem signed_nonneg {text : List Char} (plain : '-' ∉ text) {value : Int}
    (read : signed text = some value) : 0 ≤ value := by
  unfold signed at read
  split at read
  next negative digits held =>
    split at held
    · exact absurd List.mem_cons_self plain
    all_goals
      obtain ⟨rfl, rfl⟩ := Prod.mk.inj held
      split_ifs at read with shape minus
      · exact absurd minus id
      · exact Option.some.inj (Option.filter_eq_some_iff.mp read).1 ▸ Int.natCast_nonneg _

theorem readDate_nonneg {date : List Char} {fields : DateFields}
    (read : readDate date = some fields) :
    0 ≤ fields.year ∧ 0 ≤ fields.month ∧ 0 ≤ fields.day := by
  have plain {piece : List Char} (member : piece ∈ date.splitOnP (· = '-')) : '-' ∉ piece :=
    fun inside => of_decide_eq_false (Text.not_of_mem_splitOnP member inside) rfl
  unfold readDate at read
  split at read
  · next year month day others pieces =>
    simp only [Option.bind_eq_bind, Option.bind_eq_some_iff] at read
    obtain ⟨y, readYear, m, readMonth, d, readDay, built⟩ := read
    cases built
    exact ⟨signed_nonneg (plain (by simp [pieces])) readYear,
      signed_nonneg (plain (by simp [pieces])) readMonth,
      signed_nonneg (plain (by simp [pieces])) readDay⟩
  · cases read

theorem rfindSign_behind {text before offset : List Char} {sign : Char}
    (found : rfindSign text = some (before, sign, offset)) : '-' ∉ offset := by
  unfold rfindSign at found
  split at found
  · cases found
  · cases found
    intro member
    have passed := List.mem_takeWhile_imp (List.mem_reverse.mp member)
    exact absurd passed (by decide)

theorem readZone_nonneg {rest time : List Char} {negative : Bool} {hours minutes : Int}
    (read : readZone rest = some (time, .offset negative hours minutes)) :
    0 ≤ hours ∧ 0 ≤ minutes := by
  unfold readZone at read
  split at read
  · cases read
  · simp only [Option.bind_eq_bind, Option.bind_eq_some_iff] at read
    obtain ⟨⟨before, sign, offset⟩, found, read⟩ := read
    have behind := rfindSign_behind found
    have plain {piece : List Char} (member : piece ∈ offset.splitOnP (· = ':')) : '-' ∉ piece :=
      fun inside => behind (Text.of_mem_splitOnP member inside).1
    dsimp only at read
    split at read
    · cases read
    · next first others pieces =>
      simp only [Option.bind_eq_some_iff] at read
      obtain ⟨h, readHours, m, readMinutes, built⟩ := read
      cases built
      refine ⟨signed_nonneg (plain (by simp [pieces])) readHours, signed_nonneg ?_ readMinutes⟩
      cases others with
      | nil => decide
      | cons second others => exact plain (by simp [pieces])

def Zone.Fits : Zone → Prop
  | .utc => True
  | .offset _ hours minutes => hours * 3600 + minutes * 60 < 2 ^ 63

theorem allFit_zone {rest time : List Char} {zone : Zone}
    (read : readZone rest = some (time, zone)) : AllFit zone.steps ↔ zone.Fits := by
  cases zone with
  | utc => exact iff_of_true allFit_nil trivial
  | offset negative hours minutes =>
    obtain ⟨hoursLow, minutesLow⟩ := readZone_nonneg read
    simp only [Zone.steps, Zone.seconds, Zone.Fits, allFit_cons, allFit_nil, and_true, InI64]
    cases negative
    · simp only [Bool.false_eq_true, if_false, one_mul]
      omega
    · simp only [if_true, neg_one_mul]
      omega

theorem allFit_date {date : List Char} {fields : DateFields} (read : readDate date = some fields) :
    -720000 ≤ fields.days ∧
      (fields.days < 2 ^ 62 → (AllFit fields.steps ↔ fields.month + 9 < 2 ^ 63)) := by
  obtain ⟨yearLow, monthLow, dayLow⟩ := readDate_nonneg read
  have month : (fields.month + 9).tmod 12 = (fields.month + 9) % 12 :=
    Int.tmod_eq_emod_of_nonneg (by omega)
  have index : 0 ≤ (fields.month + 9) % 12 ∧ (fields.month + 9) % 12 ≤ 11 := by omega
  have march : fields.marchYear = fields.year ∨ fields.marchYear = fields.year - 1 := by
    unfold DateFields.marchYear
    split_ifs
    · exact Or.inr rfl
    · exact Or.inl rfl
  have era : 0 ≤ fields.yearOfEra ∧ fields.yearOfEra < 400 ∧
      fields.marchYear = fields.marchYear / 400 * 400 + fields.yearOfEra := by
    unfold DateFields.yearOfEra
    omega
  have early : AllFit (if fields.month ≤ 2 then [fields.year - 1] else []) ↔
      fields.month ≤ 2 → InI64 (fields.year - 1) := by
    split_ifs with first
    · simp [allFit_cons, allFit_nil, first]
    · simp [allFit_nil, first]
  have both {front behind : List Int} : AllFit (front ++ behind) ↔ AllFit front ∧ AllFit behind :=
    List.forall_mem_append
  simp only [DateFields.steps, DateFields.days, DateFields.dayOfEra, DateFields.dayOfYear, month,
    Int.tdiv_eq_ediv_of_nonneg era.1,
    Int.tdiv_eq_ediv_of_nonneg (show 0 ≤ 153 * ((fields.month + 9) % 12) + 2 by omega), both, early,
    allFit_cons, allFit_nil, and_true, InI64]
  generalize (fields.month + 9) % 12 = monthIndex at index
  generalize fields.yearOfEra = yearOfEra at era
  generalize fields.marchYear / 400 = eraIndex at era
  generalize fields.marchYear = marchYear at march era
  clear early both month
  omega

/-- The sums of a clock, which may have negative fields. -/
def ClockFields.Fits (clock : ClockFields) (days offset : Int) : Prop :=
  days * 86400 < 2 ^ 63 ∧ InI64 (clock.hour * 3600) ∧ InI64 (days * 86400 + clock.hour * 3600) ∧
    InI64 (clock.minute * 60) ∧ InI64 (days * 86400 + clock.hour * 3600 + clock.minute * 60) ∧
    InI64 (days * 86400 + clock.hour * 3600 + clock.minute * 60 + clock.second) ∧
    InI64 (clock.seconds days offset * 1000) ∧ InI64 (clock.millisSince days offset)

theorem allFit_clock (clock : ClockFields) {days : Int} (low : -720000 ≤ days) (offset : Int) :
    AllFit (clock.steps days offset) ↔ clock.Fits days offset := by
  simp only [ClockFields.steps, ClockFields.Fits, allFit_cons, allFit_nil, and_true, InI64]
  generalize clock.millisSince days offset = millis
  generalize clock.seconds days offset = seconds
  omega

/-- The numbers of a text are small enough for the arithmetic. -/
def Fits (text : List Char) : Prop :=
  match Text.splitOnce 'T' text with
  | none => True
  | some (date, rest) =>
    match readDate date, readZone rest with
    | some fields, some (time, zone) =>
      zone.Fits ∧
        match readClock time with
        | none => True
        | some clock => fields.month + 9 < 2 ^ 63 ∧ clock.Fits fields.days zone.seconds
    | _, _ => True

theorem millisOf_ne_crashed_iff {date : List Char} {fields : DateFields}
    (read : readDate date = some fields) (clock : ClockFields) (offset : Int) :
    millisOf fields clock offset ≠ .crashed ↔
      fields.month + 9 < 2 ^ 63 ∧ clock.Fits fields.days offset := by
  obtain ⟨low, fits⟩ := allFit_date read
  have same : AllFit fields.steps ∧ AllFit (clock.steps fields.days offset) ↔
      fields.month + 9 < 2 ^ 63 ∧ clock.Fits fields.days offset := by
    rw [allFit_clock clock low]
    apply and_congr_left
    rintro ⟨days, -⟩
    exact fits (by omega)
  rw [← same, millisOf_eq]
  split_ifs with fine
  · exact iff_of_true nofun fine
  · exact iff_of_false (fun safe => safe rfl) fine

theorem parseRfc3339Ms_ne_crashed_iff (text : List Char) :
    parseRfc3339Ms text ≠ .crashed ↔ Fits text := by
  unfold parseRfc3339Ms Fits
  cases Text.splitOnce 'T' text with
  | none => exact iff_of_true nofun trivial
  | some halves =>
    obtain ⟨date, rest⟩ := halves
    simp only [known, Outcome.ok_bind]
    cases dated : readDate date with
    | none => exact iff_of_true nofun trivial
    | some fields =>
      cases zoned : readZone rest with
      | none => exact iff_of_true nofun trivial
      | some pair =>
        obtain ⟨time, zone⟩ := pair
        simp only [Outcome.ok_bind]
        rw [offsetSeconds_eq, ← allFit_zone zoned]
        by_cases fits : AllFit zone.steps
        · rw [if_pos fits, Outcome.ok_bind]
          cases readClock time with
          | none => exact iff_of_true nofun ⟨fits, trivial⟩
          | some clock =>
            exact (millisOf_ne_crashed_iff dated clock _).trans (and_iff_right fits).symm
        · rw [if_neg fits]
          exact iff_of_false (fun safe => safe rfl) fun whole => fits whole.1

end Bounds

section Exact

variable {text : List Char} {time : Rfc3339Time} {separator zulu : Char}

theorem isAlpha_of_isDigit {c : Char} (digit : c.isDigit = true) : c.isAlpha = false := by
  have ⟨low, high⟩ : 48 ≤ c.toNat ∧ c.toNat ≤ 57 := by
    simpa [Char.isDigit, UInt32.le_iff_toNat_le] using digit
  simp only [Char.isAlpha, Char.isUpper, Char.isLower, Bool.or_eq_false_iff, Bool.and_eq_false_iff,
    decide_eq_false_iff_not, UInt32.le_iff_toNat_le]
  have same : c.val.toNat = c.toNat := rfl
  simp
  omega

theorem eq_of_mem_spelled {c : Char} (letter : c.isAlpha = true)
    (member : c ∈ time.spelled separator zulu) :
    c = separator ∨ time.offset = none ∧ c = zulu := by
  have undigit : c.isDigit ≠ true := fun digit =>
    absurd letter (Bool.eq_false_iff.mp (isAlpha_of_isDigit digit))
  have unpadded (width n : Nat) : c ∉ padded width n := fun digit =>
    undigit (isDigit_of_mem_padded digit)
  have mark {d : Char} (other : d.isAlpha = false) : c ≠ d := fun same =>
    Bool.eq_false_iff.mp other (same ▸ letter)
  have undated : c ∉ time.spelledDate :=
    not_mem_spelledDate time (Bool.eq_false_iff.mpr undigit) (mark rfl)
  have unclocked : c ∉ time.spelledClock := by
    simp only [Rfc3339Time.spelledClock, List.mem_append, List.mem_cons, not_or]
    exact ⟨unpadded _ _, mark rfl, unpadded _ _, mark rfl, unpadded _ _⟩
  have whole : c ∉ time.spelledFraction := by
    unfold Rfc3339Time.spelledFraction
    split_ifs
    · exact List.not_mem_nil
    · rw [List.mem_cons, not_or]
      exact ⟨mark rfl, fun digit => undigit (List.all_eq_true.mp time.fraction_digits c digit)⟩
  rcases List.mem_append.mp member with dated | behind
  · exact absurd dated undated
  · rcases List.mem_cons.mp behind with same | behind
    · exact Or.inl same
    · rcases List.mem_append.mp behind with clocked | behind
      · exact absurd clocked unclocked
      · rcases List.mem_append.mp behind with part | zone
        · exact absurd part whole
        · right
          unfold Rfc3339Time.spelledOffset at zone
          cases held : time.offset with
          | none =>
            rw [held] at zone
            exact ⟨rfl, List.mem_singleton.mp zone⟩
          | some offset =>
            rw [held] at zone
            simp only [List.mem_append, List.mem_cons] at zone
            rcases zone with same | digit | same | digit
            · split_ifs at same <;> exact absurd same (mark rfl)
            · exact absurd digit (unpadded _ _)
            · exact absurd same (mark rfl)
            · exact absurd digit (unpadded _ _)

theorem separator_mem_spelled : separator ∈ time.spelled separator zulu := by
  simp [Rfc3339Time.spelled]

theorem zulu_mem_spelled (utc : time.offset = none) : zulu ∈ time.spelled separator zulu := by
  simp [Rfc3339Time.spelled, Rfc3339Time.spelledOffset, utc]

theorem parseRfc3339Ms_small_separator (zoned : zulu = 'Z' ∨ zulu = 'z') :
    parseRfc3339Ms (time.spelled 't' zulu) = .refused ⟨⟩ := by
  have absent : 'T' ∉ time.spelled 't' zulu := by
    intro member
    rcases eq_of_mem_spelled rfl member with same | ⟨-, same⟩
    · exact absurd same (by decide)
    · rcases zoned with rfl | rfl <;> exact absurd same (by decide)
  unfold parseRfc3339Ms
  rw [Text.splitOnce, if_neg absent]
  rfl

theorem parseRfc3339Ms_small_zulu (utc : time.offset = none) :
    parseRfc3339Ms (time.spelled 'T' 'z') = .refused ⟨⟩ := by
  have unzoned : readZone (time.spelledClock ++ (time.spelledFraction ++ time.spelledOffset 'z')) =
      none := by
    have unsigned : ∀ c ∈ time.spelledClock ++ time.spelledFraction ++ ['z'], isSign c = false := by
      intro c member
      rcases List.mem_append.mp member with inside | last
      · exact isSign_of_mem_clock time inside
      · rw [List.mem_singleton.mp last]
        rfl
    unfold Rfc3339Time.spelledOffset readZone
    rw [utc, ← List.append_assoc, rfindSign_unsigned unsigned, if_neg (by simp)]
    rfl
  unfold parseRfc3339Ms Rfc3339Time.spelled
  rw [Text.splitOnce_append (not_mem_spelledDate time rfl (by decide))]
  simp only [known, Outcome.ok_bind]
  rw [readDate_spelled, unzoned]
  rfl

/-- A time of RFC 3339, whose two letters may be small. -/
def IsRfc3339 (text : List Char) (time : Rfc3339Time) : Prop :=
  ∃ separator zulu, (separator = 'T' ∨ separator = 't') ∧ (zulu = 'Z' ∨ zulu = 'z') ∧
    text = time.spelled separator zulu

def Capital (text : List Char) : Prop := ∀ time, IsRfc3339 text time → 't' ∉ text ∧ 'z' ∉ text

/-- A time is read as the milliseconds to its instant, rounded down, and no text overflows. -/
def ReadExactly (text : List Char) : Prop :=
  (∀ time, IsRfc3339 text time → parseRfc3339Ms text = .ok ⌊1000 * time.instant⌋) ∧
    parseRfc3339Ms text ≠ .crashed

theorem capital_of_read (reads : ReadExactly text) : Capital text := by
  rintro time ⟨separator, zulu, letter, zoned, rfl⟩
  have answer := reads.1 time ⟨separator, zulu, letter, zoned, rfl⟩
  rcases letter with rfl | rfl
  · constructor
    · intro member
      rcases eq_of_mem_spelled rfl member with same | ⟨-, same⟩
      · exact absurd same (by decide)
      · rcases zoned with rfl | rfl <;> exact absurd same (by decide)
    · intro member
      rcases eq_of_mem_spelled rfl member with same | ⟨utc, same⟩
      · exact absurd same (by decide)
      · rw [← same, parseRfc3339Ms_small_zulu utc] at answer
        cases answer
  · rw [parseRfc3339Ms_small_separator zoned] at answer
    cases answer

theorem parseRfc3339Ms_capital (capital : Capital text) (spells : IsRfc3339 text time) :
    parseRfc3339Ms text = .ok ⌊1000 * time.instant⌋ := by
  obtain ⟨noT, noZ⟩ := capital time spells
  obtain ⟨separator, zulu, letter, zoned, rfl⟩ := spells
  rcases letter with rfl | rfl
  · apply parseRfc3339Ms_spelled
    intro utc
    exact zoned.resolve_right fun small => noZ (small ▸ zulu_mem_spelled utc)
  · exact absurd separator_mem_spelled noT

/-- Times are read exactly where the letters are capitals and the numbers small, and so they are
read in their order. -/
theorem readExactly_iff (text : List Char) :
    (ReadExactly text ↔ Capital text ∧ Fits text) ∧
      (Capital text → ∀ other time time', Capital other → IsRfc3339 text time →
        IsRfc3339 other time' → ∃ m n, parseRfc3339Ms text = .ok m ∧ parseRfc3339Ms other = .ok n ∧
          (time.instant ≤ time'.instant → m ≤ n) ∧ (time.instant = time'.instant → m = n)) := by
  constructor
  · constructor
    · exact fun reads => ⟨capital_of_read reads, (parseRfc3339Ms_ne_crashed_iff text).mp reads.2⟩
    · rintro ⟨capital, fits⟩
      exact ⟨fun _ spells => parseRfc3339Ms_capital capital spells,
        (parseRfc3339Ms_ne_crashed_iff text).mpr fits⟩
  · intro capital other time time' capital' spells spells'
    refine ⟨_, _, parseRfc3339Ms_capital capital spells, parseRfc3339Ms_capital capital' spells',
      ?_, ?_⟩
    · intro order
      apply Int.floor_mono
      exact mul_le_mul_of_nonneg_left order (by norm_num)
    · intro same
      rw [same]

/-- A year as large as the daemon's numbers overflows. -/
theorem not_readExactly :
    ¬ ∀ text, ReadExactly text := by
  intro reads
  have answer : parseRfc3339Ms "9223372036854775807-01-01T00:00:00Z".toList = .crashed := by
    decide
  exact (reads _).2 answer

end Exact

end Supercov.DockerProxy
