import Mathlib.Algebra.Order.Group.Nat
import Mathlib.Data.Int.Notation
import Mathlib.Tactic.Ring
import Mathlib.Tactic.SplitIfs

/-!
# Instants in ISO 8601

The proleptic Gregorian calendar with `datetime.isoformat` for an instant in UTC and
`datetime.fromisoformat` for the extended format, with an optional time of day, fraction
and offset. An instant counts microseconds since 1970-01-01; a day is counted from
0001-01-01, which is day 1. The basic and the week formats, which `isoformat` never
writes, are left out.
-/
namespace StarkbankTrial.IsoDates

/-! ### Decimal digits -/

/-- The `width` lowest digits, as `%04d` and `%02d` write them. -/
def zeroPadded : ℕ → ℕ → List Char
  | 0, _ => []
  | width + 1, n => Nat.digitChar (n / 10 ^ width % 10) :: zeroPadded width n

def digitValue (c : Char) : Option ℕ := if c.isDigit then some (c.toNat - '0'.toNat) else none

/-- Reads `width` digits behind a number that was begun. -/
def readDigits : ℕ → ℕ → List Char → Option (ℕ × List Char)
  | 0, n, cs => some (n, cs)
  | _ + 1, _, [] => none
  | width + 1, n, c :: cs => (digitValue c).bind fun d => readDigits width (n * 10 + d) cs

theorem digit_facts : ∀ d < 10, digitValue (Nat.digitChar d) = some d ∧
    Nat.digitChar d ≠ '|' ∧ (Nat.digitChar d).isDigit = true := by
  decide

theorem readDigits_zeroPadded (width m n : ℕ) (cs : List Char) :
    readDigits width m (zeroPadded width n ++ cs) = some (m * 10 ^ width + n % 10 ^ width, cs) := by
  induction width generalizing m with
  | zero => simp [readDigits, zeroPadded, Nat.mod_one]
  | succ width ih =>
      have hd := digit_facts (n / 10 ^ width % 10) (Nat.mod_lt _ (by decide))
      rw [zeroPadded, List.cons_append, readDigits, hd.1, Option.bind_some, ih, Nat.mod_pow_succ,
        Nat.pow_succ]
      congr 2
      ring

theorem digits_of_zeroPadded {width n : ℕ} :
    ∀ c ∈ zeroPadded width n, c ≠ '|' ∧ c.isDigit = true := by
  induction width with
  | zero => simp [zeroPadded]
  | succ width ih =>
      have hd := digit_facts (n / 10 ^ width % 10) (Nat.mod_lt _ (by decide))
      simpa only [zeroPadded, List.forall_mem_cons] using ⟨hd.2, ih⟩

@[simp] theorem length_zeroPadded {width n : ℕ} : (zeroPadded width n).length = width := by
  induction width with
  | zero => rfl
  | succ width ih => simp [zeroPadded, ih]

/-! ### The calendar -/

def isLeap (year : ℕ) : Bool := year % 4 = 0 ∧ (year % 100 ≠ 0 ∨ year % 400 = 0)

def monthLengths (leap : Bool) : List ℕ :=
  [31, if leap then 29 else 28, 31, 30, 31, 30, 31, 31, 30, 31, 30, 31]

def daysInMonth (year month : ℕ) : ℕ := (monthLengths (isLeap year)).getD (month - 1) 0

/-- The days of all years before `year`. -/
def daysBeforeYear (year : ℕ) : ℕ :=
  (year - 1) * 365 + (year - 1) / 4 - (year - 1) / 100 + (year - 1) / 400

def ymd2ord (year month day : ℕ) : ℕ :=
  daysBeforeYear year + ((monthLengths (isLeap year)).take (month - 1)).sum + day

/-- The month and the day of the month, from the days that passed in the year. -/
def monthDay : List ℕ → ℕ → ℕ × ℕ
  | [], n => (1, n + 1)
  | length :: rest, n =>
      if n < length then (1, n + 1)
      else ((monthDay rest (n - length)).1 + 1, (monthDay rest (n - length)).2)

/-- The year and the days that passed in it, by cycles of 400, 100, 4 and 1 years. The
last day of a long cycle would otherwise begin a cycle of its own. -/
def yearDay (n : ℕ) : ℕ × ℕ :=
  let n400 := n / 146097
  let n100 := n % 146097 / 36524
  let n4 := n % 146097 % 36524 / 1461
  let n1 := n % 146097 % 36524 % 1461 / 365
  let year := n400 * 400 + n100 * 100 + n4 * 4 + n1 + 1
  if n1 = 4 ∨ n100 = 4 then (year - 1, 365) else (year, n % 146097 % 36524 % 1461 % 365)

def ord2ymd (ordinal : ℕ) : ℕ × ℕ × ℕ :=
  let (year, n) := yearDay (ordinal - 1)
  (year, monthDay (monthLengths (isLeap year)) n)

theorem monthDay_spec {lengths : List ℕ} {n : ℕ} (h : n < lengths.sum) :
    1 ≤ (monthDay lengths n).1 ∧ (monthDay lengths n).1 ≤ lengths.length ∧
      1 ≤ (monthDay lengths n).2 ∧
      (monthDay lengths n).2 ≤ lengths.getD ((monthDay lengths n).1 - 1) 0 ∧
      (lengths.take ((monthDay lengths n).1 - 1)).sum + (monthDay lengths n).2 = n + 1 := by
  induction lengths generalizing n with
  | nil => simp at h
  | cons length rest ih =>
      rw [List.sum_cons] at h
      rw [monthDay]
      split_ifs with hn
      · simpa using Nat.succ_le_of_lt hn
      · obtain ⟨hm, hmax, hd, hlen, hsum⟩ := ih (n := n - length) (by omega)
        obtain ⟨m, hm'⟩ := Nat.exists_eq_add_of_le' hm
        rw [hm'] at hmax hlen hsum ⊢
        simp only [Nat.add_sub_cancel, List.take_succ_cons, List.sum_cons, List.getD_cons_succ,
          List.length_cons] at hlen hsum ⊢
        exact ⟨by omega, by omega, hd, hlen, by omega⟩

theorem sum_monthLengths (leap : Bool) :
    (monthLengths leap).sum = if leap then 366 else 365 := by
  cases leap <;> rfl

/-- A year in its cycles of 400, 100 and 4 years. -/
theorem daysBeforeYear_cycles {a b c d : ℕ} (hb : b ≤ 3) (hc : c ≤ 24) (hd : d ≤ 3) :
    daysBeforeYear (400 * a + 100 * b + 4 * c + d + 1) =
      146097 * a + 36524 * b + 1461 * c + 365 * d := by
  simp only [daysBeforeYear, Nat.add_sub_cancel]
  omega

theorem isLeap_cycles {a b c : ℕ} (hc : c ≤ 24) (h : c = 24 → b = 3) :
    isLeap (400 * a + 100 * b + 4 * c + 3 + 1) = true := by
  simp only [isLeap, decide_eq_true_eq]
  omega

/-- A day of the years 1 to 9999 is split into its year and the days that passed in it. -/
theorem yearDay_spec {n : ℕ} (h : n < 3652059) :
    1 ≤ (yearDay n).1 ∧ (yearDay n).1 ≤ 9999 ∧
      (yearDay n).2 < (monthLengths (isLeap (yearDay n).1)).sum ∧
      daysBeforeYear (yearDay n).1 + (yearDay n).2 = n := by
  rw [sum_monthLengths]
  unfold yearDay
  obtain ⟨a, ha⟩ : ∃ a, n / 146097 = a := ⟨_, rfl⟩
  obtain ⟨b, hb⟩ : ∃ b, n % 146097 / 36524 = b := ⟨_, rfl⟩
  obtain ⟨c, hc⟩ : ∃ c, n % 146097 % 36524 / 1461 = c := ⟨_, rfl⟩
  obtain ⟨d, hd⟩ : ∃ d, n % 146097 % 36524 % 1461 / 365 = d := ⟨_, rfl⟩
  obtain ⟨r, hr⟩ : ∃ r, n % 146097 % 36524 % 1461 % 365 = r := ⟨_, rfl⟩
  simp only [ha, hb, hc, hd, hr]
  have hn : n = 146097 * a + 36524 * b + 1461 * c + 365 * d + r := by omega
  by_cases hlast : d = 4 ∨ b = 4
  · -- the last day of a cycle of 4 or of 400 years
    rw [if_pos hlast]
    by_cases hb4 : b = 4
    · obtain ⟨rfl, rfl, rfl⟩ : c = 0 ∧ d = 0 ∧ r = 0 := by omega
      have hyear : a * 400 + b * 100 + 0 * 4 + 0 + 1 - 1 = 400 * a + 100 * 3 + 4 * 24 + 3 + 1 := by
        omega
      simp only [hyear, isLeap_cycles (le_refl 24) fun _ => rfl,
        daysBeforeYear_cycles (le_refl 3) (le_refl 24) (le_refl 3), if_true]
      omega
    · obtain rfl : d = 4 := hlast.resolve_right hb4
      have hyear : a * 400 + b * 100 + c * 4 + 4 + 1 - 1 = 400 * a + 100 * b + 4 * c + 3 + 1 := by
        omega
      have hb3 : b ≤ 3 := by omega
      have hc24 : c ≤ 24 := by omega
      have hleap := isLeap_cycles (a := a) (b := b) hc24 (by omega)
      simp only [hyear, hleap, daysBeforeYear_cycles hb3 hc24 (le_refl 3), if_true]
      omega
  · rw [if_neg hlast]
    have hyear : a * 400 + b * 100 + c * 4 + d + 1 = 400 * a + 100 * b + 4 * c + d + 1 := by
      omega
    have hlt : ∀ year, r < if isLeap year = true then 366 else 365 := by
      intro year
      split_ifs <;> omega
    simp only [hyear, daysBeforeYear_cycles (a := a) (b := b) (c := c) (d := d) (by omega)
      (by omega) (by omega)]
    exact ⟨by omega, by omega, hlt _, by omega⟩

/-- The date of a day is valid and is the date of that day only. -/
theorem ord2ymd_spec {ordinal year month day : ℕ} (hpos : 1 ≤ ordinal) (hmax : ordinal ≤ 3652059)
    (h : ord2ymd ordinal = (year, month, day)) :
    (1 ≤ year ∧ year ≤ 9999) ∧ (1 ≤ month ∧ month ≤ 12) ∧
      (1 ≤ day ∧ day ≤ daysInMonth year month) ∧ ymd2ord year month day = ordinal := by
  obtain ⟨hy, hy', hlt, hsum⟩ := yearDay_spec (n := ordinal - 1) (by omega)
  obtain ⟨hm, hm', hd, hd', hday⟩ := monthDay_spec hlt
  simp only [ord2ymd, Prod.mk.injEq] at h
  obtain ⟨rfl, hmd⟩ := h
  rw [hmd] at hm hm' hd hd' hday
  refine ⟨⟨hy, hy'⟩, ⟨hm, hm'⟩, ⟨hd, hd'⟩, ?_⟩
  simp only [ymd2ord] at hday ⊢
  omega

/-! ### Writing -/

def microsPerDay : ℕ := 86400000000

/-- The day 1970-01-01. -/
def epochOrdinal : ℕ := 719163

/-- The first and the last instant that a `datetime` can hold. -/
def datetimeMin : ℤ := (1 - (epochOrdinal : ℤ)) * microsPerDay
def datetimeMax : ℤ := (3652060 - (epochOrdinal : ℤ)) * microsPerDay - 1

/-- `HH:MM:SS`, with the microseconds where there are any. -/
def clock (micros : ℕ) : List Char :=
  zeroPadded 2 (micros / 3600000000) ++ ':' :: (zeroPadded 2 (micros / 60000000 % 60) ++
    ':' :: (zeroPadded 2 (micros / 1000000 % 60) ++
      if micros % 1000000 = 0 then [] else '.' :: zeroPadded 6 (micros % 1000000)))

def isoformat (t : ℤ) : List Char :=
  let (year, month, day) := ord2ymd (t / microsPerDay + epochOrdinal).toNat
  zeroPadded 4 year ++ '-' :: (zeroPadded 2 month ++ '-' :: (zeroPadded 2 day ++
    'T' :: (clock (t % microsPerDay).toNat ++ "+00:00".toList)))

/-! ### Reading -/

def expect (c : Char) : List Char → Option (List Char)
  | [] => none
  | d :: cs => if d = c then some cs else none

/-- The day of `YYYY-MM-DD`. -/
def readDate (cs : List Char) : Option (ℕ × List Char) := do
  let (year, cs) ← readDigits 4 0 cs
  let cs ← expect '-' cs
  let (month, cs) ← readDigits 2 0 cs
  let cs ← expect '-' cs
  let (day, cs) ← readDigits 2 0 cs
  if 1 ≤ year ∧ (1 ≤ month ∧ month ≤ 12) ∧ 1 ≤ day ∧ day ≤ daysInMonth year month then
    some (ymd2ord year month day, cs)
  else none

structure Clock where
  hour : ℕ
  minute : ℕ := 0
  second : ℕ := 0
  microsecond : ℕ := 0

def Clock.micros (c : Clock) : ℕ :=
  ((c.hour * 60 + c.minute) * 60 + c.second) * 1000000 + c.microsecond

/-- At least one digit behind a point or a comma; digits after the sixth are dropped. -/
def readFraction : List Char → Option (ℕ × List Char)
  | c :: cs =>
      if c = '.' ∨ c = ',' then
        let digits := cs.takeWhile Char.isDigit
        if digits = [] then none
        else
          (readDigits 6 0 (digits ++ List.replicate 6 '0')).map fun r =>
            (r.1, cs.dropWhile Char.isDigit)
      else some (0, c :: cs)
  | [] => some (0, [])

/-- `HH`, `HH:MM` or `HH:MM:SS` with an optional fraction. -/
def readClock (cs : List Char) : Option (Clock × List Char) := do
  let (hour, cs) ← readDigits 2 0 cs
  match expect ':' cs with
  | none => some (⟨hour, 0, 0, 0⟩, cs)
  | some cs =>
      let (minute, cs) ← readDigits 2 0 cs
      match expect ':' cs with
      | none => some (⟨hour, minute, 0, 0⟩, cs)
      | some cs =>
          let (second, cs) ← readDigits 2 0 cs
          let (microsecond, cs) ← readFraction cs
          some (⟨hour, minute, second, microsecond⟩, cs)

/-- An offset in microseconds; a naive time has none. -/
def readOffset : List Char → Option (Option ℤ)
  | [] => some none
  | 'Z' :: cs => if cs = [] then some (some 0) else none
  | sign :: cs => do
      let (offset, rest) ← readClock cs
      if (sign = '+' ∨ sign = '-') ∧ rest = [] ∧ offset.micros < microsPerDay then
        some (some (if sign = '-' then -offset.micros else offset.micros))
      else none

/-- A wall clock reading, with the offset that it was written in. The date ends the text, or
a separator and a time of day follow it. -/
def fromisoformat (cs : List Char) : Option (ℤ × Option ℤ) := do
  let (ordinal, cs) ← readDate cs
  let midnight := ((ordinal : ℤ) - epochOrdinal) * microsPerDay
  match cs with
  | [] => some (midnight, none)
  | _ :: cs =>
      let (time, cs) ← readClock cs
      let offset ← readOffset cs
      if time.hour < 24 ∧ time.minute < 60 ∧ time.second < 60 then
        some (midnight + time.micros, offset)
      else none

/-! ### Round trip -/

theorem readDigits_two {n : ℕ} (h : n < 100) (cs : List Char) :
    readDigits 2 0 (zeroPadded 2 n ++ cs) = some (n, cs) := by
  rw [readDigits_zeroPadded, Nat.zero_mul, Nat.zero_add, Nat.mod_eq_of_lt (by omega)]

theorem readFraction_written {n : ℕ} (h : n < 1000000) (cs : List Char)
    (hcs : ∀ c ∈ cs.head?, c.isDigit = false) :
    readFraction ('.' :: (zeroPadded 6 n ++ cs)) = some (n, cs) := by
  have hdigits : ∀ c ∈ zeroPadded 6 n, c.isDigit = true := fun c hc =>
    (digits_of_zeroPadded c hc).2
  have hstop : cs.takeWhile Char.isDigit = [] ∧ cs.dropWhile Char.isDigit = cs := by
    cases cs with
    | nil => simp
    | cons c cs => simp [hcs c rfl]
  have hsome : zeroPadded 6 n ≠ [] := by
    intro hnil
    have hlength : (zeroPadded 6 n).length = 6 := length_zeroPadded
    simp [hnil] at hlength
  have hread := readDigits_zeroPadded 6 0 n (List.replicate 6 '0')
  rw [Nat.zero_mul, Nat.zero_add, Nat.mod_eq_of_lt (by omega)] at hread
  simp only [readFraction, true_or, if_true, List.takeWhile_append_of_pos hdigits,
    List.dropWhile_append_of_pos hdigits, hstop.1, hstop.2, List.append_nil, hsome, if_false,
    hread, Option.map_some]

theorem readClock_clock {micros : ℕ} (h : micros < microsPerDay) :
    readClock (clock micros ++ "+00:00".toList) =
      some (⟨micros / 3600000000, micros / 60000000 % 60, micros / 1000000 % 60,
        micros % 1000000⟩, "+00:00".toList) := by
  unfold microsPerDay at h
  have hfraction : readFraction ((if micros % 1000000 = 0 then [] else
      '.' :: zeroPadded 6 (micros % 1000000)) ++ "+00:00".toList) =
      some (micros % 1000000, "+00:00".toList) := by
    split_ifs with hzero
    · rw [hzero]
      rfl
    · refine readFraction_written (Nat.mod_lt _ (by decide)) _ fun c hc => ?_
      obtain rfl : '+' = c := by simpa using hc
      rfl
  simp only [readClock, clock, List.append_assoc, List.cons_append, Option.bind_eq_bind,
    readDigits_two (n := micros / 3600000000) (by omega),
    readDigits_two (n := micros / 60000000 % 60) (by omega),
    readDigits_two (n := micros / 1000000 % 60) (by omega), Option.bind_some, expect, if_true,
    hfraction]

theorem readOffset_utc : readOffset "+00:00".toList = some (some 0) := by decide

theorem daysInMonth_lt {year month : ℕ} (h : month ≤ 12) : daysInMonth year month < 100 := by
  have hlengths : ∀ leap, ∀ i < 12, (monthLengths leap).getD i 0 < 100 := by decide
  exact hlengths (isLeap year) (month - 1) (by omega)

theorem readDate_written {ordinal year month day : ℕ} (hpos : 1 ≤ ordinal)
    (hmax : ordinal ≤ 3652059) (h : ord2ymd ordinal = (year, month, day)) (cs : List Char) :
    readDate (zeroPadded 4 year ++ '-' :: (zeroPadded 2 month ++ '-' :: (zeroPadded 2 day ++ cs))) =
      some (ordinal, cs) := by
  obtain ⟨⟨hy, hy'⟩, hm, hd, hord⟩ := ord2ymd_spec hpos hmax h
  have hday : day < 100 := lt_of_le_of_lt hd.2 (daysInMonth_lt hm.2)
  have hyear := readDigits_zeroPadded 4 0 year
    ('-' :: (zeroPadded 2 month ++ '-' :: (zeroPadded 2 day ++ cs)))
  rw [Nat.zero_mul, Nat.zero_add, Nat.mod_eq_of_lt (by omega)] at hyear
  simp only [readDate, hyear, Option.bind_eq_bind, Option.bind_some, expect, if_true,
    readDigits_two (n := month) (by omega), readDigits_two hday]
  rw [if_pos ⟨hy, hm, hd⟩, hord]

/-- Every instant that a `datetime` can hold is read back from its text. -/
theorem fromisoformat_isoformat {t : ℤ} (hmin : datetimeMin ≤ t) (hmax : t ≤ datetimeMax) :
    fromisoformat (isoformat t) = some (t, some 0) := by
  simp only [datetimeMin, datetimeMax, epochOrdinal, microsPerDay] at hmin hmax
  have hord : ((t / microsPerDay + epochOrdinal).toNat : ℤ) = t / microsPerDay + epochOrdinal :=
    Int.toNat_of_nonneg (by simp only [epochOrdinal, microsPerDay]; omega)
  have hmicros : ((t % microsPerDay).toNat : ℤ) = t % microsPerDay :=
    Int.toNat_of_nonneg (Int.emod_nonneg t (by decide))
  have hlt : (t % microsPerDay).toNat < microsPerDay := by
    simp only [microsPerDay] at hmicros ⊢
    omega
  rcases hdate : ord2ymd (t / microsPerDay + epochOrdinal).toNat with ⟨year, month, day⟩
  have hread := readDate_written (by simp only [epochOrdinal, microsPerDay] at hord ⊢; omega)
    (by simp only [epochOrdinal, microsPerDay] at hord ⊢; omega) hdate
    ('T' :: (clock (t % microsPerDay).toNat ++ "+00:00".toList))
  have hclock := readClock_clock hlt
  have htext : isoformat t = zeroPadded 4 year ++ '-' :: (zeroPadded 2 month ++ '-' ::
      (zeroPadded 2 day ++ 'T' :: (clock (t % microsPerDay).toNat ++ "+00:00".toList))) := by
    simp only [isoformat, hdate]
  rw [htext]
  generalize (t % microsPerDay).toNat = micros at hmicros hlt hread hclock ⊢
  simp only [fromisoformat, hread, hclock, readOffset_utc, Option.bind_eq_bind, Option.bind_some]
  have hday := Int.mul_ediv_add_emod t microsPerDay
  simp only [microsPerDay, epochOrdinal] at hlt hord hday hmicros ⊢
  rw [if_pos ⟨by omega, by omega, by omega⟩]
  simp only [Clock.micros, Option.some.injEq, Prod.mk.injEq, and_true]
  omega

/-- The text of an instant has no bar, so that a bar can end it. -/
theorem isoformat_bar (t : ℤ) : '|' ∉ isoformat t := by
  have hdigits : ∀ width n, '|' ∉ zeroPadded width n := fun _ _ h => (digits_of_zeroPadded _ h).1 rfl
  have hfraction : ∀ n, '|' ∉ if n = 0 then [] else '.' :: zeroPadded 6 n := by
    intro n
    split_ifs <;> simp [hdigits]
  simp [isoformat, clock, hdigits, hfraction]

end StarkbankTrial.IsoDates
