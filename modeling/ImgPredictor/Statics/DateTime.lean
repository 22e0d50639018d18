import Mathlib.Algebra.GroupWithZero.Nat
import Mathlib.Data.Int.Notation
import ImgPredictor.Lib.Bytes
import ImgPredictor.Lib.Lists
import ImgPredictor.Lib.Regex

/-!
# `datetime`, as far as the statistics use it

`strptime` with the one format the script has, `__str__`, and the difference of two times.  A
`DateTime` is a date of the calendar by construction.

The regular expression of `strptime` takes the first alternative that leads to a match and does not
look at what is left of the text before it is done; text left over is then an error.
-/

set_option autoImplicit false

namespace ImgPredictor

open Bytes Regex

/-! ## Dates -/

/-- Is it a leap year? -/
def isLeap (year : ℕ) : Bool := year % 4 == 0 && (year % 100 != 0 || year % 400 == 0)

/-- The days of a month. -/
def daysInMonth (year month : ℕ) : ℕ :=
  if month == 2 then if isLeap year then 29 else 28
  else if month == 4 || month == 6 || month == 9 || month == 11 then 30
  else 31

/-- `datetime.datetime`, without microseconds and time zone. -/
structure DateTime where
  /-- `year` -/
  year : ℕ
  /-- `month` -/
  month : ℕ
  /-- `day` -/
  day : ℕ
  /-- `hour` -/
  hour : ℕ
  /-- `minute` -/
  minute : ℕ
  /-- `second` -/
  second : ℕ
  /-- It is a date. -/
  date : 1 ≤ year ∧ year ≤ 9999 ∧ 1 ≤ month ∧ month ≤ 12 ∧ 1 ≤ day ∧ day ≤ daysInMonth year month
  /-- It is a time of the day. -/
  time : hour < 24 ∧ minute < 60 ∧ second < 60
  deriving DecidableEq, Repr

namespace DateTime

/-- `datetime(year, month, day, hour, minute, second)`; `none` is a `ValueError`. -/
def of? (year month day hour minute second : ℕ) : Option DateTime :=
  if h : (1 ≤ year ∧ year ≤ 9999 ∧ 1 ≤ month ∧ month ≤ 12 ∧ 1 ≤ day ∧
      day ≤ daysInMonth year month) ∧ hour < 24 ∧ minute < 60 ∧ second < 60 then
    some ⟨year, month, day, hour, minute, second, h.1, h.2⟩
  else none

/-- `toordinal`: the days since the first of January of the year one, which is day one. -/
def toOrdinal (t : DateTime) : ℕ :=
  let y := t.year - 1
  y * 365 + y / 4 - y / 100 + y / 400 +
    ((List.range' 1 (t.month - 1)).map (daysInMonth t.year)).sum + t.day

/-- The seconds since the beginning of the calendar. -/
def toSeconds (t : DateTime) : ℤ :=
  (t.toOrdinal * 86400 + t.hour * 3600 + t.minute * 60 + t.second : ℕ)

/-- How much later `t` is than `start`, in seconds. -/
def since (t start : DateTime) : ℤ := t.toSeconds - start.toSeconds

/-- `(t - start).seconds`.  A `timedelta` is kept as days and seconds, the seconds being those of a
day whatever the sign of the days. -/
def secondsSince (t start : DateTime) : ℤ := t.since start % 86400

/-! ## Reading and writing -/

/-- A natural number in decimal. -/
def decimal (n : ℕ) : Bytes := (Nat.toDigits 10 n).map fun c ↦ c.toNat.toUInt8

/-- A natural number in decimal, with zeros in front up to a width. -/
def padded (width n : ℕ) : Bytes := (decimal n).leftpad width 48

/-- `__str__` -/
def str (t : DateTime) : Bytes :=
  padded 4 t.year ++ lit "-" ++ padded 2 t.month ++ lit "-" ++ padded 2 t.day ++ lit " " ++
    padded 2 t.hour ++ lit ":" ++ padded 2 t.minute ++ lit ":" ++ padded 2 t.second

/-- `[lo-hi]` -/
def range (lo hi : Char) : Pat UInt8 := .one fun b ↦ lo.toNat ≤ b.toNat && b.toNat ≤ hi.toNat

/-- `\d` -/
def digit : Pat UInt8 := .one isDigit

/-- The alternatives of a field. -/
def oneOf : List (Pat UInt8) → Pat UInt8
  | [] => .ahead fun _ ↦ false
  | [a] => a
  | a :: as => .alt a (oneOf as)

/-- `%Y` -/
def yearPat : Pat UInt8 := .seq digit (.seq digit (.seq digit digit))

/-- `%m` -/
def monthPat : Pat UInt8 :=
  oneOf [.seq (Regex.lit (lit "1")) (range '0' '2'), .seq (Regex.lit (lit "0")) (range '1' '9'),
    range '1' '9']

/-- `%d` -/
def dayPat : Pat UInt8 :=
  oneOf [.seq (Regex.lit (lit "3")) (range '0' '1'), .seq (range '1' '2') digit,
    .seq (Regex.lit (lit "0")) (range '1' '9'), range '1' '9',
    .seq (Regex.lit (lit " ")) (range '1' '9')]

/-- `%H` -/
def hourPat : Pat UInt8 :=
  oneOf [.seq (Regex.lit (lit "2")) (range '0' '3'), .seq (range '0' '1') digit, digit]

/-- `%M` -/
def minutePat : Pat UInt8 := oneOf [.seq (range '0' '5') digit, digit]

/-- `%S` -/
def secondPat : Pat UInt8 :=
  oneOf [.seq (Regex.lit (lit "6")) (range '0' '1'), .seq (range '0' '5') digit, digit]

/-- `%Y/%m/%d %H:%M:%S` -/
def formatPat : Pat UInt8 :=
  .seq (.group 1 yearPat) <| .seq (Regex.lit (lit "/")) <|
  .seq (.group 2 monthPat) <| .seq (Regex.lit (lit "/")) <|
  .seq (.group 3 dayPat) <| .seq (plus isSpace) <|
  .seq (.group 4 hourPat) <| .seq (Regex.lit (lit ":")) <|
  .seq (.group 5 minutePat) <| .seq (Regex.lit (lit ":")) <| .group 6 secondPat

/-- `int` of a field; the blank a day may start with does not count. -/
def field (h : Hit UInt8) (n : ℕ) : ℕ :=
  ((h.cap n).getD []).filter isDigit |>.foldl (fun k b ↦ 10 * k + (b.toNat - 48)) 0

/-- `datetime.datetime.strptime(s, "%Y/%m/%d %H:%M:%S")`; `none` is a `ValueError`. -/
def strptime (s : Bytes) : Option DateTime :=
  match formatPat.first s with
  | none => none
  | some h =>
    if h.rest.isEmpty then
      of? (field h 1) (field h 2) (field h 3) (field h 4) (field h 5) (field h 6)
    else none

example : (strptime (lit "2016/03/08 10:25:00")).map str = some (lit "2016-03-08 10:25:00") := by
  decide

/-! ## The seconds of a difference -/

/-- **The seconds are the elapsed time up to whole days.** -/
theorem secondsSince_range (t start : DateTime) :
    0 ≤ t.secondsSince start ∧ t.secondsSince start < 86400 :=
  ⟨Int.emod_nonneg _ (by decide), Int.emod_lt_of_pos _ (by decide)⟩

/-! ## Different times are written differently -/

/-- The number some digits spell. -/
def spelled (digits : Bytes) : ℕ := digits.foldl (fun k b ↦ 10 * k + (b.toNat - 48)) 0

theorem decimal_eq (n : ℕ) :
    decimal n = (if n < 10 then [] else decimal (n / 10)) ++ [(48 + n % 10).toUInt8] := by
  have hdigit : ∀ k < 10, (Nat.digitChar k).toNat.toUInt8 = (48 + k).toUInt8 := by decide
  rw [decimal, Nat.toDigits_eq_if (by decide)]
  split
  · rename_i hn
    rw [List.map_singleton, hdigit n hn, Nat.mod_eq_of_lt hn]
    rfl
  · rw [List.map_append, List.map_singleton, hdigit _ (Nat.mod_lt _ (by decide))]
    rfl

theorem digit_toNat (k : ℕ) : (48 + k % 10).toUInt8.toNat = 48 + k % 10 := by
  have hlt : 48 + k % 10 < 256 := by omega
  simpa using Nat.mod_eq_of_lt hlt

theorem spelled_decimal (n : ℕ) : spelled (decimal n) = n := by
  induction n using Nat.strongRecOn with
  | ind n ih =>
    rw [decimal_eq, spelled, List.foldl_append, List.foldl_cons, List.foldl_nil, digit_toNat]
    split
    · rw [List.foldl_nil]
      omega
    · rw [← spelled, ih (n / 10) (by omega)]
      omega

theorem isDigit_decimal (n : ℕ) : ∀ b ∈ decimal n, isDigit b = true := by
  have hdigit : ∀ k < 10, isDigit (48 + k).toUInt8 = true := by decide
  induction n using Nat.strongRecOn with
  | ind n ih =>
    intro b hb
    rw [decimal_eq, List.mem_append, List.mem_singleton] at hb
    rcases hb with hb | rfl
    · split at hb
      · exact absurd hb (by simp)
      · exact ih (n / 10) (by omega) b hb
    · exact hdigit _ (Nat.mod_lt _ (by decide))

/-- Zeros in front do not change the number. -/
theorem spelled_padded (width n : ℕ) : spelled (padded width n) = n := by
  have hzeros : ∀ k : ℕ, (List.replicate k (48 : UInt8)).foldl
      (fun k b ↦ 10 * k + (b.toNat - 48)) 0 = 0 := by
    intro k
    induction k with
    | zero => rfl
    | succ k ih => simpa [List.replicate_succ] using ih
  rw [padded, List.leftpad, spelled, List.foldl_append, hzeros]
  exact spelled_decimal n

theorem notMem_padded (width n : ℕ) {c : UInt8} (hc : isDigit c = false) : c ∉ padded width n := by
  intro hmem
  have hdigit : isDigit c = true := by
    rw [padded, List.leftpad, List.mem_append] at hmem
    rcases hmem with hmem | hmem
    · rw [List.eq_of_mem_replicate hmem]
      rfl
    · exact isDigit_decimal n c hmem
  exact absurd (hc.symm.trans hdigit) Bool.false_ne_true

/-- A field and what follows its separator. -/
theorem padded_append_inj {width n m : ℕ} {c : UInt8} (hc : isDigit c = false) {s t : Bytes}
    (h : padded width n ++ c :: s = padded width m ++ c :: t) : n = m ∧ s = t := by
  obtain ⟨hfield, hrest⟩ :=
    Lists.append_cons_inj_of_notMem (notMem_padded width n hc) (notMem_padded width m hc) h
  refine ⟨?_, hrest⟩
  rw [← spelled_padded width n, hfield, spelled_padded]

/-- The fields of a text. -/
theorem str_eq (t : DateTime) : t.str = padded 4 t.year ++ 45 :: (padded 2 t.month ++ 45 ::
    (padded 2 t.day ++ 32 :: (padded 2 t.hour ++ 58 :: (padded 2 t.minute ++ 58 ::
      padded 2 t.second)))) := by
  rw [str, show lit "-" = [45] from rfl, show lit " " = [32] from rfl,
    show lit ":" = [58] from rfl]
  simp

/-- **A time can be read off its text.** -/
theorem str_inj {t t' : DateTime} (h : t.str = t'.str) : t = t' := by
  rw [str_eq, str_eq] at h
  obtain ⟨hyear, h⟩ := padded_append_inj rfl h
  obtain ⟨hmonth, h⟩ := padded_append_inj rfl h
  obtain ⟨hday, h⟩ := padded_append_inj rfl h
  obtain ⟨hhour, h⟩ := padded_append_inj rfl h
  obtain ⟨hminute, h⟩ := padded_append_inj rfl h
  have hsecond : t.second = t'.second := by
    rw [← spelled_padded 2 t.second, h, spelled_padded]
  obtain ⟨year, month, day, hour, minute, second, date, time⟩ := t
  obtain ⟨year', month', day', hour', minute', second', date', time'⟩ := t'
  simp only at hyear hmonth hday hhour hminute hsecond
  subst hyear hmonth hday hhour hminute hsecond
  rfl

end DateTime

end ImgPredictor
