import ImgPredictor.Statics.DateTime

/-!
# The times that are read

`strptime` matches a regular expression that tries its alternatives in order and does not look at
what is left of the text before it is done.  `strptime_iff` says which texts it takes and for which
time, with no word on the order: what separates two fields does not occur in them, so that there is
only one way to cut the text, and the last field takes two digits wherever it can.

The time nginx writes in front of a line of its error log is one of these texts.
-/

set_option autoImplicit false

namespace ImgPredictor

open Bytes Regex

namespace DateTime

/-- A number written in one digit or two. -/
def Writes (n : ℕ) (w : Bytes) : Prop :=
  (w.length = 1 ∨ w.length = 2) ∧ (∀ b ∈ w, isDigit b = true) ∧ spelled w = n

/-- The text is a writing of the time. -/
def Reads (t : DateTime) (s : Bytes) : Prop :=
  ∃ year month day blank hour minute second : Bytes,
    s = year ++ (lit "/" ++ (month ++ (lit "/" ++ (day ++ (blank ++ (hour ++ (lit ":" ++
      (minute ++ (lit ":" ++ second))))))))) ∧
    (year.length = 4 ∧ (∀ b ∈ year, isDigit b = true) ∧ spelled year = t.year) ∧
    Writes t.month month ∧
    -- a day of one digit may have a blank in front
    (Writes t.day day ∨ ∃ b, day = lit " " ++ [b] ∧ Writes t.day [b]) ∧
    (blank ≠ [] ∧ ∀ b ∈ blank, isSpace b = true) ∧
    Writes t.hour hour ∧ Writes t.minute minute ∧ Writes t.second second

/-! ## Fields -/

theorem isDigit_iff {b : UInt8} : isDigit b = true ↔ 48 ≤ b.toNat ∧ b.toNat ≤ 57 := by
  simp [isDigit, UInt8.le_iff_toNat_le]

theorem writes_iff {n : ℕ} {w : Bytes} : Writes n w ↔
    (∃ a, w = [a] ∧ (48 ≤ a.toNat ∧ a.toNat ≤ 57) ∧ a.toNat - 48 = n) ∨
    ∃ a b, w = [a, b] ∧ (48 ≤ a.toNat ∧ a.toNat ≤ 57) ∧ (48 ≤ b.toNat ∧ b.toNat ≤ 57) ∧
      10 * (a.toNat - 48) + (b.toNat - 48) = n := by
  match w with
  | [] => simp [Writes]
  | [a] => simp [Writes, spelled, isDigit_iff]
  | [a, b] => simp [Writes, spelled, isDigit_iff, and_assoc]
  | a :: b :: c :: w => simp [Writes]

theorem lang_lit_one {c : UInt8} {q : UInt8 → Bool} {w : Bytes} :
    (Pat.seq (Regex.lit [c]) (.one q)).Lang w ↔
      ∃ a b, w = [a, b] ∧ a.toNat = c.toNat ∧ q b = true := by
  constructor
  · rintro ⟨_, _, rfl, ⟨_, _, rfl, ⟨y, rfl, hy⟩, rfl⟩, b, rfl, hb⟩
    exact ⟨y, b, rfl, congrArg _ (eq_of_beq hy), hb⟩
  · rintro ⟨a, b, rfl, ha, hb⟩
    obtain rfl := UInt8.toNat_inj.mp ha
    exact ⟨[a], [b], rfl, lang_lit.mpr rfl, b, rfl, hb⟩

theorem lang_yearPat {w : Bytes} :
    yearPat.Lang w ↔ w.length = 4 ∧ ∀ b ∈ w, isDigit b = true := by
  constructor
  · rintro ⟨_, _, rfl, ⟨a, rfl, ha⟩, _, _, rfl, ⟨b, rfl, hb⟩, h⟩
    obtain ⟨c, d, rfl, hc, hd⟩ := lang_two.mp h
    exact ⟨rfl, by simp [ha, hb, hc, hd]⟩
  · rintro ⟨hlen, h⟩
    match w, hlen with
    | [a, b, c, d], _ =>
      simp only [List.mem_cons, List.not_mem_nil, or_false, forall_eq_or_imp, forall_eq] at h
      exact ⟨[a], [b, c, d], rfl, ⟨a, rfl, h.1⟩, [b], [c, d], rfl, ⟨b, rfl, h.2.1⟩,
        lang_two.mpr ⟨c, d, rfl, h.2.2⟩⟩

theorem lang_monthPat {w : Bytes} : monthPat.Lang w ↔ ∃ n, (1 ≤ n ∧ n ≤ 12) ∧ Writes n w := by
  have h0 : lit "0" = [48] := rfl
  have h1 : lit "1" = [49] := rfl
  simp only [monthPat, oneOf, range, h0, h1, lang_alt, lang_one, lang_lit_one, writes_iff]
  match w with
  | [] => simp
  | [a] => simp; omega
  | [a, b] => simp; omega
  | a :: b :: c :: w => simp

theorem lang_dayPat {w : Bytes} : dayPat.Lang w ↔ ∃ n, (1 ≤ n ∧ n ≤ 31) ∧
    (Writes n w ∨ ∃ b, w = lit " " ++ [b] ∧ Writes n [b]) := by
  have h0 : lit "0" = [48] := rfl
  have h3 : lit "3" = [51] := rfl
  have hblank : lit " " = [32] := rfl
  have heq : ∀ a : UInt8, a = 32 ↔ a.toNat = 32 := fun a ↦ UInt8.toNat_inj.symm
  simp only [dayPat, oneOf, range, digit, h0, h3, hblank, lang_alt, lang_one, lang_two,
    lang_lit_one, writes_iff, isDigit_iff]
  match w with
  | [] => simp
  | [a] => simp; omega
  | [a, b] => simp [heq, and_or_left, exists_or]; omega
  | a :: b :: c :: w => simp

theorem lang_hourPat {w : Bytes} : hourPat.Lang w ↔ ∃ n, n < 24 ∧ Writes n w := by
  have h2 : lit "2" = [50] := rfl
  simp only [hourPat, oneOf, range, digit, h2, lang_alt, lang_one, lang_two, lang_lit_one,
    writes_iff, isDigit_iff]
  match w with
  | [] => simp
  | [a] => simp; omega
  | [a, b] => simp; omega
  | a :: b :: c :: w => simp

theorem lang_minutePat {w : Bytes} : minutePat.Lang w ↔ ∃ n, n < 60 ∧ Writes n w := by
  simp only [minutePat, oneOf, range, digit, lang_alt, lang_one, lang_two, writes_iff, isDigit_iff]
  match w with
  | [] => simp
  | [a] => simp; omega
  | [a, b] => simp; omega
  | a :: b :: c :: w => simp

theorem lang_secondPat {w : Bytes} : secondPat.Lang w ↔ ∃ n, n < 62 ∧ Writes n w := by
  have h6 : lit "6" = [54] := rfl
  simp only [secondPat, oneOf, range, digit, h6, lang_alt, lang_one, lang_two, lang_lit_one,
    writes_iff, isDigit_iff]
  match w with
  | [] => simp
  | [a] => simp; omega
  | [a, b] => simp; omega
  | a :: b :: c :: w => simp

/-! ## One field after the other -/

/-- The pattern of a field: after the first character there are digits only. -/
structure Field (f : Pat UInt8) : Prop where
  /-- It has no test. -/
  tests : f.testless = true
  /-- It has no group. -/
  groups : f.groupless = true
  /-- It takes something, and only digits after that. -/
  tail : ∀ w, f.Lang w → w ≠ [] ∧ ∀ b ∈ w.tail, isDigit b = true

theorem Writes.tail {n : ℕ} {w : Bytes} (h : Writes n w) :
    w ≠ [] ∧ ∀ b ∈ w.tail, isDigit b = true := by
  refine ⟨?_, fun b hb ↦ h.2.1 b (List.mem_of_mem_tail hb)⟩
  rintro rfl
  simp [Writes] at h

theorem field_yearPat : Field yearPat where
  tests := rfl
  groups := rfl
  tail w hw := by
    obtain ⟨hlen, hdigits⟩ := lang_yearPat.mp hw
    refine ⟨?_, fun b hb ↦ hdigits b (List.mem_of_mem_tail hb)⟩
    rintro rfl
    simp at hlen

theorem field_monthPat : Field monthPat where
  tests := rfl
  groups := rfl
  tail w hw := by
    obtain ⟨n, -, hn⟩ := lang_monthPat.mp hw
    exact hn.tail

theorem field_dayPat : Field dayPat where
  tests := rfl
  groups := rfl
  tail w hw := by
    obtain ⟨n, -, hn | ⟨b, rfl, hn⟩⟩ := lang_dayPat.mp hw
    · exact hn.tail
    · exact ⟨by simp, hn.2.1⟩

theorem field_hourPat : Field hourPat where
  tests := rfl
  groups := rfl
  tail w hw := by
    obtain ⟨n, -, hn⟩ := lang_hourPat.mp hw
    exact hn.tail

theorem field_minutePat : Field minutePat where
  tests := rfl
  groups := rfl
  tail w hw := by
    obtain ⟨n, -, hn⟩ := lang_minutePat.mp hw
    exact hn.tail

/-- A separator is a character that no digit can be taken for. -/
def Separator (sep : Bytes) : Prop := ∃ c, sep = [c] ∧ isDigit c = false

theorem separator_slash : Separator (lit "/") := ⟨47, rfl, rfl⟩

theorem separator_colon : Separator (lit ":") := ⟨58, rfl, rfl⟩

/-- A field and the separator after it. -/
theorem fits_field (n : ℕ) {f b : Pat UInt8} (hf : Field f) {sep : Bytes} (hsep : Separator sep)
    {s : Bytes} {caps : List (ℕ × Bytes)} :
    (Pat.seq (.group n f) (.seq (Regex.lit sep) b)).Fits s caps ↔ ∃ w t caps',
      s = w ++ (sep ++ t) ∧ f.Lang w ∧ b.Fits t caps' ∧ caps = (n, w) :: caps' := by
  obtain ⟨c, rfl, hc⟩ := hsep
  have hstart : ∀ x t, isDigit x = true → (Pat.seq (Regex.lit [c]) b).first (x :: t) = none := by
    intro x t hx
    refine first_seq_cons_eq_none (fun w hw ↦ ⟨c, [], lang_lit.mp hw, ?_⟩) t
    rintro rfl
    exact absurd (hc.symm.trans hx) Bool.false_ne_true
  rw [fits_group_seq n hf.tests hf.groups hf.tail hstart]
  constructor
  · rintro ⟨w, _, caps', rfl, hw, h, rfl⟩
    obtain ⟨t, rfl, ht⟩ := fits_lit_seq.mp h
    exact ⟨w, t, caps', rfl, hw, ht, rfl⟩
  · rintro ⟨w, t, caps', rfl, hw, ht, rfl⟩
    exact ⟨w, _, caps', rfl, hw, fits_lit_seq.mpr ⟨t, rfl, ht⟩, rfl⟩

theorem not_isSpace_of_isDigit {x : UInt8} (hx : isDigit x = true) : isSpace x = false := by
  rw [isDigit_iff] at hx
  simp [isSpace, UInt8.le_iff_toNat_le, ← UInt8.toNat_inj]
  omega

/-- The day, the blanks after it and the hour. -/
theorem fits_day {b : Pat UInt8} {s : Bytes} {caps : List (ℕ × Bytes)} :
    (Pat.seq (.group 3 dayPat) (.seq (plus isSpace) (.seq (.group 4 hourPat) b))).Fits s caps ↔
      ∃ w v t caps', s = w ++ (v ++ t) ∧ dayPat.Lang w ∧ (v ≠ [] ∧ ∀ x ∈ v, isSpace x = true) ∧
        (Pat.seq (.group 4 hourPat) b).Fits t caps' ∧ caps = (3, w) :: caps' := by
  have hhour : ∀ x t, isSpace x = true →
      (Pat.seq (.group 4 hourPat) b).first (x :: t) = none := by
    intro x t hx
    refine first_seq_cons_eq_none (fun w hw ↦ ?_) t
    obtain ⟨n, -, hn⟩ := lang_hourPat.mp hw
    obtain ⟨y, u, rfl⟩ := List.exists_cons_of_ne_nil hn.tail.1
    refine ⟨y, u, rfl, ?_⟩
    rintro rfl
    have hy := not_isSpace_of_isDigit (hn.2.1 y List.mem_cons_self)
    exact absurd (hy.symm.trans hx) Bool.false_ne_true
  have hblank : ∀ x t, isDigit x = true →
      (Pat.seq (plus isSpace) (.seq (.group 4 hourPat) b)).first (x :: t) = none := by
    intro x t hx
    refine first_seq_cons_eq_none (fun w hw ↦ ?_) t
    obtain ⟨hne, hspace⟩ := lang_plus.mp hw
    obtain ⟨y, u, rfl⟩ := List.exists_cons_of_ne_nil hne
    refine ⟨y, u, rfl, ?_⟩
    rintro rfl
    have hy := not_isSpace_of_isDigit hx
    exact absurd (hy.symm.trans (hspace y List.mem_cons_self)) Bool.false_ne_true
  have hplus : ∀ w, (plus isSpace).Lang w → w ≠ [] ∧ ∀ x ∈ w.tail, isSpace x = true := by
    intro w hw
    obtain ⟨hne, hspace⟩ := lang_plus.mp hw
    exact ⟨hne, fun x hx ↦ hspace x (List.mem_of_mem_tail hx)⟩
  rw [fits_group_seq 3 field_dayPat.tests field_dayPat.groups field_dayPat.tail hblank]
  constructor
  · rintro ⟨w, _, caps', rfl, hw, h, rfl⟩
    obtain ⟨v, t, rfl, hv, ht⟩ := (fits_seq rfl rfl hplus hhour).mp h
    exact ⟨w, v, t, caps', rfl, hw, lang_plus.mp hv, ht, rfl⟩
  · rintro ⟨w, v, t, caps', rfl, hw, hv, ht, rfl⟩
    exact ⟨w, _, caps', rfl, hw,
      (fits_seq rfl rfl hplus hhour).mpr ⟨v, t, rfl, lang_plus.mpr hv, ht⟩, rfl⟩

theorem hits_two_nil (p q : UInt8 → Bool) (a : UInt8) :
    (Pat.seq (.one p) (.one q)).hits [a] = [] := by
  cases ha : p a <;> simp [Pat.hits, ha]

theorem hits_two (p q : UInt8 → Bool) (a b : UInt8) :
    (Pat.seq (.one p) (.one q)).hits [a, b] = if p a && q b then [⟨[a, b], [], []⟩] else [] := by
  cases ha : p a <;> cases hb : q b <;> simp [Pat.hits, ha, hb, Hit.andThen]

/-- A literal character is a class of its own. -/
theorem hits_lit_seq (c : UInt8) (b : Pat UInt8) (s : Bytes) :
    (Pat.seq (Regex.lit [c]) b).hits s = (Pat.seq (.one (· == c)) b).hits s := by
  cases s with
  | nil => rfl
  | cons x s => cases hx : x == c <;> simp [Regex.lit, Pat.hits, hx, Hit.andThen]

/-- The seconds are not followed by anything: two digits are taken wherever there are two. -/
theorem first_secondPat {w : Bytes} (h : secondPat.Lang w) :
    secondPat.first w = some ⟨w, [], []⟩ := by
  obtain ⟨n, hn, hw⟩ := lang_secondPat.mp h
  have hhits : secondPat.hits w = (Pat.seq (.one (· == 54)) (range '0' '1')).hits w
      ++ ((Pat.seq (range '0' '5') digit).hits w ++ digit.hits w) := by
    rw [← hits_lit_seq]
    rfl
  rw [Pat.first, hhits, range, range, digit]
  rcases writes_iff.mp hw with ⟨a, rfl, ha, -⟩ | ⟨a, b, rfl, ha, hb, hval⟩
  · rw [hits_two_nil, hits_two_nil, Pat.hits, if_pos (isDigit_iff.mpr ha)]
    rfl
  · rw [hits_two, hits_two]
    have hdigit : isDigit b = true := isDigit_iff.mpr hb
    by_cases hsix : a = 54
    · subst hsix
      have hle : b.toNat ≤ 49 := by
        have h54 : (54 : UInt8).toNat = 54 := rfl
        omega
      simp [hb.1, hle]
    · have hle : a.toNat ≤ 53 := by
        have h54 : a.toNat ≠ 54 := fun heq ↦ hsix (UInt8.toNat_inj.mp heq)
        omega
      simp [hsix, ha.1, hle, hdigit]

theorem fits_second {s : Bytes} {caps : List (ℕ × Bytes)} :
    (Pat.group 6 secondPat).Fits s caps ↔ secondPat.Lang s ∧ caps = [(6, s)] := by
  constructor
  · rintro ⟨taken, h⟩
    obtain ⟨k, hk, heq⟩ := List.mem_map.mp (List.mem_of_mem_head? h)
    obtain ⟨-, rfl, hrest⟩ := Hit.mk.inj heq
    obtain ⟨hs, hlang⟩ := lang_of_mem_hits hk
    rw [hrest, List.append_nil] at hs
    rw [caps_of_groupless rfl hk, hs]
    exact ⟨hlang, rfl⟩
  · rintro ⟨hs, rfl⟩
    have hfirst := first_secondPat hs
    rw [Pat.first] at hfirst
    exact ⟨s, by rw [Pat.first, Pat.hits, List.head?_map, hfirst]; rfl⟩

theorem fits_formatPat {s : Bytes} {caps : List (ℕ × Bytes)} : formatPat.Fits s caps ↔
    ∃ year month day blank hour minute second : Bytes,
      s = year ++ (lit "/" ++ (month ++ (lit "/" ++ (day ++ (blank ++ (hour ++ (lit ":" ++
        (minute ++ (lit ":" ++ second))))))))) ∧
      yearPat.Lang year ∧ monthPat.Lang month ∧ dayPat.Lang day ∧
      (blank ≠ [] ∧ ∀ b ∈ blank, isSpace b = true) ∧
      hourPat.Lang hour ∧ minutePat.Lang minute ∧ secondPat.Lang second ∧
      caps = [(1, year), (2, month), (3, day), (4, hour), (5, minute), (6, second)] := by
  constructor
  · intro h
    obtain ⟨year, _, _, rfl, hyear, h₁, rfl⟩ := (fits_field 1 field_yearPat separator_slash).mp h
    obtain ⟨month, _, _, rfl, hmonth, h₂, rfl⟩ :=
      (fits_field 2 field_monthPat separator_slash).mp h₁
    obtain ⟨day, blank, _, _, rfl, hday, hblank, h₃, rfl⟩ := fits_day.mp h₂
    obtain ⟨hour, _, _, rfl, hhour, h₄, rfl⟩ := (fits_field 4 field_hourPat separator_colon).mp h₃
    obtain ⟨minute, _, _, rfl, hminute, h₅, rfl⟩ :=
      (fits_field 5 field_minutePat separator_colon).mp h₄
    obtain ⟨hsecond, rfl⟩ := fits_second.mp h₅
    exact ⟨year, month, day, blank, hour, minute, _, rfl, hyear, hmonth, hday, hblank, hhour,
      hminute, hsecond, rfl⟩
  · rintro ⟨year, month, day, blank, hour, minute, second, rfl, hyear, hmonth, hday, hblank,
      hhour, hminute, hsecond, rfl⟩
    refine (fits_field 1 field_yearPat separator_slash).mpr ⟨year, _, _, rfl, hyear, ?_, rfl⟩
    refine (fits_field 2 field_monthPat separator_slash).mpr ⟨month, _, _, rfl, hmonth, ?_, rfl⟩
    refine fits_day.mpr ⟨day, blank, _, _, rfl, hday, hblank, ?_, rfl⟩
    refine (fits_field 4 field_hourPat separator_colon).mpr ⟨hour, _, _, rfl, hhour, ?_, rfl⟩
    refine (fits_field 5 field_minutePat separator_colon).mpr ⟨minute, _, _, rfl, hminute, ?_, rfl⟩
    exact fits_second.mpr ⟨hsecond, rfl⟩

/-! ## The time of a text -/

/-- `strptime` is a match to the end of the text, and a date. -/
theorem strptime_eq_some_iff {s : Bytes} {t : DateTime} : strptime s = some t ↔
    ∃ caps, formatPat.Fits s caps ∧ of? (field ⟨[], caps, []⟩ 1) (field ⟨[], caps, []⟩ 2)
      (field ⟨[], caps, []⟩ 3) (field ⟨[], caps, []⟩ 4) (field ⟨[], caps, []⟩ 5)
      (field ⟨[], caps, []⟩ 6) = some t := by
  rw [strptime]
  constructor
  · intro h
    split at h
    · exact absurd h (by simp)
    · rename_i r hr
      split at h
      · rename_i hrest
        obtain ⟨taken, caps, rest⟩ := r
        obtain rfl : rest = [] := List.isEmpty_iff.mp hrest
        exact ⟨caps, ⟨taken, hr⟩, h⟩
      · exact absurd h (by simp)
  · rintro ⟨caps, ⟨taken, hr⟩, h⟩
    rw [hr]
    exact h

theorem of?_eq_some_iff {year month day hour minute second : ℕ} {t : DateTime} :
    of? year month day hour minute second = some t ↔ year = t.year ∧ month = t.month ∧
      day = t.day ∧ hour = t.hour ∧ minute = t.minute ∧ second = t.second := by
  rw [of?]
  constructor
  · intro h
    split at h
    · rw [← Option.some.inj h]
      exact ⟨rfl, rfl, rfl, rfl, rfl, rfl⟩
    · exact absurd h (by simp)
  · rintro ⟨rfl, rfl, rfl, rfl, rfl, rfl⟩
    rw [dif_pos ⟨t.date, t.time⟩]

/-- `int` of a group, where it is made of digits. -/
theorem field_eq {caps : List (ℕ × Bytes)} {n : ℕ} {w : Bytes} (hcap : caps.lookup n = some w)
    (hw : ∀ b ∈ w, isDigit b = true) : field ⟨[], caps, []⟩ n = spelled w := by
  rw [field, Hit.cap, hcap, Option.getD_some, List.filter_eq_self.mpr hw]
  rfl

/-- `int` of the day does not see the blank. -/
theorem field_day {caps : List (ℕ × Bytes)} {n m : ℕ} {w : Bytes} (hcap : caps.lookup n = some w)
    (hw : Writes m w ∨ ∃ b, w = lit " " ++ [b] ∧ Writes m [b]) :
    field ⟨[], caps, []⟩ n = m := by
  rcases hw with hw | ⟨b, rfl, hw⟩
  · rw [field_eq hcap hw.2.1, hw.2.2]
  · have hfilter : (lit " " ++ [b]).filter isDigit = [b] := by
      rw [List.filter_append, List.filter_eq_self.mpr hw.2.1]
      rfl
    rw [field, Hit.cap, hcap, Option.getD_some, hfilter]
    exact hw.2.2

theorem daysInMonth_le (year month : ℕ) : daysInMonth year month ≤ 31 := by
  rw [daysInMonth]
  split
  · split <;> decide
  · split <;> decide

/-- **The texts `strptime` takes**, and the time it takes them for. -/
theorem strptime_iff (s : Bytes) (t : DateTime) : strptime s = some t ↔ t.Reads s := by
  rw [strptime_eq_some_iff]
  constructor
  · rintro ⟨caps, hfits, h⟩
    obtain ⟨year, month, day, blank, hour, minute, second, rfl, hyear, hmonth, hday, hblank,
      hhour, hminute, hsecond, rfl⟩ := fits_formatPat.mp hfits
    obtain ⟨hlen, hdigits⟩ := lang_yearPat.mp hyear
    obtain ⟨_, -, hmonth⟩ := lang_monthPat.mp hmonth
    obtain ⟨_, -, hday⟩ := lang_dayPat.mp hday
    obtain ⟨_, -, hhour⟩ := lang_hourPat.mp hhour
    obtain ⟨_, -, hminute⟩ := lang_minutePat.mp hminute
    obtain ⟨_, -, hsecond⟩ := lang_secondPat.mp hsecond
    rw [field_eq rfl hdigits, field_eq rfl hmonth.2.1, field_day rfl hday,
      field_eq rfl hhour.2.1, field_eq rfl hminute.2.1, field_eq rfl hsecond.2.1, hmonth.2.2,
      hhour.2.2, hminute.2.2, hsecond.2.2, of?_eq_some_iff] at h
    obtain ⟨hyear, rfl, rfl, rfl, rfl, rfl⟩ := h
    exact ⟨year, month, day, blank, hour, minute, second, rfl, ⟨hlen, hdigits, hyear⟩, hmonth,
      hday, hblank, hhour, hminute, hsecond⟩
  · rintro ⟨year, month, day, blank, hour, minute, second, rfl, ⟨hlen, hdigits, hyear⟩, hmonth,
      hday, hblank, hhour, hminute, hsecond⟩
    obtain ⟨-, -, hmonthLow, hmonthHigh, hdayLow, hdayHigh⟩ := t.date
    obtain ⟨hhourHigh, hminuteHigh, hsecondHigh⟩ := t.time
    have hdays := daysInMonth_le t.year t.month
    refine ⟨_, fits_formatPat.mpr ⟨year, month, day, blank, hour, minute, second, rfl,
      lang_yearPat.mpr ⟨hlen, hdigits⟩, lang_monthPat.mpr ⟨_, ⟨hmonthLow, hmonthHigh⟩, hmonth⟩,
      lang_dayPat.mpr ⟨_, ⟨hdayLow, by omega⟩, hday⟩, hblank,
      lang_hourPat.mpr ⟨_, hhourHigh, hhour⟩, lang_minutePat.mpr ⟨_, hminuteHigh, hminute⟩,
      lang_secondPat.mpr ⟨_, by omega, hsecond⟩, rfl⟩, ?_⟩
    rw [field_eq rfl hdigits, field_eq rfl hmonth.2.1, field_day rfl hday,
      field_eq rfl hhour.2.1, field_eq rfl hminute.2.1, field_eq rfl hsecond.2.1, hmonth.2.2,
      hhour.2.2, hminute.2.2, hsecond.2.2, of?_eq_some_iff]
    exact ⟨hyear, rfl, rfl, rfl, rfl, rfl⟩

/-! ## The time of a line -/

/-- The time nginx writes in front of a line: `%4d/%02d/%02d %02d:%02d:%02d`. -/
def stamp (t : DateTime) : Bytes :=
  (decimal t.year).leftpad 4 32 ++ (lit "/" ++ (padded 2 t.month ++ (lit "/" ++
    (padded 2 t.day ++ (lit " " ++ (padded 2 t.hour ++ (lit ":" ++ (padded 2 t.minute ++
      (lit ":" ++ padded 2 t.second)))))))))

theorem length_decimal_of_lt {n : ℕ} (h : n < 10) : (decimal n).length = 1 := by
  rw [decimal_eq, if_pos h]
  rfl

theorem length_decimal_of_le {n : ℕ} (h : 10 ≤ n) :
    (decimal n).length = (decimal (n / 10)).length + 1 := by
  rw [decimal_eq, if_neg (by omega), List.length_append]
  rfl

theorem length_decimal_le {k n : ℕ} (h : n < 10 ^ (k + 1)) : (decimal n).length ≤ k + 1 := by
  induction k generalizing n with
  | zero => exact Nat.le_of_eq (length_decimal_of_lt (by simpa using h))
  | succ k ih =>
    by_cases hn : n < 10
    · rw [length_decimal_of_lt hn]
      omega
    · rw [length_decimal_of_le (by omega)]
      refine Nat.succ_le_succ (ih ?_)
      rw [Nat.div_lt_iff_lt_mul (by omega)]
      rwa [pow_succ] at h

/-- A number that fits its field fills it. -/
theorem length_padded {k n : ℕ} (h : n < 10 ^ (k + 1)) : (padded (k + 1) n).length = k + 1 := by
  rw [padded, List.length_leftpad]
  exact Nat.max_eq_left (length_decimal_le h)

theorem writes_padded {n : ℕ} (h : n < 100) : Writes n (padded 2 n) := by
  refine ⟨.inr (length_padded (k := 1) h), fun b hb ↦ ?_, spelled_padded 2 n⟩
  by_contra hdigit
  exact notMem_padded 2 n (by simpa using hdigit) hb

theorem reads_stamp {t : DateTime} (h : 1000 ≤ t.year) : t.Reads t.stamp := by
  have hyear : (decimal t.year).length = 4 := by
    have := t.date
    rw [length_decimal_of_le (by omega), length_decimal_of_le (by omega),
      length_decimal_of_le (by omega), length_decimal_of_lt (by omega)]
  have hblank : (decimal t.year).leftpad 4 32 = decimal t.year := by
    rw [List.leftpad, hyear]
    rfl
  have hdays := daysInMonth_le t.year t.month
  have hdate := t.date
  have htime := t.time
  refine ⟨_, _, _, _, _, _, _, rfl, ?_, writes_padded (by omega), .inl (writes_padded (by omega)),
    ⟨List.cons_ne_nil _ _, List.forall_mem_singleton.mpr (by decide)⟩, writes_padded (by omega),
    writes_padded (by omega), writes_padded (by omega)⟩
  rw [hblank]
  exact ⟨hyear, isDigit_decimal _, spelled_decimal _⟩

/-- **The time of a line is read back.** -/
theorem strptime_stamp {t : DateTime} (h : 1000 ≤ t.year) : strptime t.stamp = some t :=
  (strptime_iff _ _).mpr (reads_stamp h)

end DateTime

end ImgPredictor
