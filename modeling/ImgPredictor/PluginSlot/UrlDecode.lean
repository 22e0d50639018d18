import Mathlib.Data.Int.Notation
import ImgPredictor.Lib.Bytes

/-!
# `url_decode`

The decoder walks an `int` index over the string: a `+` becomes a space, a `%` is handed with the
two bytes after it to `sscanf("%x")` and moves the index by three, anything else is copied.  What
`sscanf` returns is not looked at.  When it converts nothing, the byte written is the one left over
in `ii` from the last escape that did convert, or from the uninitialised variable if there was
none, which is why the initial value is an argument here.

`urlDecodeAny` is the function, with the conversion of the length to an `int` and a loop that ends
by it; `urlDecode` is what that comes to where the length fits, a loop that ends with the string.
-/

set_option autoImplicit false

namespace ImgPredictor

open Bytes

/-- The value of a hexadecimal digit. -/
def hexVal (b : UInt8) : Option ℕ :=
  if 48 ≤ b && b ≤ 57 then some (b.toNat - 48)
  else if 65 ≤ b && b ≤ 70 then some (b.toNat - 55)
  else if 97 ≤ b && b ≤ 102 then some (b.toNat - 87)
  else none

/-- The value of the leading run of hexadecimal digits. -/
def hexRun (acc : ℕ) : Bytes → ℕ
  | [] => acc
  | x :: s => match hexVal x with
    | some v => hexRun (acc * 16 + v) s
    | none => acc

/-- The sign `sscanf` takes off the front of a number. -/
def scanSign : Bytes → ℤ × Bytes
  | 45 :: s => (-1, s)
  | 43 :: s => (1, s)
  | s => (1, s)

/-- `sscanf(s, "%x", &ii)`: white space, a sign and a `0x` are skipped before the digits.  `none`
is a conversion that fails and leaves the variable alone. -/
def scanHex (s : Bytes) : Option ℤ :=
  let (sign, s) := scanSign (s.dropWhile isSpace)
  match s with
  | [] => none
  | [x] => (hexVal x).map fun v ↦ sign * v
  | x :: y :: t =>
    if x == 48 && (y == 120 || y == 88) then some (sign * hexRun 0 t)
    else (hexVal x).map fun _ ↦ sign * hexRun 0 s

/-- `static_cast<char>(ii)` -/
def toChar (ii : ℤ) : UInt8 := (ii % 256).toNat.toUInt8

/-- The loop of `url_decode` from one index on, with `ii` as the last escape left it. -/
def urlDecodeFrom (ii : ℤ) : Bytes → Bytes
  | [] => []
  | x :: rest =>
    if x != 37 then (if x == 43 then 32 else x) :: urlDecodeFrom ii rest
    else
      let ii' := (scanHex (cstr (rest.take 2) 0)).getD ii
      toChar ii' :: match rest with
        | _ :: _ :: tail => urlDecodeFrom ii' tail
        | _ => []

/-- `url_decode` of a string whose length fits an `int`, with `ii₀` the value the uninitialised `ii`
happens to have. -/
def urlDecode (ii₀ : ℤ) (str : Bytes) : Bytes := urlDecodeFrom ii₀ str

example : urlDecode 7 (lit "a+b%41%zz%4") = lit "a bAA" ++ [4] := by decide +kernel

/-! ## What the decoder undoes -/

/-- `enc` is a percent-encoding of `x`: a byte stands for itself or as two hexadecimal digits in
either case, and a space also as a `+`. -/
inductive PercentEncodes : Bytes → Bytes → Prop
  /-- Nothing is left. -/
  | nil : PercentEncodes [] []
  /-- A byte that is not special stands for itself. -/
  | raw {b : UInt8} {enc x : Bytes} : b ≠ 37 → b ≠ 43 → PercentEncodes enc x →
    PercentEncodes (b :: enc) (b :: x)
  /-- A `+` stands for a space. -/
  | plus {enc x : Bytes} : PercentEncodes enc x → PercentEncodes (43 :: enc) (32 :: x)
  /-- An escape stands for the byte its digits spell. -/
  | escape {b h l : UInt8} {hi lo : ℕ} {enc x : Bytes} : hexVal h = some hi → hexVal l = some lo →
    b.toNat = hi * 16 + lo → PercentEncodes enc x → PercentEncodes (37 :: h :: l :: enc) (b :: x)

theorem PercentEncodes.ne_nil {enc x : Bytes} (h : PercentEncodes enc x) (hx : x ≠ []) :
    enc ≠ [] := by
  cases h with
  | nil => exact absurd rfl hx
  | _ => exact List.cons_ne_nil _ _

/-- A hexadecimal digit is neither white space nor a sign, nor a NUL, nor an `x`. -/
theorem digit_of_hexVal {h : UInt8} {v : ℕ} (hv : hexVal h = some v) :
    isSpace h = false ∧ h ≠ 45 ∧ h ≠ 43 ∧ h ≠ 0 ∧ h ≠ 120 ∧ h ≠ 88 := by
  have hall : ∀ n < 256, (hexVal n.toUInt8).isSome = true → isSpace n.toUInt8 = false ∧
      n.toUInt8 ≠ 45 ∧ n.toUInt8 ≠ 43 ∧ n.toUInt8 ≠ 0 ∧ n.toUInt8 ≠ 120 ∧ n.toUInt8 ≠ 88 := by
    decide +kernel
  have hh : h.toNat.toUInt8 = h := by simp
  have := hall h.toNat h.toNat_lt
  rw [hh] at this
  exact this (by simp [hv])

/-- **Two digits are read as the number they spell.** -/
theorem scanHex_digits {h l : UInt8} {hi lo : ℕ} (hhi : hexVal h = some hi)
    (hlo : hexVal l = some lo) (rest : Bytes) :
    scanHex (cstr ((h :: l :: rest).take 2) 0) = some ((hi * 16 + lo : ℕ) : ℤ) := by
  obtain ⟨hspace, hminus, hplus, hnul, -, -⟩ := digit_of_hexVal hhi
  obtain ⟨-, -, -, lnul, lx, lX⟩ := digit_of_hexVal hlo
  have hcstr : cstr ((h :: l :: rest).take 2) 0 = [h, l] := by
    simp [cstr, hnul, lnul]
  have hsign : scanSign [h, l] = (1, [h, l]) := by
    rw [scanSign.eq_def]
    split
    · rename_i heq
      exact absurd (List.cons.inj heq).1 hminus
    · rename_i heq
      exact absurd (List.cons.inj heq).1 hplus
    · rfl
  have hrun : hexRun 0 [h, l] = hi * 16 + lo := by simp [hexRun, hhi, hlo]
  rw [hcstr, scanHex, List.dropWhile_cons, hspace]
  simp only [Bool.false_eq_true, if_false, hsign, hrun, hhi, Option.map_some]
  rw [if_neg (by simp [lx, lX])]
  simp

theorem toChar_natCast {b : UInt8} {n : ℕ} (h : b.toNat = n) : toChar n = b := by
  subst h
  have hlt : b.toNat < 256 := b.toNat_lt
  have hmod : ((b.toNat : ℤ) % 256).toNat = b.toNat := by omega
  rw [toChar, hmod]
  simp

/-- **The decoder undoes every percent-encoding**, whatever `ii` holds at the start. -/
theorem urlDecode_of_encodes {enc x : Bytes} (h : PercentEncodes enc x) (ii₀ : ℤ) :
    urlDecode ii₀ enc = x := by
  rw [urlDecode]
  induction h generalizing ii₀ with
  | nil => rfl
  | raw hpercent hplus _ ih =>
    rw [urlDecodeFrom, if_pos (by simpa using hpercent), if_neg (by simpa using hplus), ih]
  | plus _ ih =>
    rw [urlDecodeFrom, if_pos (by decide), if_pos (by decide), ih]
  | escape hhi hlo hb _ ih =>
    rw [urlDecodeFrom, if_neg (by decide), scanHex_digits hhi hlo]
    simp only [Option.getD_some, ih, toChar_natCast hb]

/-! ## Strings of any length -/

/-- The loop of `url_decode` with `n = len - i` positions to go. -/
def urlDecodeWithin (ii : ℤ) (n : ℤ) : Bytes → Bytes
  | [] => []
  | x :: rest =>
    if n ≤ 0 then []
    else if x != 37 then (if x == 43 then 32 else x) :: urlDecodeWithin ii (n - 1) rest
    else
      let ii' := (scanHex (cstr (rest.take 2) 0)).getD ii
      toChar ii' :: match rest with
        | _ :: _ :: tail => urlDecodeWithin ii' (n - 3) tail
        | _ => []

/-- `url_decode`, of a string of any length. -/
def urlDecodeAny (ii₀ : ℤ) (str : Bytes) : Bytes := urlDecodeWithin ii₀ (asInt str.length) str

/-- With as many positions to go as there are bytes, the string ends the loop. -/
theorem urlDecodeWithin_of_le {str : Bytes} {n : ℤ} (hn : str.length ≤ n) (ii : ℤ) :
    urlDecodeWithin ii n str = urlDecodeFrom ii str := by
  fun_induction urlDecodeFrom ii str generalizing n with
  | case1 => rfl
  | case2 ii x rest hx ih =>
    rw [List.length_cons] at hn
    rw [urlDecodeWithin, if_neg (by omega), if_pos hx, ih (by omega)]
  | case3 ii x rest hx ii' =>
    rename_i ih
    rw [List.length_cons] at hn
    rw [urlDecodeWithin, if_neg (by omega), if_neg hx]
    rcases rest with _ | ⟨h, _ | ⟨l, tail⟩⟩
    · rfl
    · rfl
    · simp only [List.length_cons] at hn
      exact congrArg (_ :: ·) (ih (by omega))

theorem urlDecodeAny_eq {str : Bytes} (h : str.length < 2 ^ 31) (ii₀ : ℤ) :
    urlDecodeAny ii₀ str = urlDecode ii₀ str := by
  rw [urlDecodeAny, asInt_of_lt h]
  exact urlDecodeWithin_of_le (Int.le_refl _) ii₀

theorem urlDecodeWithin_of_nonpos {n : ℤ} (hn : n ≤ 0) (ii : ℤ) (str : Bytes) :
    urlDecodeWithin ii n str = [] := by
  rcases str with _ | ⟨x, rest⟩
  · rfl
  · rw [urlDecodeWithin, if_pos hn]

/-- Nothing comes out only of what is empty as an `int` length. -/
theorem isEmpty_urlDecodeAny (ii₀ : ℤ) (str : Bytes) :
    (urlDecodeAny ii₀ str).isEmpty = decide (asInt str.length ≤ 0) := by
  rcases str with _ | ⟨x, rest⟩
  · rfl
  · rw [urlDecodeAny, urlDecodeWithin]
    split
    · rename_i hn
      exact (decide_eq_true hn).symm
    · rename_i hn
      rw [decide_eq_false hn]
      split <;> rfl

/-- A loop that ends too early has not written everything: it takes two positions more than it has
to go, at most. -/
theorem length_urlDecodeWithin_lt {enc x : Bytes} (h : PercentEncodes enc x) (hne : enc ≠ [])
    {n : ℤ} (hn : n + 2 < enc.length) (ii : ℤ) : (urlDecodeWithin ii n enc).length < x.length := by
  induction h generalizing n ii with
  | nil => exact absurd rfl hne
  | raw hpercent _ henc ih =>
    by_cases hpos : 0 < n
    · rw [List.length_cons] at hn
      rw [urlDecodeWithin, if_neg (by omega), if_pos (by simpa using hpercent)]
      exact Nat.succ_lt_succ (ih (by rintro rfl; simp at hn; omega) (by omega) ii)
    · rw [urlDecodeWithin_of_nonpos (by omega)]
      exact Nat.succ_pos _
  | plus henc ih =>
    by_cases hpos : 0 < n
    · rw [List.length_cons] at hn
      rw [urlDecodeWithin, if_neg (by omega), if_pos (by decide)]
      exact Nat.succ_lt_succ (ih (by rintro rfl; simp at hn; omega) (by omega) ii)
    · rw [urlDecodeWithin_of_nonpos (by omega)]
      exact Nat.succ_pos _
  | escape _ _ _ henc ih =>
    by_cases hpos : 0 < n
    · simp only [List.length_cons] at hn
      rw [urlDecodeWithin, if_neg (by omega), if_neg (by decide)]
      exact Nat.succ_lt_succ (ih (by rintro rfl; simp at hn; omega) (by omega) _)
    · rw [urlDecodeWithin_of_nonpos (by omega)]
      exact Nat.succ_pos _

/-- An encoding that is too long is not undone. -/
theorem urlDecodeAny_ne {enc x : Bytes} (h : PercentEncodes enc x) (hlong : 2 ^ 31 ≤ enc.length)
    (ii₀ : ℤ) : urlDecodeAny ii₀ enc ≠ x := by
  intro heq
  have hle := asInt_le hlong
  have hne : enc ≠ [] := by
    rintro rfl
    exact absurd hlong (by decide)
  have hlt := length_urlDecodeWithin_lt h hne (n := asInt enc.length) (by omega) ii₀
  rw [← urlDecodeAny, heq] at hlt
  exact absurd hlt (Nat.lt_irrefl _)

/-- An encoding that is not is undone. -/
theorem urlDecodeAny_of_encodes {enc x : Bytes} (h : PercentEncodes enc x)
    (hfits : enc.length < 2 ^ 31) (ii₀ : ℤ) : urlDecodeAny ii₀ enc = x := by
  rw [urlDecodeAny_eq hfits, urlDecode_of_encodes h]

/-- **An encoding is undone exactly when its length fits an `int`.** -/
theorem urlDecodeAny_eq_iff {enc x : Bytes} (h : PercentEncodes enc x) (ii₀ : ℤ) :
    urlDecodeAny ii₀ enc = x ↔ enc.length < 2 ^ 31 := by
  exact ⟨fun heq ↦ Nat.lt_of_not_le fun hlong ↦ urlDecodeAny_ne h hlong ii₀ heq,
    fun hfits ↦ urlDecodeAny_of_encodes h hfits ii₀⟩

theorem urlDecodeAny_sample : urlDecodeAny 0 (lit "a+%2b") = lit "a +" :=
  (urlDecodeAny_eq_iff (.raw (by decide) (by decide) <| .plus <|
    .escape (show hexVal 50 = some 2 from rfl) (show hexVal 98 = some 11 from rfl) rfl .nil)
    0).mpr (by decide)

/-- As many percent signs. -/
def percents (n : ℕ) : Bytes := List.replicate n 37

/-- Each of them as an escape. -/
def escapedPercents (n : ℕ) : Bytes := (List.replicate n (lit "%25")).flatten

theorem encodes_percents (n : ℕ) : PercentEncodes (escapedPercents n) (percents n) := by
  induction n with
  | zero => exact .nil
  | succ n ih =>
    exact .escape (show hexVal 50 = some 2 from rfl) (show hexVal 53 = some 5 from rfl) rfl ih

theorem length_escapedPercents (n : ℕ) : (escapedPercents n).length = n * 3 := by
  rw [escapedPercents, List.length_flatten, List.map_replicate, List.sum_replicate_nat]
  rfl

/-- **A short string in a long encoding**: nothing of it is decoded. -/
theorem urlDecodeAny_percents :
    ∃ x enc, x.length < 2 ^ 31 ∧ PercentEncodes enc x ∧ enc.length = 3 * 2 ^ 30 ∧
      urlDecodeAny 0 enc = [] ∧ urlDecodeAny 0 enc ≠ x := by
  have hlen := length_escapedPercents (2 ^ 30)
  refine ⟨percents (2 ^ 30), escapedPercents (2 ^ 30), ?_, encodes_percents _, by omega, ?_,
    urlDecodeAny_ne (encodes_percents _) (by omega) 0⟩
  · rw [percents, List.length_replicate]
    decide
  · exact urlDecodeWithin_of_nonpos (by rw [hlen]; decide) 0 _

/-! ## What shows of the uninitialised variable -/

/-- The first escape of the string, unless a NUL or its `n`-th byte comes before it, is one that
`sscanf` converts. -/
def SettlesWithin (n : ℤ) (str : Bytes) : Prop :=
  ∀ u rest, str = u ++ 37 :: rest → 37 ∉ u → 0 ∉ u → u.length < n →
    (scanHex (cstr (rest.take 2) 0)).isSome = true

/-- The first escape that is decoded, unless a NUL comes before it, is one that `sscanf`
converts. -/
def Settles (str : Bytes) : Prop := SettlesWithin (asInt str.length) str

theorem settlesWithin_of_nonpos {n : ℤ} (hn : n ≤ 0) (str : Bytes) : SettlesWithin n str := by
  intro u rest _ _ _ hlt
  omega

theorem settlesWithin_escape {n : ℤ} (hn : 0 < n) (rest : Bytes) :
    SettlesWithin n (37 :: rest) ↔ (scanHex (cstr (rest.take 2) 0)).isSome = true := by
  constructor
  · intro h
    exact h [] rest rfl (by simp) (by simp) (by simpa using hn)
  · intro h u rest' heq hpercent _ _
    rcases u with _ | ⟨x, u⟩
    · obtain rfl := (List.cons.inj heq).2
      exact h
    · exact absurd (List.cons.inj heq).1 (by simpa using fun hx : 37 = x ↦ hpercent (by simp [hx]))

theorem settlesWithin_cons {n : ℤ} {x : UInt8} (hx : x ≠ 37) (hx0 : x ≠ 0) (rest : Bytes) :
    SettlesWithin n (x :: rest) ↔ SettlesWithin (n - 1) rest := by
  constructor
  · intro h u rest' heq hpercent hnul hlt
    exact h (x :: u) rest' (by rw [heq]; rfl) (by simp [hpercent, Ne.symm hx])
      (by simp [hnul, Ne.symm hx0]) (by rw [List.length_cons]; omega)
  · intro h u rest' heq hpercent hnul hlt
    rcases u with _ | ⟨y, u⟩
    · exact absurd (List.cons.inj heq).1 hx
    · rw [List.length_cons] at hlt
      exact h u rest' (List.cons.inj heq).2 (fun hmem ↦ hpercent (by simp [hmem]))
        (fun hmem ↦ hnul (by simp [hmem])) (by omega)

theorem settlesWithin_nul (n : ℤ) (rest : Bytes) : SettlesWithin n (0 :: rest) := by
  intro u rest' heq _ hnul _
  rcases u with _ | ⟨y, u⟩
  · exact absurd (List.cons.inj heq).1 (by decide)
  · exact absurd (by simp [← (List.cons.inj heq).1]) hnul

/-- The C string of what a loop of `n` positions decodes. -/
theorem settlesWithin_iff (n : ℤ) (str : Bytes) :
    SettlesWithin n str ↔
      ∀ ii ii', cstr (urlDecodeWithin ii n str) 0 = cstr (urlDecodeWithin ii' n str) 0 := by
  induction str generalizing n with
  | nil => exact iff_of_true (fun u rest heq ↦ absurd heq (by simp)) fun _ _ ↦ rfl
  | cons x rest ih =>
    by_cases hn : n ≤ 0
    · refine iff_of_true (settlesWithin_of_nonpos hn _) fun ii ii' ↦ ?_
      rw [urlDecodeWithin_of_nonpos hn, urlDecodeWithin_of_nonpos hn]
    by_cases hx : x = 37
    · subst hx
      rw [settlesWithin_escape (by omega)]
      constructor
      · intro h ii ii'
        -- the escape sets the variable
        obtain ⟨v, hv⟩ := Option.isSome_iff_exists.mp h
        simp [urlDecodeWithin, hn, hv]
      · intro h
        by_contra hnone
        have hnone := Option.not_isSome_iff_eq_none.mp hnone
        have := h 65 66
        simp only [urlDecodeWithin, if_neg hn, hnone, Option.getD_none] at this
        have hhead := congrArg List.head? this
        simp [cstr, toChar] at hhead
    · have hcons : ∀ ii, urlDecodeWithin ii n (x :: rest)
          = (if x == 43 then 32 else x) :: urlDecodeWithin ii (n - 1) rest := fun ii ↦ by
        rw [urlDecodeWithin, if_neg hn, if_pos (by simpa using hx)]
      by_cases hx0 : x = 0
      · subst hx0
        refine iff_of_true (settlesWithin_nul n rest) fun ii ii' ↦ ?_
        rw [hcons, hcons]
        rfl
      · rw [settlesWithin_cons hx hx0, ih]
        have hne : ((if x == 43 then 32 else x : UInt8) != 0) = true := by
          split
          · rfl
          · simpa using hx0
        have hcstr : ∀ ii, cstr (urlDecodeWithin ii n (x :: rest)) 0
            = (if x == 43 then 32 else x) :: cstr (urlDecodeWithin ii (n - 1) rest) 0 := fun ii ↦ by
          rw [hcons, cstr, List.drop_zero, List.takeWhile_cons, if_pos hne]
          rfl
        simp only [hcstr, List.cons.injEq, true_and]

/-- **The C string of what is decoded does not depend on the uninitialised variable exactly when
the first escape converts.** -/
theorem settles_iff (str : Bytes) :
    Settles str ↔ ∀ ii ii', cstr (urlDecodeAny ii str) 0 = cstr (urlDecodeAny ii' str) 0 :=
  settlesWithin_iff _ str

end ImgPredictor
