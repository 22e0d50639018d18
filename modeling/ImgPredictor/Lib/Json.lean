import Mathlib.Algebra.GroupWithZero.Nat
import Mathlib.Data.Int.Notation
import Mathlib.Data.List.TakeWhile
import ImgPredictor.Lib.Bytes

/-!
# `json.loads`

A reader for JSON texts that accepts what Python's `json.loads` accepts of a byte string: `NaN` and
the two infinities besides JSON proper, no control characters in strings, and bytes that have to be
UTF-8 inside strings, surrogates included.

A number with a fraction or an exponent becomes a float.  Floats are kept as the decimals they were
written as; the few things a program can ask of one (is it zero, is it too large, is it below one)
are answered for the nearest double, which is what `float` makes of the text.

The reader is a recursive descent with a bound on the depth of its calls; `value_fuel` says that the
bound `loads` gives it is never what stops it.  What it takes off a text is not empty and does not
end in a comma, which is `takesWhole_value`.

The recursion limit of CPython is not modelled: a text that is nested some thousand levels deep is
read here, and raises a `RuntimeError` there.
-/

set_option autoImplicit false

namespace Json

open Bytes

/-- A text, by its code points. -/
abbrev Str := List ℕ

/-- The code points of a literal. -/
def str (s : String) : Str := s.toList.map Char.toNat

/-! ## Values -/

/-- A float, as it was written. -/
inductive Float where
  /-- Not a number. -/
  | nan
  /-- An infinity. -/
  | inf
  /-- `± mantissa * 10 ^ exponent` -/
  | decimal (negative : Bool) (mantissa : ℕ) (exponent : ℤ)
  deriving DecidableEq, Repr

/-- `num / den ≤ mantissa * 10 ^ exponent` -/
def leDecimal (num den mantissa : ℕ) (exponent : ℤ) : Bool :=
  if 0 ≤ exponent then num ≤ mantissa * 10 ^ exponent.toNat * den
  else num * 10 ^ (-exponent).toNat ≤ mantissa * den

/-- Is the float zero?  Up to `2 ^ -1075` a decimal is rounded to zero. -/
def Float.isZero : Float → Bool
  | decimal _ m e => !leDecimal 1 (2 ^ 1075) m e || (m * 2 ^ 1075 == 10 ^ (-e).toNat && e ≤ 0)
  | _ => false

/-- Is the float infinite?  From `2 ^ 1024 - 2 ^ 970` on a decimal is rounded to infinity. -/
def Float.isInf : Float → Bool
  | nan => false
  | inf => true
  | decimal _ m e => leDecimal (2 ^ 1024 - 2 ^ 970) 1 m e

/-- Is the float at least one, up to its sign?  From `1 - 2 ^ -54` on a decimal is rounded to one or
more. -/
def Float.isOne : Float → Bool
  | decimal _ m e => leDecimal (2 ^ 54 - 1) (2 ^ 54) m e
  | _ => false

/-- What a text can hold. -/
inductive Value where
  /-- `null` -/
  | null
  /-- `true` and `false` -/
  | bool (b : Bool)
  /-- A number without fraction and exponent. -/
  | int (n : ℤ)
  /-- Any other number. -/
  | float (x : Float)
  /-- A string. -/
  | str (s : Str)
  /-- An array. -/
  | arr (xs : List Value)
  /-- An object, its members as they were written. -/
  | obj (members : List (Str × Value))
  deriving Repr

/-- The value of a key of an object; a key that comes twice has its last value. -/
def lookup (members : List (Str × Value)) (key : Str) : Option Value :=
  members.reverse.lookup key

/-! ## Strings -/

/-- Skip `[ \t\n\r]*`. -/
def skipWs (s : Bytes) : Bytes := s.dropWhile fun b ↦ b == 32 || b == 9 || b == 10 || b == 13

/-- A hexadecimal digit. -/
def hexDigit (b : UInt8) : Option ℕ :=
  if 48 ≤ b && b ≤ 57 then some (b.toNat - 48)
  else if 65 ≤ b && b ≤ 70 then some (b.toNat - 55)
  else if 97 ≤ b && b ≤ 102 then some (b.toNat - 87)
  else none

/-- Four hexadecimal digits. -/
def hex4 : Bytes → Option (ℕ × Bytes)
  | a :: b :: c :: d :: s => do
    let a ← hexDigit a
    let b ← hexDigit b
    let c ← hexDigit c
    let d ← hexDigit d
    return (((a * 16 + b) * 16 + c) * 16 + d, s)
  | _ => none

/-- The rest of a `\u` escape: a high surrogate takes a low one that follows it along. -/
def unicodeEscape (s : Bytes) : Option (ℕ × Bytes) := do
  let (u, s) ← hex4 s
  match s with
  | 92 :: 117 :: s' =>
    let (l, s') ← hex4 s'
    if 0xd800 ≤ u && u < 0xdc00 && 0xdc00 ≤ l && l < 0xe000 then
      return (0x10000 + (u - 0xd800) * 0x400 + (l - 0xdc00), s')
    else return (u, s)
  | _ => return (u, s)

/-- The rest of an escape. -/
def escape : Bytes → Option (ℕ × Bytes)
  | [] => none
  | b :: s =>
    if b == 34 || b == 92 || b == 47 then some (b.toNat, s)
    else if b == 98 then some (8, s)
    else if b == 102 then some (12, s)
    else if b == 110 then some (10, s)
    else if b == 114 then some (13, s)
    else if b == 116 then some (9, s)
    else if b == 117 then unicodeEscape s
    else none

/-- The bytes that follow the first of a UTF-8 sequence, `u` being the bits so far. -/
def continuation : ℕ → ℕ → Bytes → Option (ℕ × Bytes)
  | 0, u, s => some (u, s)
  | _ + 1, _, [] => none
  | n + 1, u, b :: s =>
    if 0x80 ≤ b && b < 0xc0 then continuation n (u * 0x40 + (b.toNat - 0x80)) s else none

/-- One character of UTF-8. -/
def utf8Char : Bytes → Option (ℕ × Bytes)
  | [] => none
  | a :: s =>
    if a < 0x80 then some (a.toNat, s)
    else if 0xc2 ≤ a && a < 0xe0 then continuation 1 (a.toNat - 0xc0) s
    else if 0xe0 ≤ a && a < 0xf0 then
      (continuation 2 (a.toNat - 0xe0) s).filter fun r ↦ 0x800 ≤ r.1
    else if 0xf0 ≤ a && a < 0xf5 then
      (continuation 3 (a.toNat - 0xf0) s).filter fun r ↦ 0x10000 ≤ r.1 && r.1 < 0x110000
    else none

/-- One character of a string, which is neither its end nor a control character. -/
def stringChar : Bytes → Option (ℕ × Bytes)
  | 92 :: s => escape s
  | b :: s => if b < 32 then none else utf8Char (b :: s)
  | [] => none

/-- The rest of a string, up to its closing quote. -/
def stringRest : ℕ → Bytes → Option (Str × Bytes)
  | 0, _ => none
  | fuel + 1, s =>
    if s.head? = some 34 then some ([], s.tail)
    else do
      let (c, s) ← stringChar s
      let (cs, s) ← stringRest fuel s
      return (c :: cs, s)

/-- A string, after its opening quote. -/
def scanString (s : Bytes) : Option (Str × Bytes) := stringRest (s.length + 1) s

/-! ### What is taken off a text -/

/-- What is taken off a text to leave the other is not empty, and does not end in a comma. -/
def Leaves (s r : Bytes) : Prop := ∃ u b, s = u ++ b :: r ∧ b ≠ 44

namespace Leaves

variable {s t r : Bytes}

theorem suffix (h : Leaves s r) : r <:+ s := by
  obtain ⟨u, b, rfl, -⟩ := h
  exact ⟨u ++ [b], by simp⟩

theorem length_lt (h : Leaves s r) : r.length < s.length := by
  obtain ⟨u, b, rfl, -⟩ := h
  rw [List.length_append, List.length_cons]
  omega

theorem of_suffix (hs : t <:+ s) (h : Leaves t r) : Leaves s r := by
  obtain ⟨w, rfl⟩ := hs
  obtain ⟨u, b, rfl, hb⟩ := h
  exact ⟨w ++ u, b, by simp, hb⟩

/-- A character that is not a comma. -/
theorem of_tail {c : UInt8} (hs : t <:+ s) (hc : t.head? = some c) (hcomma : c ≠ 44) :
    Leaves s t.tail :=
  of_suffix hs ⟨[], c, (List.cons_head?_tail hc).symm, hcomma⟩

/-- A run of characters among which there is no comma. -/
theorem of_dropWhile {p : UInt8 → Bool} (hp : p 44 = false) (s : Bytes) :
    s.dropWhile p = s ∨ Leaves s (s.dropWhile p) := by
  have hcut := List.takeWhile_append_dropWhile (p := p) (l := s)
  rcases List.eq_nil_or_concat (s.takeWhile p) with hnil | ⟨u, b, hlast⟩
  · rw [hnil, List.nil_append] at hcut
    exact .inl hcut
  · rw [hlast] at hcut
    refine .inr ⟨u, b, by simpa using hcut.symm, ?_⟩
    rintro rfl
    have hmem : (44 : UInt8) ∈ s.takeWhile p := by rw [hlast]; simp
    exact absurd (List.mem_takeWhile_imp hmem) (by simp [hp])

/-- Something more is taken, or nothing. -/
theorem and_then (h : Leaves s t) (hr : r = t ∨ Leaves t r) : Leaves s r := by
  rcases hr with rfl | hr
  · exact h
  · exact hr.of_suffix h.suffix

end Leaves

/-- What the reader leaves of a text is an end of it. -/
def Takes {β : Type} (read : Bytes → Option (β × Bytes)) : Prop :=
  ∀ ⦃s r : Bytes⦄ ⦃v : β⦄, read s = some (v, r) → r <:+ s

/-- And what it takes does not end in a comma. -/
def TakesWhole {β : Type} (read : Bytes → Option (β × Bytes)) : Prop :=
  ∀ ⦃s r : Bytes⦄ ⦃v : β⦄, read s = some (v, r) → Leaves s r

theorem takes_hex4 : Takes hex4 := by
  intro s r u h
  unfold hex4 at h
  split at h
  · rename_i a b c d t
    simp only [Option.bind_eq_bind, Option.bind_eq_some_iff] at h
    obtain ⟨_, _, _, _, _, _, _, _, h⟩ := h
    obtain ⟨-, rfl⟩ := Prod.mk.inj (Option.some.inj h)
    exact ⟨[a, b, c, d], rfl⟩
  · exact absurd h (by simp)

theorem takes_unicodeEscape : Takes unicodeEscape := by
  intro s r u h
  obtain ⟨⟨v, t⟩, hv, h⟩ := Option.bind_eq_some_iff.mp h
  have hfirst := takes_hex4 hv
  simp only at h
  split at h
  · rename_i t' _
    obtain ⟨⟨l, t''⟩, hl, h⟩ := Option.bind_eq_some_iff.mp h
    simp only at h
    split at h <;> obtain ⟨-, rfl⟩ := Prod.mk.inj (Option.some.inj h)
    · exact ((takes_hex4 hl).trans ⟨[92, 117], rfl⟩).trans hfirst
    · exact hfirst
  · obtain ⟨-, rfl⟩ := Prod.mk.inj (Option.some.inj h)
    exact hfirst

theorem takes_escape : Takes escape := by
  intro s r u h
  cases s with
  | nil => exact absurd h (by simp [escape])
  | cons b s =>
    rw [escape] at h
    have hone : ∀ n : ℕ, some (n, s) = some (u, r) → r <:+ b :: s := by
      intro n hn
      obtain ⟨-, rfl⟩ := Prod.mk.inj (Option.some.inj hn)
      exact List.suffix_cons b s
    repeat' split at h
    all_goals first
      | exact hone _ h
      | exact (takes_unicodeEscape h).trans (List.suffix_cons b s)
      | exact absurd h (by simp)

theorem takes_continuation (n u : ℕ) : Takes (continuation n u) := by
  induction n generalizing u with
  | zero =>
    intro s r v h
    obtain ⟨-, rfl⟩ := Prod.mk.inj (Option.some.inj h)
    exact List.suffix_refl _
  | succ n ih =>
    intro s r v h
    cases s with
    | nil => exact absurd h (by simp [continuation])
    | cons b s =>
      rw [continuation] at h
      split at h
      · exact (ih _ h).trans (List.suffix_cons b s)
      · exact absurd h (by simp)

/-- A character of UTF-8 takes its first byte at least. -/
theorem utf8Char_suffix {a : UInt8} {s r : Bytes} {u : ℕ} (h : utf8Char (a :: s) = some (u, r)) :
    r <:+ s := by
  rw [utf8Char] at h
  split at h
  · obtain ⟨-, rfl⟩ := Prod.mk.inj (Option.some.inj h)
    exact List.suffix_refl _
  · split at h
    · exact takes_continuation _ _ h
    · split at h
      · exact takes_continuation _ _ (Option.filter_eq_some_iff.mp h).1
      · split at h
        · exact takes_continuation _ _ (Option.filter_eq_some_iff.mp h).1
        · exact absurd h (by simp)

theorem stringChar_suffix {s r : Bytes} {u : ℕ} (h : stringChar s = some (u, r)) :
    s ≠ [] ∧ r <:+ s.tail := by
  unfold stringChar at h
  split at h
  · exact ⟨by simp, takes_escape h⟩
  · split at h
    · exact absurd h (by simp)
    · exact ⟨by simp, utf8Char_suffix h⟩
  · exact absurd h (by simp)

/-- A string ends in its quote. -/
theorem takesWhole_stringRest (fuel : ℕ) : TakesWhole (stringRest fuel) := by
  induction fuel with
  | zero =>
    intro s r cs h
    exact absurd h (by simp [stringRest])
  | succ fuel ih =>
    intro s r cs h
    rw [stringRest] at h
    split at h
    · rename_i hquote
      obtain ⟨-, rfl⟩ := Prod.mk.inj (Option.some.inj h)
      exact .of_tail (List.suffix_refl s) hquote (by decide)
    · obtain ⟨⟨c, t⟩, hc, h⟩ := Option.bind_eq_some_iff.mp h
      obtain ⟨⟨cs', t'⟩, hcs, h⟩ := Option.bind_eq_some_iff.mp h
      obtain ⟨-, rfl⟩ := Prod.mk.inj (Option.some.inj h)
      exact (ih hcs).of_suffix ((stringChar_suffix hc).2.trans (List.tail_suffix s))

/-- **The bound of `stringRest` never stops it.** -/
theorem stringRest_fuel {fuel : ℕ} {s : Bytes} (h : s.length < fuel) :
    stringRest (fuel + 1) s = stringRest fuel s := by
  induction fuel generalizing s with
  | zero => exact absurd h (Nat.not_lt_zero _)
  | succ fuel ih =>
    rw [stringRest, stringRest]
    split
    · rfl
    · cases hc : stringChar s with
      | none => rfl
      | some r =>
        obtain ⟨c, t⟩ := r
        obtain ⟨hne, hsuffix⟩ := stringChar_suffix hc
        have hpos := List.length_pos_iff.mpr hne
        have hle := hsuffix.length_le
        rw [List.length_tail] at hle
        simp only [Option.bind_eq_bind, Option.bind_some, ih (s := t) (by omega)]

theorem skipWs_suffix (s : Bytes) : skipWs s <:+ s := List.dropWhile_suffix _

theorem skipWs_length (s : Bytes) : (skipWs s).length ≤ s.length := (skipWs_suffix s).length_le

/-! ## Numbers -/

/-- The value of decimal digits. -/
def digitsVal (digits : Bytes) : ℕ := digits.foldl (fun n b ↦ 10 * n + (b.toNat - 48)) 0

/-- `\.\d+`, the digits alone; nothing is taken when there are none. -/
def fraction (s : Bytes) : Bytes × Bytes :=
  match s with
  | 46 :: s' =>
    if (s'.takeWhile isDigit).isEmpty then ([], s)
    else (s'.takeWhile isDigit, s'.dropWhile isDigit)
  | _ => ([], s)

/-- A text without its sign. -/
def unsigned (s : Bytes) : Bytes :=
  if s.head? == some 45 || s.head? == some 43 then s.tail else s

/-- `[eE][-+]?\d+` -/
def exponent (s : Bytes) : Option ℤ × Bytes :=
  if s.head? == some 101 || s.head? == some 69 then
    let t := unsigned s.tail
    let n : ℤ := digitsVal (t.takeWhile isDigit)
    if (t.takeWhile isDigit).isEmpty then (none, s)
    else (some (if s.tail.head? == some 45 then -n else n), t.dropWhile isDigit)
  else (none, s)

/-- `0|[1-9]\d*`, or nothing. -/
def whole (s : Bytes) : Bytes := if s.head? == some 48 then [48] else s.takeWhile isDigit

/-- `(?:0|[1-9]\d*)(\.\d+)?([eE][-+]?\d+)?`, and the number with its sign. -/
def numberFrom (negative : Bool) (s : Bytes) : Option (Value × Bytes) :=
  if (whole s).isEmpty then none
  else
    let frac := fraction (s.drop (whole s).length)
    let exp := exponent frac.2
    if frac.1.isEmpty && exp.1.isNone then
      some (.int (if negative then -(digitsVal (whole s) : ℤ) else digitsVal (whole s)), exp.2)
    else
      some (.float (.decimal negative (digitsVal (whole s ++ frac.1))
        (exp.1.getD 0 - (frac.1.length : ℤ))), exp.2)

/-- `(-?(?:0|[1-9]\d*))(\.\d+)?([eE][-+]?\d+)?` -/
def number (s : Bytes) : Option (Value × Bytes) :=
  if s.head? = some 45 then numberFrom true s.tail else numberFrom false s

/-- A text that stands for a value. -/
def constant (s : Bytes) : Option (Value × Bytes) :=
  if (lit "null").isPrefixOf s then some (.null, s.drop 4)
  else if (lit "true").isPrefixOf s then some (.bool true, s.drop 4)
  else if (lit "false").isPrefixOf s then some (.bool false, s.drop 5)
  else if (lit "NaN").isPrefixOf s then some (.float .nan, s.drop 3)
  else if (lit "Infinity").isPrefixOf s then some (.float .inf, s.drop 8)
  else if (lit "-Infinity").isPrefixOf s then some (.float .inf, s.drop 9)
  else none

/-! ## Values -/

mutual

/-- A value. -/
def value : ℕ → Bytes → Option (Value × Bytes)
  | 0, _ => none
  | fuel + 1, s => match s with
    | 34 :: s => (scanString s).map fun r ↦ (.str r.1, r.2)
    | 123 :: s =>
      if (skipWs s).head? = some 125 then some (.obj [], (skipWs s).tail)
      else (members fuel (skipWs s)).map fun r ↦ (.obj r.1, r.2)
    | 91 :: s =>
      if (skipWs s).head? = some 93 then some (.arr [], (skipWs s).tail)
      else (elements fuel (skipWs s)).map fun r ↦ (.arr r.1, r.2)
    | s => (constant s).or (number s)

/-- The elements of an array, up to its closing bracket. -/
def elements : ℕ → Bytes → Option (List Value × Bytes)
  | 0, _ => none
  | fuel + 1, s => match value fuel s with
    | none => none
    | some (v, s) =>
      if (skipWs s).head? = some 93 then some ([v], (skipWs s).tail)
      else if (skipWs s).head? = some 44 then
        (elements fuel (skipWs (skipWs s).tail)).map fun r ↦ (v :: r.1, r.2)
      else none

/-- The members of an object, up to its closing brace. -/
def members : ℕ → Bytes → Option (List (Str × Value) × Bytes)
  | 0, _ => none
  | fuel + 1, s =>
    if s.head? = some 34 then match scanString s.tail with
      | none => none
      | some (k, s) =>
        if (skipWs s).head? = some 58 then match value fuel (skipWs (skipWs s).tail) with
          | none => none
          | some (v, s) =>
            if (skipWs s).head? = some 125 then some ([(k, v)], (skipWs s).tail)
            else if (skipWs s).head? = some 44 then
              (members fuel (skipWs (skipWs s).tail)).map fun r ↦ ((k, v) :: r.1, r.2)
            else none
        else none
    else none

end

/-! ### One step of the reader -/

/-- A value that is not a string, an array or an object is its constant or number. -/
theorem value_of_scalar {fuel : ℕ} {s : Bytes} (hstr : s.head? ≠ some 34)
    (hobj : s.head? ≠ some 123) (harr : s.head? ≠ some 91) :
    value (fuel + 1) s = (constant s).or (number s) := by
  rw [value.eq_def]
  simp only
  split
  · exact absurd rfl hstr
  · exact absurd rfl hobj
  · exact absurd rfl harr
  · rfl

theorem value_quote (fuel : ℕ) (s : Bytes) :
    value (fuel + 1) (34 :: s) = (scanString s).map fun r ↦ (.str r.1, r.2) := by
  rw [value]

theorem value_brace (fuel : ℕ) (s : Bytes) :
    value (fuel + 1) (123 :: s) =
      if (skipWs s).head? = some 125 then some (.obj [], (skipWs s).tail)
      else (members fuel (skipWs s)).map fun r ↦ (.obj r.1, r.2) := by
  rw [value]

theorem value_bracket (fuel : ℕ) (s : Bytes) :
    value (fuel + 1) (91 :: s) =
      if (skipWs s).head? = some 93 then some (.arr [], (skipWs s).tail)
      else (elements fuel (skipWs s)).map fun r ↦ (.arr r.1, r.2) := by
  rw [value]

/-- How a value is read: by its first character. -/
inductive ReadsValue (fuel : ℕ) : Bytes → Value → Bytes → Prop
  | str {s r : Bytes} {cs : Str} : scanString s = some (cs, r) →
    ReadsValue fuel (34 :: s) (.str cs) r
  | emptyObj {s : Bytes} : (skipWs s).head? = some 125 →
    ReadsValue fuel (123 :: s) (.obj []) (skipWs s).tail
  | obj {s r : Bytes} {ms : List (Str × Value)} : (skipWs s).head? ≠ some 125 →
    members fuel (skipWs s) = some (ms, r) → ReadsValue fuel (123 :: s) (.obj ms) r
  | emptyArr {s : Bytes} : (skipWs s).head? = some 93 →
    ReadsValue fuel (91 :: s) (.arr []) (skipWs s).tail
  | arr {s r : Bytes} {vs : List Value} : (skipWs s).head? ≠ some 93 →
    elements fuel (skipWs s) = some (vs, r) → ReadsValue fuel (91 :: s) (.arr vs) r
  | scalar {s r : Bytes} {v : Value} : s.head? ≠ some 34 → s.head? ≠ some 123 →
    s.head? ≠ some 91 → (constant s).or (number s) = some (v, r) → ReadsValue fuel s v r

/-- How the elements of an array are read: one, and then the bracket or a comma. -/
inductive ReadsElements (fuel : ℕ) : Bytes → List Value → Bytes → Prop
  | last {s t : Bytes} {v : Value} : value fuel s = some (v, t) → (skipWs t).head? = some 93 →
    ReadsElements fuel s [v] (skipWs t).tail
  | cons {s t r : Bytes} {v : Value} {vs : List Value} : value fuel s = some (v, t) →
    (skipWs t).head? = some 44 → elements fuel (skipWs (skipWs t).tail) = some (vs, r) →
    ReadsElements fuel s (v :: vs) r

/-- How one member of an object is read. -/
structure ReadsMember (fuel : ℕ) (s : Bytes) (k : Str) (t : Bytes) (v : Value) (u : Bytes) :
    Prop where
  /-- A quote. -/
  quote : s.head? = some 34
  /-- The key. -/
  key : scanString s.tail = some (k, t)
  /-- A colon. -/
  colon : (skipWs t).head? = some 58
  /-- The value. -/
  item : value fuel (skipWs (skipWs t).tail) = some (v, u)

/-- How the members of an object are read: one, and then the brace or a comma. -/
inductive ReadsMembers (fuel : ℕ) : Bytes → List (Str × Value) → Bytes → Prop
  | last {s t u : Bytes} {k : Str} {v : Value} : ReadsMember fuel s k t v u →
    (skipWs u).head? = some 125 → ReadsMembers fuel s [(k, v)] (skipWs u).tail
  | cons {s t u r : Bytes} {k : Str} {v : Value} {ms : List (Str × Value)} :
    ReadsMember fuel s k t v u → (skipWs u).head? = some 44 →
    members fuel (skipWs (skipWs u).tail) = some (ms, r) →
    ReadsMembers fuel s ((k, v) :: ms) r

section Step

variable {fuel : ℕ} {s r : Bytes}

/-- **One step of reading a value.** -/
theorem value_iff {v : Value} : value (fuel + 1) s = some (v, r) ↔ ReadsValue fuel s v r := by
  constructor
  · intro h
    rw [value.eq_def] at h
    simp only at h
    split at h
    · obtain ⟨⟨cs, t⟩, hs, heq⟩ := Option.map_eq_some_iff.mp h
      obtain ⟨rfl, rfl⟩ := Prod.mk.inj heq
      exact .str hs
    · split at h
      · rename_i hclose
        obtain ⟨rfl, rfl⟩ := Prod.mk.inj (Option.some.inj h)
        exact .emptyObj hclose
      · rename_i hopen
        obtain ⟨⟨ms, t⟩, hs, heq⟩ := Option.map_eq_some_iff.mp h
        obtain ⟨rfl, rfl⟩ := Prod.mk.inj heq
        exact .obj hopen hs
    · split at h
      · rename_i hclose
        obtain ⟨rfl, rfl⟩ := Prod.mk.inj (Option.some.inj h)
        exact .emptyArr hclose
      · rename_i hopen
        obtain ⟨⟨vs, t⟩, hs, heq⟩ := Option.map_eq_some_iff.mp h
        obtain ⟨rfl, rfl⟩ := Prod.mk.inj heq
        exact .arr hopen hs
    · rename_i hstr hobj harr
      have hne : ∀ b : UInt8, (∀ t, s ≠ b :: t) → s.head? ≠ some b := fun b hb hhead ↦
        hb s.tail (List.cons_head?_tail hhead).symm
      exact .scalar (hne 34 hstr) (hne 123 hobj) (hne 91 harr) h
  · intro h
    cases h with
    | str hs => rw [value_quote, hs, Option.map_some]
    | emptyObj hclose => rw [value_brace, if_pos hclose]
    | obj hopen hs => rw [value_brace, if_neg hopen, hs, Option.map_some]
    | emptyArr hclose => rw [value_bracket, if_pos hclose]
    | arr hopen hs => rw [value_bracket, if_neg hopen, hs, Option.map_some]
    | scalar hstr hobj harr hs => rw [value_of_scalar hstr hobj harr, hs]

theorem elements_iff {vs : List Value} :
    elements (fuel + 1) s = some (vs, r) ↔ ReadsElements fuel s vs r := by
  constructor
  · intro h
    rw [elements] at h
    split at h
    · exact absurd h (by simp)
    · rename_i hv
      split at h
      · rename_i hclose
        obtain ⟨rfl, rfl⟩ := Prod.mk.inj (Option.some.inj h)
        exact .last hv hclose
      · split at h
        · rename_i hcomma
          obtain ⟨⟨vs', t'⟩, hs, heq⟩ := Option.map_eq_some_iff.mp h
          obtain ⟨rfl, rfl⟩ := Prod.mk.inj heq
          exact .cons hv hcomma hs
        · exact absurd h (by simp)
  · intro h
    rw [elements]
    cases h with
    | last hv hclose => simp only [hv, if_pos hclose]
    | cons hv hcomma hs => simp [hv, hcomma, hs]

theorem members_iff {ms : List (Str × Value)} :
    members (fuel + 1) s = some (ms, r) ↔ ReadsMembers fuel s ms r := by
  constructor
  · intro h
    rw [members] at h
    split at h
    · rename_i hquote
      split at h
      · exact absurd h (by simp)
      · rename_i hk
        split at h
        · rename_i hcolon
          split at h
          · exact absurd h (by simp)
          · rename_i hv
            split at h
            · rename_i hclose
              obtain ⟨rfl, rfl⟩ := Prod.mk.inj (Option.some.inj h)
              exact .last ⟨hquote, hk, hcolon, hv⟩ hclose
            · split at h
              · rename_i hcomma
                obtain ⟨⟨ms', t'⟩, hs, heq⟩ := Option.map_eq_some_iff.mp h
                obtain ⟨rfl, rfl⟩ := Prod.mk.inj heq
                exact .cons ⟨hquote, hk, hcolon, hv⟩ hcomma hs
              · exact absurd h (by simp)
        · exact absurd h (by simp)
    · exact absurd h (by simp)
  · intro h
    rw [members]
    cases h with
    | last hm hclose => simp [hm.quote, hm.key, hm.colon, hm.item, hclose]
    | cons hm hcomma hs => simp [hm.quote, hm.key, hm.colon, hm.item, hcomma, hs]

end Step

/-! ### Numbers and constants -/

theorem leaves_digits (s : Bytes) :
    s.dropWhile isDigit = s ∨ Leaves s (s.dropWhile isDigit) :=
  Leaves.of_dropWhile (p := isDigit) rfl s

theorem leaves_fraction (s : Bytes) : (fraction s).2 = s ∨ Leaves s (fraction s).2 := by
  unfold fraction
  split
  · split
    · exact .inl rfl
    · rename_i t _
      exact .inr (Leaves.and_then ⟨[], 46, rfl, by decide⟩ (leaves_digits t))
  · exact .inl rfl

theorem unsigned_suffix (s : Bytes) : unsigned s <:+ s := by
  rw [unsigned]
  split
  · exact List.tail_suffix s
  · exact List.suffix_refl s

/-- Where there are digits, dropping them leaves less. -/
theorem leaves_of_takeWhile {s : Bytes} (h : ¬(s.takeWhile isDigit).isEmpty = true) :
    Leaves s (s.dropWhile isDigit) := by
  refine (leaves_digits s).resolve_left fun hsame ↦ h ?_
  have hcut := List.takeWhile_append_dropWhile (p := isDigit) (l := s)
  rw [hsame, List.append_left_eq_self] at hcut
  rw [hcut]
  rfl

theorem leaves_exponent (s : Bytes) : (exponent s).2 = s ∨ Leaves s (exponent s).2 := by
  rw [exponent]
  split
  · dsimp only
    split
    · exact .inl rfl
    · rename_i hsome
      have hsuffix := (unsigned_suffix s.tail).trans (List.tail_suffix s)
      exact .inr ((leaves_of_takeWhile hsome).of_suffix hsuffix)
  · exact .inl rfl

theorem leaves_whole {s : Bytes} (h : ¬(whole s).isEmpty = true) :
    Leaves s (s.drop (whole s).length) := by
  rw [whole] at h ⊢
  split
  · rename_i hzero
    rw [List.length_singleton, List.drop_one]
    exact .of_tail (List.suffix_refl s) (by simpa using hzero) (by decide)
  · rename_i hzero
    rw [if_neg hzero] at h
    have hrest : (s.takeWhile isDigit ++ s.dropWhile isDigit).drop
        (s.takeWhile isDigit).length = s.dropWhile isDigit := List.drop_left
    rw [List.takeWhile_append_dropWhile] at hrest
    rw [hrest]
    exact leaves_of_takeWhile h

theorem takesWhole_numberFrom (negative : Bool) : TakesWhole (numberFrom negative) := by
  intro s r v h
  rw [numberFrom] at h
  split at h
  · exact absurd h (by simp)
  · rename_i hwhole
    have hall := ((leaves_whole hwhole).and_then (leaves_fraction _)).and_then (leaves_exponent _)
    dsimp only at h
    split at h <;> obtain ⟨-, rfl⟩ := Prod.mk.inj (Option.some.inj h) <;> exact hall

theorem takesWhole_number : TakesWhole number := by
  intro s r v h
  rw [number] at h
  split at h
  · exact (takesWhole_numberFrom _ h).of_suffix (List.tail_suffix s)
  · exact takesWhole_numberFrom _ h

theorem takesWhole_constant : TakesWhole constant := by
  intro s r v h
  have hfound : ∀ {c : Bytes} {n : ℕ} {x : Value}, c.isPrefixOf s = true →
      some (x, s.drop n) = some (v, r) → 44 ∉ c → c.length = n → c ≠ [] → Leaves s r := by
    rintro c _ x hp heq hcomma rfl hne
    obtain ⟨t, rfl⟩ := List.isPrefixOf_iff_prefix.mp hp
    obtain ⟨-, rfl⟩ := Prod.mk.inj (Option.some.inj heq)
    rw [List.drop_left]
    obtain ⟨u, b, rfl⟩ := (List.eq_nil_or_concat c).resolve_left hne
    exact ⟨u, b, by simp, fun hb ↦ hcomma (by simp [hb])⟩
  rw [constant] at h
  repeat' split at h
  all_goals first
    | exact hfound ‹_› h (by decide) rfl (by decide)
    | exact absurd h (by simp)

/-! ### Values -/

/-- Behind a character that follows white space, and the white space after it. -/
theorem skipWs_tail_suffix (s : Bytes) : skipWs (skipWs s).tail <:+ s :=
  (skipWs_suffix _).trans ((List.tail_suffix _).trans (skipWs_suffix s))

section Step

variable {fuel : ℕ}

theorem takesWhole_value_succ (hm : TakesWhole (members fuel)) (he : TakesWhole (elements fuel)) :
    TakesWhole (value (fuel + 1)) := by
  intro s r v h
  have hopen : ∀ (b : UInt8) (t : Bytes), skipWs t <:+ b :: t := fun b t ↦
    (skipWs_suffix t).trans (List.suffix_cons b t)
  cases value_iff.mp h with
  | str hs => exact (takesWhole_stringRest _ hs).of_suffix (List.suffix_cons 34 _)
  | emptyObj hclose => exact .of_tail (hopen 123 _) hclose (by decide)
  | obj _ hs => exact (hm hs).of_suffix (hopen 123 _)
  | emptyArr hclose => exact .of_tail (hopen 91 _) hclose (by decide)
  | arr _ hs => exact (he hs).of_suffix (hopen 91 _)
  | scalar _ _ _ hs =>
    rcases Option.or_eq_some_iff.mp hs with hc | ⟨-, hn⟩
    · exact takesWhole_constant hc
    · exact takesWhole_number hn

theorem takesWhole_elements_succ (hv : TakesWhole (value fuel)) (he : TakesWhole (elements fuel)) :
    TakesWhole (elements (fuel + 1)) := by
  intro s r vs h
  cases elements_iff.mp h with
  | last hvt hclose =>
    exact .of_tail ((skipWs_suffix _).trans (hv hvt).suffix) hclose (by decide)
  | cons hvt _ hs => exact (he hs).of_suffix ((skipWs_tail_suffix _).trans (hv hvt).suffix)

theorem ReadsMember.suffix {s t u : Bytes} {k : Str} {v : Value} (h : ReadsMember fuel s k t v u)
    (hv : TakesWhole (value fuel)) : u <:+ s :=
  (hv h.item).suffix.trans ((skipWs_tail_suffix t).trans
    ((takesWhole_stringRest _ h.key).suffix.trans (List.tail_suffix s)))

theorem takesWhole_members_succ (hv : TakesWhole (value fuel)) (hm : TakesWhole (members fuel)) :
    TakesWhole (members (fuel + 1)) := by
  intro s r ms h
  cases members_iff.mp h with
  | last hmem hclose => exact .of_tail ((skipWs_suffix _).trans (hmem.suffix hv)) hclose (by decide)
  | cons hmem _ hs => exact (hm hs).of_suffix ((skipWs_tail_suffix _).trans (hmem.suffix hv))

end Step

/-- **No value ends in a comma.** -/
theorem takesWhole_value (fuel : ℕ) : TakesWhole (value fuel) ∧
    TakesWhole (elements fuel) ∧ TakesWhole (members fuel) := by
  induction fuel with
  | zero =>
    refine ⟨?_, ?_, ?_⟩ <;> intro s r _ h <;>
      exact absurd h (by simp [value, elements, members])
  | succ fuel ih =>
    obtain ⟨hv, he, hm⟩ := ih
    exact ⟨takesWhole_value_succ hm he, takesWhole_elements_succ hv he,
      takesWhole_members_succ hv hm⟩

/-! ### The bound on the depth -/

/-- A character after white space. -/
theorem tail_skipWs_length {s : Bytes} {c : UInt8} (hc : (skipWs s).head? = some c) :
    (skipWs s).tail.length < s.length := by
  have h1 := skipWs_length s
  have h2 : 0 < (skipWs s).length := by
    cases hs : skipWs s with
    | nil => exact absurd hc (by simp [hs])
    | cons => exact Nat.succ_pos _
  rw [List.length_tail]
  omega

/-- What the reader leaves of a text is shorter than the text. -/
def Shrinks {β : Type} (read : Bytes → Option (β × Bytes)) : Prop :=
  ∀ ⦃s r : Bytes⦄ ⦃v : β⦄, read s = some (v, r) → r.length < s.length

theorem TakesWhole.shrinks {β : Type} {read : Bytes → Option (β × Bytes)} (h : TakesWhole read) :
    Shrinks read :=
  fun _ _ _ hread ↦ (h hread).length_lt

/-- **A value, the elements of an array and the members of an object are shorter than the text
they are read off.** -/
theorem value_length (fuel : ℕ) :
    Shrinks (value fuel) ∧ Shrinks (elements fuel) ∧ Shrinks (members fuel) := by
  obtain ⟨hv, he, hm⟩ := takesWhole_value fuel
  exact ⟨hv.shrinks, he.shrinks, hm.shrinks⟩

/-- A key takes something. -/
theorem scanString_tail_length {s t : Bytes} {k : Str} (h : scanString s.tail = some (k, t)) :
    t.length < s.length := by
  have hlen := (takesWhole_stringRest _ h).length_lt
  rw [List.length_tail] at hlen
  omega

/-- More fuel makes no difference to a reader of texts of this length. -/
def Settled {β : Type} (read : ℕ → Bytes → Option (β × Bytes)) (fuel n : ℕ) : Prop :=
  ∀ ⦃s : Bytes⦄, 2 * s.length + n ≤ fuel → read (fuel + 1) s = read fuel s

section Step

variable {fuel : ℕ}

theorem settled_value_succ (hm : Settled members fuel 1) (he : Settled elements fuel 2) :
    Settled value (fuel + 1) 1 := by
  intro s h
  rw [value.eq_def, value.eq_def (fuel + 1)]
  simp only
  split
  · rfl
  · rename_i t
    have := skipWs_length t
    rw [List.length_cons] at h
    rw [hm (s := skipWs t) (by omega)]
  · rename_i t
    have := skipWs_length t
    rw [List.length_cons] at h
    rw [he (s := skipWs t) (by omega)]
  · rfl

theorem settled_elements_succ (hv : Settled value fuel 1) (he : Settled elements fuel 2) :
    Settled elements (fuel + 1) 2 := by
  intro s h
  rw [elements, elements, hv (s := s) (by omega)]
  split
  · rfl
  · rename_i v t hvt
    have h1 := (value_length fuel).1 hvt
    have h2 := skipWs_length (skipWs t).tail
    split
    · rfl
    · split
      · rename_i hc
        have := tail_skipWs_length hc
        rw [he (s := skipWs (skipWs t).tail) (by omega)]
      · rfl

theorem settled_members_succ (hv : Settled value fuel 1) (hm : Settled members fuel 1) :
    Settled members (fuel + 1) 1 := by
  intro s h
  rw [members, members]
  split
  · split
    · rfl
    · rename_i k t hk
      have h1 := scanString_tail_length hk
      split
      · rename_i hcolon
        have h2 := tail_skipWs_length hcolon
        have h3 := skipWs_length (skipWs t).tail
        rw [hv (s := skipWs (skipWs t).tail) (by omega)]
        split
        · rfl
        · rename_i v u hvu
          have h4 := (value_length fuel).1 hvu
          have h5 := skipWs_length (skipWs u).tail
          split
          · rfl
          · split
            · rename_i hc
              have := tail_skipWs_length hc
              rw [hm (s := skipWs (skipWs u).tail) (by omega)]
            · rfl
      · rfl
  · rfl

end Step

/-- **The bound on the depth never stops the reader.** -/
theorem value_fuel (fuel : ℕ) :
    Settled value fuel 1 ∧ Settled elements fuel 2 ∧ Settled members fuel 1 := by
  induction fuel with
  | zero => refine ⟨?_, ?_, ?_⟩ <;> intro s h <;> omega
  | succ fuel ih =>
    obtain ⟨hv, he, hm⟩ := ih
    exact ⟨settled_value_succ hm he, settled_elements_succ hv he, settled_members_succ hv hm⟩

/-- `json.loads(s)`; `none` is a `ValueError`. -/
def loads (s : Bytes) : Option Value :=
  match value (2 * s.length + 2) (skipWs s) with
  | none => none
  | some (v, rest) => if (skipWs rest).isEmpty then some v else none

end Json
