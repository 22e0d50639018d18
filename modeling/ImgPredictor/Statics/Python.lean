import ImgPredictor.Lib.Json

/-!
# What Python makes of a JSON value

The operations the parsers of the statistics apply to what `json.loads` returns, with the exceptions
they raise.  A `str` of JSON is a `unicode` here, which compares equal to the byte string of the
same ASCII characters.

`int` of a string goes through `PyUnicode_EncodeDecimal`, so the digits of other scripts count as
digits and other characters above Latin-1 raise an error.
-/

set_option autoImplicit false

namespace ImgPredictor

open Json

/-- The exceptions that end a run of the statistics. -/
inductive PyError where
  /-- `ValueError`, and the Unicode errors below it. -/
  | valueError
  /-- `TypeError` -/
  | typeError
  /-- `AttributeError` -/
  | attributeError
  /-- `KeyError` -/
  | keyError
  /-- `OverflowError` -/
  | overflowError
  deriving DecidableEq, Repr

/-- `bool(v)` -/
def truthy : Value → Bool
  | .null => false
  | .bool b => b
  | .int n => n != 0
  | .float x => !x.isZero
  | .str s => !s.isEmpty
  | .arr xs => !xs.isEmpty
  | .obj ms => !ms.isEmpty

/-- `v.has_key(key)` -/
def hasKey : Value → Str → Except PyError Bool
  | .obj ms, key => .ok (lookup ms key).isSome
  | _, _ => .error .attributeError

/-- `v[key]`, of a dictionary. -/
def index : Value → Str → Except PyError Value
  | .obj ms, key => match lookup ms key with
    | some v => .ok v
    | none => .error .keyError
  | _, _ => .error .typeError

/-- `iter(v)`: the elements of a list, the characters of a string, the keys of a dictionary. -/
def iterate : Value → Except PyError (List Value)
  | .arr xs => .ok xs
  | .str s => .ok (s.map fun c ↦ .str [c])
  | .obj ms => .ok (ms.map fun m ↦ .str m.1)
  | _ => .error .typeError

/-- `v == s`, for a string `s`. -/
def isStr : Value → Str → Bool
  | .str t, s => t == s
  | _, _ => false

/-! ## `int` -/

/-- The white space of `unicode`. -/
def isUniSpace (c : ℕ) : Bool :=
  (9 ≤ c && c ≤ 13) || (28 ≤ c && c ≤ 32) || c == 0x85 || c == 0xa0 || c == 0x1680 ||
    c == 0x180e || (0x2000 ≤ c && c ≤ 0x200a) || c == 0x2028 || c == 0x2029 || c == 0x202f ||
    c == 0x205f || c == 0x3000

/-- Where the runs of ten decimal digits of `unicode` begin. -/
def digitRuns : List ℕ :=
  [0x30, 0x660, 0x6f0, 0x7c0, 0x966, 0x9e6, 0xa66, 0xae6, 0xb66, 0xbe6, 0xc66, 0xce6, 0xd66, 0xe50,
    0xed0, 0xf20, 0x1040, 0x1090, 0x17e0, 0x1810, 0x1946, 0x19d0, 0x1b50, 0x1bb0, 0x1c40, 0x1c50,
    0xa620, 0xa8d0, 0xa900, 0xaa50, 0xff10, 0x104a0, 0x1d7ce, 0x1d7d8, 0x1d7e2, 0x1d7ec, 0x1d7f6]

/-- The decimal digit a character stands for. -/
def digitOf (c : ℕ) : Option ℕ := (digitRuns.find? fun b ↦ b ≤ c && c < b + 10).map (c - ·)

/-- One character of `PyUnicode_EncodeDecimal`. -/
def encodeDecimal (c : ℕ) : Option ℕ :=
  if isUniSpace c then some 32
  else match digitOf c with
    | some d => some (48 + d)
    | none => if 0 < c && c < 256 then some c else none

/-- The digits of an integer, after white space and a sign, with white space around. -/
def intDigits (s : Str) : Option Str :=
  let s := s.dropWhile (· == 32)
  let s := if s.head? == some 43 || s.head? == some 45 then s.tail else s
  let s := s.dropWhile (· == 32)
  let digits := s.takeWhile fun c ↦ 48 ≤ c && c ≤ 57
  let rest := (s.dropWhile fun c ↦ 48 ≤ c && c ≤ 57).dropWhile (· == 32)
  if digits.isEmpty || !rest.isEmpty then none else some digits

/-- `int(s) != 0`, of a string. -/
def intOfStr (s : Str) : Except PyError Bool :=
  match (s.mapM encodeDecimal).bind intDigits with
  | some digits => .ok (digits.any (· != 48))
  | none => .error .valueError

/-- `int(v) != 0` -/
def intNonzero : Value → Except PyError Bool
  | .bool b => .ok b
  | .int n => .ok (n != 0)
  | .float x =>
    if x = .nan then .error .valueError
    else if x.isInf then .error .overflowError
    else .ok x.isOne
  | .str s => intOfStr s
  | .null => .error .typeError
  | .arr _ => .error .typeError
  | .obj _ => .error .typeError

/-- The values `int` takes: numbers that are finite, and strings that read as an integer. -/
def IsNumeric : Value → Prop
  | .bool _ => True
  | .int _ => True
  | .float x => x ≠ .nan ∧ x.isInf = false
  | .str s => ((s.mapM encodeDecimal).bind intDigits).isSome = true
  | _ => False

theorem intNonzero_ok_iff (v : Value) : (∃ b, intNonzero v = .ok b) ↔ IsNumeric v := by
  cases v with
  | null => simp [intNonzero, IsNumeric]
  | bool b => simp [intNonzero, IsNumeric]
  | int n => simp [intNonzero, IsNumeric]
  | float x =>
    rw [intNonzero, IsNumeric]
    by_cases hx : x = .nan
    · simp [hx]
    · rw [if_neg hx]
      cases hi : x.isInf <;> simp [hx]
  | str s =>
    rw [intNonzero, IsNumeric, intOfStr]
    cases (s.mapM encodeDecimal).bind intDigits <;> simp
  | arr xs => simp [intNonzero, IsNumeric]
  | obj ms => simp [intNonzero, IsNumeric]

end ImgPredictor
