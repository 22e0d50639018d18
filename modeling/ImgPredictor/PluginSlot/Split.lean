import ImgPredictor.Lib.Bytes
import ImgPredictor.Lib.Pieces

/-!
# `split`

The helper `split` appends the separator to the string and then cuts off one field per occurrence,
jumping its `int` loop index over the separator each time.  `find` is `std::string::find`; where
it fails it returns `npos`, which the code narrows to an `int`: `-1` is below the size, so a failed
search is taken for a match, pushes the whole tail and sends the index back to `|pattern| - 1`.
Whether the loop ends is therefore not evident, and `split` is the loop run with a bound on its
iterations, `none` when the bound is met.

The size is assigned to an `int` too.  **From `2^31` bytes on it comes out negative, and nothing is
cut off at all**; below, no other narrowing changes a value.  `Separators.lean` has the loop with
all its conversions, and says that up to `2^32` bytes `split` is what it returns.  A longer string,
whose size may come out positive again, is the one case that is left out.
-/

set_option autoImplicit false

namespace ImgPredictor

open Bytes Pieces

/-- The first occurrence of `pattern` in `s`, where `s` starts at position `pos`. -/
def findFrom (pattern : Bytes) : ℕ → Bytes → Option ℕ
  | pos, [] => if pattern.isEmpty then some pos else none
  | pos, x :: s => if pattern.isPrefixOf (x :: s) then some pos else findFrom pattern (pos + 1) s

/-- `str.find(pattern, i)`, with `none` for `npos`. -/
def find (str pattern : Bytes) (i : ℕ) : Option ℕ :=
  if i ≤ str.length then findFrom pattern i (str.drop i) else none

/-- The loop of `split` over the string with the separator appended. -/
def splitLoop (str pattern : Bytes) : ℕ → ℕ → List Bytes → Option (List Bytes)
  | 0, _, _ => none
  | fuel + 1, i, result =>
    if i < str.length then
      match find str pattern i with
      | some pos =>
        splitLoop str pattern fuel (pos + pattern.length)
          (result ++ [(str.drop i).take (pos - i)])
      | none => splitLoop str pattern fuel (pattern.length - 1) (result ++ [str.drop i])
    else some result

/-- `split`.  A size that is negative as an `int` leaves the loop without a turn. -/
def split (str pattern : Bytes) : Option (List Bytes) :=
  if str.length + pattern.length < 2 ^ 31 then
    splitLoop (str ++ pattern) pattern (str.length + pattern.length + 1) 0 []
  else some []

/-! ## One turn -/

theorem findFrom_of_first {pattern a : Bytes} (ha : First pattern a) (t : Bytes) (pos : ℕ) :
    findFrom pattern pos (a ++ pattern ++ t) = some (pos + a.length) := by
  induction a generalizing pos with
  | nil =>
    have hpre : pattern <+: [] ++ pattern ++ t := List.prefix_append pattern t
    cases hs : [] ++ pattern ++ t with
    | nil =>
      rw [hs] at hpre
      rw [findFrom, List.prefix_nil.mp hpre]
      rfl
    | cons x s =>
      rw [findFrom, if_pos (List.isPrefixOf_iff_prefix.mpr (hs ▸ hpre))]
      rfl
  | cons x a ih =>
    have hx : ¬pattern <+: x :: (a ++ pattern ++ t) := ha.not_prefix_drop t (Nat.succ_pos _)
    rw [List.cons_append, List.cons_append, findFrom,
      if_neg (hx ∘ List.isPrefixOf_iff_prefix.mp), ih ha.tail, List.length_cons]
    congr 1
    omega

theorem findFrom_eq_none {pattern s : Bytes} (h : ¬pattern <:+: s) (pos : ℕ) :
    findFrom pattern pos s = none := by
  induction s generalizing pos with
  | nil =>
    have hp : pattern ≠ [] := fun hp ↦ h (hp ▸ List.infix_refl [])
    rw [findFrom, if_neg (hp ∘ List.isEmpty_iff.mp)]
  | cons x s ih =>
    rw [List.infix_cons_iff, not_or] at h
    rw [findFrom, if_neg (h.1 ∘ List.isPrefixOf_iff_prefix.mp), ih h.2]

/-- **A turn that finds the separator** cuts off the field before it, and the index is behind it. -/
theorem splitLoop_turn {str pattern a t : Bytes} {i : ℕ} (hp : pattern ≠ [])
    (hstr : str.drop i = a ++ pattern ++ t) (ha : First pattern a) (fuel : ℕ)
    (result : List Bytes) :
    splitLoop str pattern (fuel + 1) i result
      = splitLoop str pattern fuel (i + a.length + pattern.length) (result ++ [a]) := by
  have hpos := List.length_pos_iff.mpr hp
  have hlen := congrArg List.length hstr
  simp only [List.length_drop, List.length_append] at hlen
  have hfind : find str pattern i = some (i + a.length) := by
    rw [find, if_pos (by omega), hstr, findFrom_of_first ha]
  rw [splitLoop, if_pos (by omega), hfind]
  simp only [hstr, Nat.add_sub_cancel_left, List.append_assoc, List.take_left]

theorem drop_turn {str pattern a t : Bytes} {i : ℕ} (hstr : str.drop i = a ++ pattern ++ t) :
    str.drop (i + a.length + pattern.length) = t := by
  rw [Nat.add_assoc, ← List.drop_drop, hstr, ← List.length_append, List.drop_left]

/-- **A turn that does not** takes all that is left for a field, and the index goes back. -/
theorem splitLoop_fail {str pattern : Bytes} {i : ℕ} (hi : i < str.length)
    (h : ¬pattern <:+: str.drop i) (fuel : ℕ) (result : List Bytes) :
    splitLoop str pattern (fuel + 1) i result
      = splitLoop str pattern fuel (pattern.length - 1) (result ++ [str.drop i]) := by
  have hfind : find str pattern i = none := by
    rw [find, if_pos (Nat.le_of_lt hi), findFrom_eq_none h]
  rw [splitLoop, if_pos hi, hfind]

/-- At the end of the string the loop ends. -/
theorem splitLoop_end {str pattern : Bytes} {i : ℕ} (hi : str.length ≤ i) (fuel : ℕ)
    (result : List Bytes) : splitLoop str pattern (fuel + 1) i result = some result := by
  rw [splitLoop, if_neg (by omega)]

/-! ## Runs -/

section Runs

variable {str pattern s p t rest : Bytes} {fields : List Bytes} {i : ℕ}

/-- **One turn for each piece**, and the index is where the separator is not found any more. -/
theorem splitLoop_cuts (hp : pattern ≠ []) (h : Cuts pattern t fields rest)
    (hstr : str.drop i = t) (hi : i ≤ str.length) (turns : ℕ) (result : List Bytes) :
    splitLoop str pattern (fields.length + turns) i result
      = splitLoop str pattern turns (str.length - rest.length) (result ++ fields) := by
  have hlen := congrArg List.length hstr
  rw [List.length_drop] at hlen
  induction h generalizing i result with
  | stop =>
    rw [List.length_nil, Nat.zero_add, List.append_nil, ← hlen, Nat.sub_sub_self hi]
  | @cut a t rest fields ha _ ih =>
    rw [List.length_append, List.length_append] at hlen
    have hnext := drop_turn hstr
    rw [List.length_cons, Nat.add_right_comm, splitLoop_turn hp hstr ha,
      ih hnext (by omega) _ (by omega), List.append_assoc, List.singleton_append]

/-- **Nothing left: the loop ends.** -/
theorem splitLoop_cuts_nil (hp : pattern ≠ []) (h : Cuts pattern (str.drop i) fields [])
    (hi : i ≤ str.length) (turns : ℕ) (result : List Bytes) :
    splitLoop str pattern (fields.length + (turns + 1)) i result = some (result ++ fields) := by
  rw [splitLoop_cuts hp h rfl hi, List.length_nil, Nat.sub_zero, splitLoop_end (Nat.le_refl _)]

/-- A string that is used up is used up within as many turns as it has bytes. -/
theorem splitLoop_of_cuts (hp : p ≠ []) (h : Cuts p (s ++ p) fields []) :
    splitLoop (s ++ p) p (s.length + p.length + 1) 0 [] = some fields := by
  have hturns := Nat.le_mul_of_pos_right fields.length (List.length_pos_iff.mpr hp)
  have hle := h.length_le
  rw [List.length_append] at hle
  rw [show s.length + p.length + 1
    = fields.length + (s.length + p.length - fields.length + 1) by omega]
  exact splitLoop_cuts_nil hp (i := 0) h (Nat.zero_le _) _ _

end Runs

/-! ## A separator of one byte

The separator is then found from every position of the string, the index only moves up, and the
fields are the pieces between the separators, empty ones and a last empty one included. -/

/-- The fields of a line: the pieces between its bars, and none in a line that is too long. -/
def fieldsOf (line : Bytes) : List Bytes :=
  if line.length + 1 < 2 ^ 31 then line.splitOn 124 else []

/-- The `i`-th field of a line, empty when there is none. -/
def fieldAt (line : Bytes) (i : ℕ) : Bytes := (fieldsOf line).getD i []

/-- **`split` on a bar returns**, and cuts at every bar if the size fits. -/
theorem split_bar (line : Bytes) : split line (lit "|") = some (fieldsOf line) := by
  have hbar : lit "|" ≠ [] := by decide
  rw [split, fieldsOf, show (lit "|").length = 1 from rfl]
  split
  · exact splitLoop_of_cuts hbar (cuts_splitOn 124 line)
  · rfl

/-- There are no fields, or those of a line whose size fits. -/
theorem fieldsOf_eq_or (line : Bytes) : fieldsOf line = line.splitOn 124 ∨ fieldsOf line = [] := by
  rw [fieldsOf]
  split
  · exact .inl rfl
  · exact .inr rfl

end ImgPredictor
