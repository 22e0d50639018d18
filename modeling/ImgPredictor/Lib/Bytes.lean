import Mathlib.Algebra.Group.Int.Defs
import Mathlib.Algebra.Group.Nat.Defs
import Mathlib.Data.Int.Notation
import Mathlib.Data.List.Basic
import Mathlib.Data.List.TakeDrop
import Mathlib.Tactic.Common

/-!
# Byte strings and the C view of memory

A program that walks raw pointers sees a block of bytes, not a list with a length.  This file has
the block as a list, `mem`, and the handful of C library calls that read and write it at an
offset:

* `blit` is `memcpy` into a block, and `poke` the assignment of one byte.  A write past the end of
  the list makes the list longer, so *"every write stayed inside the block"* is the same thing as
  *"the list did not grow"* — there is no separate log of writes to reason about.
* `cstr` is the NUL-terminated string at an offset, `strchr` the first occurrence of a byte in it,
  and `strneq` the test `strncmp(…) == 0`.
* `readStrneq` is that test through a pointer of which only so many bytes can be read: it has no
  answer where the comparison goes on past them.

The lemmas say what each call does when the block is presented as *text, terminator, rest* from
the offset on, which is how a loop over a buffer always has it.
-/

set_option autoImplicit false

/-- A string of bytes. -/
abbrev Bytes := List UInt8

namespace Bytes

/-- The bytes of a literal, one byte for each character. -/
def lit (s : String) : Bytes := s.toList.map fun c ↦ c.toNat.toUInt8

/-- `isspace` in the C locale, which is also what Python strips and splits on. -/
def isSpace (b : UInt8) : Bool := b == 32 || (9 ≤ b && b ≤ 13)

/-- `[0-9]`. -/
def isDigit (b : UInt8) : Bool := 48 ≤ b && b ≤ 57

/-- ASCII lower case, other bytes unchanged. -/
def toLower (b : UInt8) : UInt8 := if 65 ≤ b && b ≤ 90 then b + 32 else b

/-- The conversion of a number to an `int` of 32 bits. -/
def asInt (n : ℤ) : ℤ := (n + 2 ^ 31) % 2 ^ 32 - 2 ^ 31

theorem asInt_of_lt {n : ℕ} (h : n < 2 ^ 31) : asInt n = n := by
  rw [asInt]
  omega

/-- A length that does not fit comes out a good deal smaller. -/
theorem asInt_le {n : ℕ} (h : 2 ^ 31 ≤ n) : asInt n ≤ n - 2 ^ 32 := by
  rw [asInt]
  omega

/-! ## Writing -/

/-- `memcpy(mem + off, src, |src|)`. -/
def blit (mem : Bytes) (off : ℕ) (src : Bytes) : Bytes :=
  mem.takeD off 0 ++ src ++ mem.drop (off + src.length)

/-- `mem[i] = b`. -/
def poke (mem : Bytes) (i : ℕ) (b : UInt8) : Bytes := blit mem i [b]

theorem blit_of_le {mem : Bytes} {off : ℕ} (src : Bytes) (h : off ≤ mem.length) :
    blit mem off src = mem.take off ++ src ++ mem.drop (off + src.length) := by
  rw [blit, List.takeD_eq_take _ h]

/-- **A write makes the block longer exactly when it runs past its end.** -/
theorem length_blit (mem : Bytes) (off : ℕ) (src : Bytes) :
    (blit mem off src).length = max mem.length (off + src.length) := by
  simp only [blit, List.length_append, List.takeD_length, List.length_drop]
  omega

theorem take_blit {mem : Bytes} {off : ℕ} (src : Bytes) (h : off ≤ mem.length) :
    (blit mem off src).take (off + src.length) = mem.take off ++ src := by
  rw [blit_of_le src h]
  refine List.take_left' ?_
  simp [h]

/-- The block from an offset on, after a write further up. -/
theorem drop_poke {mem : Bytes} {d : ℕ} {u t : Bytes} (b c : UInt8)
    (h : mem.drop d = u ++ c :: t) : (poke mem (d + u.length) b).drop d = u ++ b :: t := by
  have hd : d + u.length < mem.length := by
    have := congrArg List.length h
    simp only [List.length_drop, List.length_append, List.length_cons] at this
    omega
  rw [poke, blit_of_le _ (Nat.le_of_lt hd), List.append_assoc,
    List.drop_append_of_le_length (by simp; omega), List.drop_take, h]
  have ht : mem.drop (d + u.length + 1) = t := by
    rw [Nat.add_assoc, ← List.drop_drop, h]
    simp
  simp [ht]

/-! ## Reading -/

/-- The NUL-terminated string at offset `i`. -/
def cstr (mem : Bytes) (i : ℕ) : Bytes := (mem.drop i).takeWhile (· != 0)

/-- `strchr(mem + i, c)`, as an offset into `mem`. -/
def strchr (mem : Bytes) (i : ℕ) (c : UInt8) : Option ℕ :=
  if c ∈ cstr mem i then some (i + (cstr mem i).idxOf c) else none

/-- `strncmp(a, b, n) == 0`. -/
def strneq : ℕ → Bytes → Bytes → Bool
  | 0, _, _ => true
  | n + 1, a, b => a.headD 0 == b.headD 0 && (a.headD 0 == 0 || strneq n a.tail b.tail)

/-- Against a literal of the very length compared, `strncmp` is a test for a prefix. -/
theorem strneq_iff_prefix {a b : Bytes} (hb : 0 ∉ b) : strneq b.length a b = true ↔ b <+: a := by
  induction b generalizing a with
  | nil => simp [strneq]
  | cons y b ih =>
    rw [List.mem_cons, not_or] at hb
    obtain ⟨hy, hb⟩ := hb
    cases a with
    | nil => simpa [strneq] using hy
    | cons x a =>
      simp only [strneq, List.length_cons, List.headD_cons, List.tail_cons, Bool.and_eq_true,
        beq_iff_eq, Bool.or_eq_true, List.cons_prefix_cons, ih hb]
      constructor
      · rintro ⟨rfl, h | h⟩
        · exact absurd h.symm hy
        · exact ⟨rfl, h⟩
      · rintro ⟨rfl, h⟩
        exact ⟨rfl, .inr h⟩

/-- `strncmp(a, b, n) == 0` where `a` is all that can be read from the pointer on, and `none` where
the comparison would read further. -/
def readStrneq : ℕ → Bytes → Bytes → Option Bool
  | 0, _, _ => some true
  | _ + 1, [], _ => none
  | n + 1, x :: a, b =>
    if x != b.headD 0 then some false
    else if x == 0 then some true
    else readStrneq n a b.tail

/-- **A comparison with a literal fails to return exactly on a proper prefix of it.** -/
theorem readStrneq_eq {a b : Bytes} (hb : 0 ∉ b) :
    readStrneq b.length a b = if a <+: b ∧ a ≠ b then none else some (decide (b <+: a)) := by
  induction b generalizing a with
  | nil => cases a <;> simp [readStrneq]
  | cons y b ih =>
    rw [List.mem_cons, not_or] at hb
    obtain ⟨hy, hb⟩ := hb
    cases a with
    | nil => simp [readStrneq]
    | cons x a =>
      rw [List.length_cons, readStrneq, List.headD_cons, List.tail_cons]
      by_cases hxy : x = y
      · subst hxy
        have hx : (x == 0) = false := by simpa using Ne.symm hy
        simp [hx, ih hb, List.cons_prefix_cons]
      · simp [hxy, List.cons_prefix_cons, Ne.symm hxy]

private theorem bne_zero_of_notMem {u : Bytes} (hu : 0 ∉ u) : ∀ x ∈ u, (x != 0) = true := by
  intro x hx
  have hx0 : x ≠ 0 := fun h ↦ hu (h ▸ hx)
  simpa using hx0

theorem cstr_of_drop {mem : Bytes} {d : ℕ} {u t : Bytes} (h : mem.drop d = u ++ 0 :: t)
    (hu : 0 ∉ u) : cstr mem d = u := by
  rw [cstr, h, List.takeWhile_append_of_pos (bne_zero_of_notMem hu)]
  simp

/-- `strchr` finds a separator that comes before the terminator. -/
theorem strchr_of_drop {mem : Bytes} {d : ℕ} {u t : Bytes} {c : UInt8}
    (h : mem.drop d = u ++ c :: t) (h0 : 0 ∉ u) (hc : c ∉ u) (hc0 : c ≠ 0) :
    strchr mem d c = some (d + u.length) := by
  have hs : cstr mem d = u ++ c :: t.takeWhile (· != 0) := by
    rw [cstr, h, List.takeWhile_append_of_pos (bne_zero_of_notMem h0)]
    simp [hc0]
  rw [strchr, hs, if_pos (by simp), List.idxOf_append_of_notMem hc]
  simp

theorem strchr_eq_none {mem : Bytes} {d : ℕ} {u t : Bytes} {c : UInt8}
    (h : mem.drop d = u ++ 0 :: t) (h0 : 0 ∉ u) (hc : c ∉ u) : strchr mem d c = none := by
  rw [strchr, cstr_of_drop h h0, if_neg hc]

/-- `strchr` never looks back. -/
theorem le_of_strchr {mem : Bytes} {i p : ℕ} {c : UInt8} (h : strchr mem i c = some p) : i ≤ p := by
  rw [strchr] at h
  split at h
  · rw [Option.some_inj] at h; omega
  · exact absurd h (by simp)

end Bytes
