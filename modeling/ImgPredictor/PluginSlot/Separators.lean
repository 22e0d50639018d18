import ImgPredictor.Lib.Pieces
import ImgPredictor.PluginSlot.Split

/-!
# `split` at any separator

The configuration is only ever split at `|`, but `split` takes any string for a separator, and with
longer ones an occurrence may overlap another, or begin in the string and end in the separator that
was put behind it.  This file says what `split` does then.

It starts from the loop with the conversions the code makes (`splitIntLoop`): positions are
`size_t`, the index and the size are `int`.  Below `2^31` bytes only one of them changes a value,
that of `npos`, which comes out as `-1` and passes the guard `(int)pos<size` that should have caught
it; `splitIntLoop_eq` is that argument, and what follows is about `splitLoop`.  From `2^31` bytes on
the size is negative and the loop has no turn (`splitReturns_iff_split_long`).

A run of the loop cuts its string with one turn for each piece (`splitLoop_cuts`).  With nothing
left it ends; with something left it pushes that and goes on behind the first `|p| - 1` bytes.  If
something is left there too, it is left there for ever (`splitLoop_again`), so the loop ends exactly
where one of the two strings is used up: `splitReturns_iff`.  A separator without a border always
uses up the first, and `split_unbordered` has what the fields are.
-/

set_option autoImplicit false

namespace ImgPredictor

open Bytes Pieces

/-- `std::string::npos` -/
def npos : ℕ := 2 ^ 64 - 1

/-- The conversion of an `int` to a `size_t` of 64 bits. -/
def asSize (i : ℤ) : ℕ := (i % 2 ^ 64).toNat

/-- `str.find(pattern, i)` as the `size_t` it returns. -/
def findSize (str pattern : Bytes) (i : ℕ) : ℕ := (find str pattern i).getD npos

/-- The loop of `split` with its conversions between `int` and `size_t`.  The start of `substr` is
below the size, so it does not throw. -/
def splitIntLoop (str pattern : Bytes) : ℕ → ℤ → List Bytes → Option (List Bytes)
  | 0, _, _ => none
  | turns + 1, i, result =>
    if i < asInt str.length then
      let pos := findSize str pattern (asSize i)
      if asInt pos < asInt str.length then
        splitIntLoop str pattern turns (asInt (asSize (pos + pattern.length - 1)) + 1)
          (result ++ [(str.drop (asSize i)).take (asSize (pos - i))])
      else splitIntLoop str pattern turns (i + 1) result
    else some result

/-- `split` comes to an end and returns these fields. -/
def SplitReturns (str pattern : Bytes) (fields : List Bytes) : Prop :=
  ∃ turns, splitIntLoop (str ++ pattern) pattern turns 0 [] = some fields

theorem asSize_natCast {n : ℕ} (h : n < 2 ^ 64) : asSize n = n := by
  rw [asSize]
  omega

/-- **A failed search passes the guard that is there to catch it.** -/
theorem asInt_npos : asInt npos = -1 := by decide

theorem findFrom_bounds {pattern s : Bytes} {pos q : ℕ} (h : findFrom pattern pos s = some q) :
    pos ≤ q ∧ q + pattern.length ≤ pos + s.length := by
  induction s generalizing pos with
  | nil =>
    rw [findFrom] at h
    cases hp : pattern with
    | nil => simp_all
    | cons => simp_all
  | cons x s ih =>
    rw [findFrom] at h
    by_cases hpre : pattern.isPrefixOf (x :: s) = true
    · rw [if_pos hpre] at h
      obtain rfl := Option.some.inj h
      have := (List.isPrefixOf_iff_prefix.mp hpre).length_le
      omega
    · rw [if_neg hpre] at h
      have := ih h
      rw [List.length_cons]
      omega

theorem find_bounds {str pattern : Bytes} {i pos : ℕ} (h : find str pattern i = some pos) :
    i ≤ pos ∧ pos + pattern.length ≤ str.length := by
  rw [find] at h
  by_cases hi : i ≤ str.length
  · rw [if_pos hi] at h
    have := findFrom_bounds h
    rw [List.length_drop] at this
    omega
  · rw [if_neg hi] at h
    exact absurd h.symm (Option.some_ne_none pos)

/-- **The conversions do not matter where the sizes fit**, but for the one of `npos`. -/
theorem splitIntLoop_eq {str pattern : Bytes} (hp : pattern ≠ [])
    (hle : pattern.length ≤ str.length) (hstr : str.length < 2 ^ 31) (turns i : ℕ)
    (result : List Bytes) :
    splitIntLoop str pattern turns i result = splitLoop str pattern turns i result := by
  have hpos := List.length_pos_iff.mpr hp
  induction turns generalizing i result with
  | zero => rfl
  | succ turns ih =>
    rw [splitIntLoop, splitLoop, asInt_of_lt hstr]
    by_cases hi : i < str.length
    · rw [if_pos (by omega), if_pos hi, findSize, asSize_natCast (by omega)]
      cases hfind : find str pattern i with
      | some pos =>
        have hbounds := find_bounds hfind
        have hnext : asInt (asSize (pos + pattern.length - 1)) + 1
            = ((pos + pattern.length : ℕ) : ℤ) := by
          rw [asSize, asInt]
          omega
        have hcount : asSize (pos - i) = pos - i := by
          rw [asSize]
          omega
        simp only [Option.getD_some]
        rw [asInt_of_lt (by omega), if_pos (by omega), hnext, hcount, ih]
      | none =>
        have hnext : asInt (asSize (npos + pattern.length - 1)) + 1
            = ((pattern.length - 1 : ℕ) : ℤ) := by
          rw [asSize, asInt, npos]
          omega
        have htail : (str.drop i).take (asSize (npos - i)) = str.drop i := by
          refine List.take_of_length_le ?_
          rw [List.length_drop, asSize, npos]
          omega
        simp only [Option.getD_none]
        rw [asInt_npos, if_pos (by omega), hnext, htail, ih]
    · rw [if_neg (by omega), if_neg hi]

/-! ## Runs -/

section Runs

variable {str pattern t rest : Bytes} {fields : List Bytes} {i : ℕ}

/-- Turns that are left over do not matter. -/
theorem splitLoop_mono {turns : ℕ} {result : List Bytes}
    (h : splitLoop str pattern turns i result = some fields) (more : ℕ) :
    splitLoop str pattern (turns + more) i result = some fields := by
  induction turns generalizing i result with
  | zero => exact absurd h.symm (Option.some_ne_none fields)
  | succ turns ih =>
    rw [Nat.succ_add, splitLoop]
    rw [splitLoop] at h
    by_cases hi : i < str.length
    · rw [if_pos hi] at h ⊢
      cases hfind : find str pattern i with
      | some pos =>
        rw [hfind] at h
        exact ih h
      | none =>
        rw [hfind] at h
        exact ih h
    · rw [if_neg hi] at h ⊢
      exact h

/-- With fewer turns than pieces the loop is not through. -/
theorem splitLoop_cuts_none (hp : pattern ≠ []) (h : Cuts pattern t fields rest)
    (hstr : str.drop i = t) {turns : ℕ} (hturns : turns ≤ fields.length) (result : List Bytes) :
    splitLoop str pattern turns i result = none := by
  induction h generalizing i turns result with
  | stop =>
    rw [Nat.le_zero.mp hturns]
    rfl
  | cut ha _ ih =>
    cases turns with
    | zero => rfl
    | succ turns =>
      rw [splitLoop_turn hp hstr ha]
      exact ih (drop_turn hstr) (Nat.le_of_succ_le_succ hturns) _

/-- **Something left: it is taken for a field, and the index goes back.** -/
theorem splitLoop_cuts_rest (hp : pattern ≠ []) (h : Cuts pattern (str.drop i) fields rest)
    (hi : i ≤ str.length) (hrest : rest ≠ []) (turns : ℕ) (result : List Bytes) :
    splitLoop str pattern (fields.length + (turns + 1)) i result
      = splitLoop str pattern turns (pattern.length - 1) (result ++ fields ++ [rest]) := by
  have hpos := List.length_pos_iff.mpr hrest
  have hsuffix : rest <:+ str :=
    List.IsSuffix.trans ⟨_, h.eq_append.symm⟩ (List.drop_suffix i str)
  have hdrop := List.suffix_iff_eq_drop.mp hsuffix
  have hle := hsuffix.length_le
  rw [splitLoop_cuts hp h rfl hi, splitLoop_fail (by omega) (hdrop ▸ h.not_infix_rest), ← hdrop]

/-- **Something left behind `|pattern| - 1` is left there again and again.** -/
theorem splitLoop_again (hp : pattern ≠ [])
    (h : Cuts pattern (str.drop (pattern.length - 1)) fields rest) (hrest : rest ≠ [])
    (hle : pattern.length ≤ str.length) (turns : ℕ) (result : List Bytes) :
    splitLoop str pattern turns (pattern.length - 1) result = none := by
  induction turns using Nat.strong_induction_on generalizing result with
  | _ turns ih =>
    by_cases hturns : turns ≤ fields.length
    · exact splitLoop_cuts_none hp h rfl hturns result
    · obtain ⟨fewer, rfl⟩ : ∃ fewer, turns = fields.length + (fewer + 1) :=
        ⟨turns - fields.length - 1, by omega⟩
      rw [splitLoop_cuts_rest hp h (by omega) hrest]
      exact ih fewer (by omega) _

end Runs

/-! ## What `split` returns, and when -/

variable {s p : Bytes} {fields rest : List Bytes}

theorem splitReturns_iff_splitLoop (hp : p ≠ []) (hlen : s.length + p.length < 2 ^ 31) :
    SplitReturns s p fields ↔ ∃ turns, splitLoop (s ++ p) p turns 0 [] = some fields := by
  have hstr : (s ++ p).length = s.length + p.length := List.length_append
  have hloop (turns : ℕ) :
      splitIntLoop (s ++ p) p turns 0 [] = splitLoop (s ++ p) p turns 0 [] :=
    splitIntLoop_eq hp (by omega) (by omega) turns 0 []
  exact exists_congr fun turns ↦ by rw [hloop]

/-- **With something left both times the loop never ends.** -/
theorem splitLoop_never (hp : p ≠ []) {fields₀ rest₀ fields₁ rest₁}
    (hcuts₀ : Cuts p (s ++ p) fields₀ rest₀) (hrest₀ : rest₀ ≠ [])
    (hcuts₁ : Cuts p ((s ++ p).drop (p.length - 1)) fields₁ rest₁) (hrest₁ : rest₁ ≠ [])
    (turns : ℕ) : splitLoop (s ++ p) p turns 0 [] = none := by
  cases hends : splitLoop (s ++ p) p turns 0 [] with
  | none => rfl
  | some fields =>
    have hnever : splitLoop (s ++ p) p (fields₀.length + (turns + 1)) 0 [] = none := by
      rw [splitLoop_cuts_rest (i := 0) hp hcuts₀ (Nat.zero_le _) hrest₀]
      exact splitLoop_again hp hcuts₁ hrest₁ (by rw [List.length_append]; omega) _ _
    rw [show fields₀.length + (turns + 1) = turns + (fields₀.length + 1) by omega,
      splitLoop_mono hends] at hnever
    exact absurd hnever (Option.some_ne_none fields)

/-- **A loop that ends has used up the string**, from its start or from behind the first
`|p| - 1` bytes. -/
theorem blocks_of_splitLoop (hp : p ≠ []) {turns : ℕ}
    (h : splitLoop (s ++ p) p turns 0 [] = some fields) :
    Blocks p (s ++ p) ∨ Blocks p ((s ++ p).drop (p.length - 1)) := by
  obtain ⟨fields₀, rest₀, hcuts₀⟩ := exists_cuts hp (s ++ p)
  obtain ⟨fields₁, rest₁, hcuts₁⟩ := exists_cuts hp ((s ++ p).drop (p.length - 1))
  by_cases hrest₀ : rest₀ = []
  · exact .inl ((blocks_iff hp).mpr ⟨fields₀, hrest₀ ▸ hcuts₀⟩)
  by_cases hrest₁ : rest₁ = []
  · exact .inr ((blocks_iff hp).mpr ⟨fields₁, hrest₁ ▸ hcuts₁⟩)
  rw [splitLoop_never hp hcuts₀ hrest₀ hcuts₁ hrest₁] at h
  exact absurd h.symm (Option.some_ne_none fields)

theorem splitLoop_of_blocks (hp : p ≠ []) (h : Blocks p (s ++ p)) :
    ∃ fields, splitLoop (s ++ p) p (s.length + p.length + 1) 0 [] = some fields :=
  ((blocks_iff hp).mp h).imp fun _ hcuts ↦ splitLoop_of_cuts hp hcuts

/-- And so is one that is used up the second time: what was left the first time is shorter than the
separator, which then has two bytes at least. -/
theorem splitLoop_of_blocks_drop (hp : p ≠ []) (h : Blocks p ((s ++ p).drop (p.length - 1))) :
    ∃ fields, splitLoop (s ++ p) p (s.length + p.length + 1) 0 [] = some fields := by
  obtain ⟨fields₀, rest₀, hcuts₀⟩ := exists_cuts hp (s ++ p)
  by_cases hrest₀ : rest₀ = []
  · exact ⟨fields₀, splitLoop_of_cuts hp (hrest₀ ▸ hcuts₀)⟩
  obtain ⟨fields₁, hcuts₁⟩ := (blocks_iff hp).mp h
  have hpos := List.length_pos_iff.mpr hrest₀
  have hshort := hcuts₀.length_rest_lt
  have hturns₀ := Nat.mul_le_mul_left fields₀.length (show 2 ≤ p.length by omega)
  have hturns₁ := Nat.mul_le_mul_left fields₁.length (show 2 ≤ p.length by omega)
  have hle₀ := hcuts₀.length_le
  have hle₁ := hcuts₁.length_le
  rw [List.length_drop, List.length_append] at hle₁
  rw [List.length_append] at hle₀
  obtain ⟨more, hmore⟩ : ∃ more, s.length + p.length + 1
      = fields₀.length + (fields₁.length + (more + 1) + 1) :=
    ⟨s.length + p.length - fields₀.length - fields₁.length - 1, by omega⟩
  refine ⟨[] ++ fields₀ ++ [rest₀] ++ fields₁, ?_⟩
  rw [hmore, splitLoop_cuts_rest (i := 0) hp hcuts₀ (Nat.zero_le _) hrest₀]
  exact splitLoop_cuts_nil hp hcuts₁ (by rw [List.length_append]; omega) _ _

theorem exists_splitLoop (hp : p ≠ [])
    (h : Blocks p (s ++ p) ∨ Blocks p ((s ++ p).drop (p.length - 1))) :
    ∃ fields, splitLoop (s ++ p) p (s.length + p.length + 1) 0 [] = some fields :=
  h.elim (splitLoop_of_blocks hp) (splitLoop_of_blocks_drop hp)

/-- **The bound in `split` is no restriction**: where the loop ends, it ends within it. -/
theorem splitReturns_iff_split (hp : p ≠ []) (hlen : s.length + p.length < 2 ^ 31) :
    SplitReturns s p fields ↔ split s p = some fields := by
  rw [splitReturns_iff_splitLoop hp hlen, split, if_pos hlen]
  refine ⟨?_, fun h ↦ ⟨_, h⟩⟩
  rintro ⟨turns, h⟩
  obtain ⟨fields', hsplit⟩ := exists_splitLoop hp (blocks_of_splitLoop hp h)
  have hagree := splitLoop_mono hsplit turns
  rw [Nat.add_comm, splitLoop_mono h _] at hagree
  rw [hsplit, hagree]

/-- **Where the size is negative** the loop with its conversions has no turn either. -/
theorem splitReturns_iff_split_long (hlen : 2 ^ 31 ≤ s.length + p.length)
    (hlen' : s.length + p.length ≤ 2 ^ 32) : SplitReturns s p fields ↔ split s p = some fields := by
  have hsize : (s ++ p).length = s.length + p.length := List.length_append
  have hnegative : asInt (s ++ p).length ≤ (s ++ p).length - 2 ^ 32 := asInt_le (hsize ▸ hlen)
  rw [split, if_neg (Nat.not_lt.mpr hlen)]
  refine ⟨?_, fun h ↦ ⟨1, ?_⟩⟩
  · rintro ⟨turns, h⟩
    cases turns with
    | zero => exact absurd h.symm (Option.some_ne_none fields)
    | succ turns => rwa [splitIntLoop, if_neg (by omega)] at h
  · rwa [splitIntLoop, if_neg (by omega)]

/-- **`split` returns exactly where the string with the separator behind it is used up**, cut from
its start or from behind its first `|p| - 1` bytes. -/
theorem splitReturns_iff (s p : Bytes) (hp : p ≠ []) (hlen : s.length + p.length < 2 ^ 31) :
    (∃ fields, SplitReturns s p fields) ↔
      Blocks p (s ++ p) ∨ Blocks p ((s ++ p).drop (p.length - 1)) := by
  constructor
  · rintro ⟨fields, h⟩
    obtain ⟨turns, h⟩ := (splitReturns_iff_splitLoop hp hlen).mp h
    exact blocks_of_splitLoop hp h
  · intro h
    obtain ⟨fields, h⟩ := exists_splitLoop hp h
    exact ⟨fields, (splitReturns_iff_splitLoop hp hlen).mpr ⟨_, h⟩⟩

/-- `"aaa"` is not used up from its start, but from its second byte. -/
theorem splitReturns_second_time : lit "aa" ≠ [] ∧ (lit "a").length + (lit "aa").length < 2 ^ 31 ∧
    ∃ fields, SplitReturns (lit "a") (lit "aa") fields := by
  have hlen : (lit "a").length + (lit "aa").length < 2 ^ 31 := by decide
  exact ⟨by decide, hlen, (splitReturns_iff (lit "a") (lit "aa") (by decide) hlen).mpr
    (.inr ⟨[[]], List.forall_mem_singleton.mpr (first_nil _), by decide⟩)⟩

/-- **A separator that overlaps itself and a string that ends in half of it.** -/
theorem not_splitReturns_overlapping :
    lit "aa" ≠ [] ∧ (lit "ba").length + (lit "aa").length < 2 ^ 31 ∧
      ¬∃ fields, SplitReturns (lit "ba") (lit "aa") fields := by
  have hp : lit "aa" ≠ [] := by decide
  have hlen : (lit "ba").length + (lit "aa").length < 2 ^ 31 := by decide
  refine ⟨hp, hlen, fun ⟨fields, hfields⟩ ↦ ?_⟩
  obtain ⟨turns, hturns⟩ := (splitReturns_iff_splitLoop hp hlen).mp hfields
  have hstop : Cuts (lit "aa") (lit "a") [] (lit "a") := .stop (by decide)
  have hcuts₀ : Cuts (lit "aa") (lit "ba" ++ lit "aa") [lit "b"] (lit "a") :=
    .cut (a := lit "b") (by decide) hstop
  have hcuts₁ : Cuts (lit "aa") ((lit "ba" ++ lit "aa").drop 1) [[]] (lit "a") :=
    .cut (a := []) (by decide) hstop
  rw [splitLoop_never hp hcuts₀ (by decide) hcuts₁ (by decide)] at hturns
  exact absurd hturns.symm (Option.some_ne_none fields)

/-- **Without a border in the separator, `split` cuts as one expects**: it returns, the fields
joined give the string back, none of them holds the separator, and there is one more of them than
there are occurrences. -/
theorem split_unbordered (s p : Bytes) (hp : p ≠ []) (hborder : Unbordered p)
    (hlen : s.length + p.length < 2 ^ 31) :
    (∃ fields, SplitReturns s p fields) ∧
      ∀ fields, SplitReturns s p fields →
        p.intercalate fields = s ∧ (∀ field ∈ fields, ¬p <:+: field) ∧
          fields.length = occurrences p s + 1 := by
  obtain ⟨fields, hcuts⟩ := (blocks_iff hp).mp (hborder.blocks_append hp s)
  have hsplit : split s p = some fields := (if_pos hlen).trans (splitLoop_of_cuts hp hcuts)
  refine ⟨⟨fields, (splitReturns_iff_split hp hlen).mpr hsplit⟩, fun fields' h ↦ ?_⟩
  obtain rfl : fields = fields' :=
    Option.some.inj (hsplit.symm.trans ((splitReturns_iff_split hp hlen).mp h))
  have hstr : s ++ p = fields.flatMap (· ++ p) := hcuts.eq_append.trans (List.append_nil _)
  have hfields : fields ≠ [] := by
    rintro rfl
    exact hp (List.append_eq_nil_iff.mp hstr).2
  have hjoined := intercalate_eq hstr hfields
  refine ⟨hjoined, fun field hfield ↦ (hcuts.first field hfield).not_infix_piece hp, ?_⟩
  rw [hborder.length_eq hp hcuts.first hfields, hjoined]

theorem split_unbordered_bar : ∃ fields, SplitReturns (lit "a|b") (lit "|") fields ∧
    (lit "|").intercalate fields = lit "a|b" ∧ fields.length = 2 := by
  have h := split_unbordered (lit "a|b") (lit "|") (by decide) (unbordered_singleton 124)
    (by decide)
  obtain ⟨fields, hfields⟩ := h.1
  obtain ⟨hjoined, -, hlength⟩ := h.2 fields hfields
  exact ⟨fields, hfields, hjoined, hlength⟩

end ImgPredictor
