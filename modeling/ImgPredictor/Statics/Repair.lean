import ImgPredictor.Lib.JsonText
import ImgPredictor.Statics.Parsers

/-!
# Reading a text without its trailing commas

`parse_cicf` deletes every comma that stands directly before a `]`, wherever in the text that is.
A text that `json.loads` accepts has such commas inside its strings only, and this file says what
becomes of it: the text is still accepted, and gives the same value up to the strings.

* `Repaired` is what happens to the characters of a string.  Only written-out commas go, those of an
  escape stay, so this is a relation and not a function of the string.
* `Alike` is the same of values.
* `Tracks` says that a reader finds alike things in a text and in the repaired text, and
  `tracks_value` that the reader of values does.  Numbers and constants are `Untouched`.
-/

set_option autoImplicit false

namespace ImgPredictor

open Bytes Json

/-! ## The repaired text -/

theorem dropTrailingCommas_cons {b : UInt8} (hb : b ≠ 44) (s : Bytes) :
    dropTrailingCommas (b :: s) = b :: dropTrailingCommas s := by
  rw [dropTrailingCommas]
  rintro _ rfl
  exact absurd rfl hb

/-- A character of the repaired text that is not a bracket was the same character before. -/
theorem eq_cons_of_dropTrailingCommas {s t : Bytes} {b : UInt8} (hb : b ≠ 93)
    (h : dropTrailingCommas s = b :: t) : ∃ r, s = b :: r ∧ dropTrailingCommas r = t := by
  unfold dropTrailingCommas at h
  split at h
  · exact absurd h (by simp)
  · exact absurd (List.cons.inj h).1.symm hb
  · obtain ⟨rfl, rfl⟩ := List.cons.inj h
    exact ⟨_, rfl, rfl⟩

/-- A comma stays unless a bracket follows. -/
theorem dropTrailingCommas_comma {s : Bytes} (h : s.head? ≠ some 93) :
    dropTrailingCommas (44 :: s) = 44 :: dropTrailingCommas s := by
  rw [dropTrailingCommas]
  rintro t - rfl
  exact absurd rfl h

/-- Text without commas is not changed, and does not change what follows it. -/
theorem dropTrailingCommas_append {u : Bytes} (hu : 44 ∉ u) (s : Bytes) :
    dropTrailingCommas (u ++ s) = u ++ dropTrailingCommas s := by
  induction u with
  | nil => rfl
  | cons b u ih =>
    rw [List.mem_cons, not_or] at hu
    rw [List.cons_append, dropTrailingCommas_cons (Ne.symm hu.1), ih hu.2, List.cons_append]

theorem length_dropTrailingCommas_le (s : Bytes) : (dropTrailingCommas s).length ≤ s.length := by
  fun_induction dropTrailingCommas s with
  | case1 => exact Nat.le_refl _
  | case2 s ih => exact Nat.le_succ_of_le (Nat.succ_le_succ ih)
  | case3 b s _ ih => exact Nat.succ_le_succ ih

theorem dropTrailingCommas_eq_nil_iff {s : Bytes} : dropTrailingCommas s = [] ↔ s = [] := by
  fun_cases dropTrailingCommas s <;> simp

/-- A text that does not start with a comma keeps its first character. -/
theorem head?_dropTrailingCommas {s : Bytes} (h : s.head? ≠ some 44) :
    (dropTrailingCommas s).head? = s.head? := by
  cases s with
  | nil => rfl
  | cons b s =>
    rw [dropTrailingCommas_cons (by simpa using h)]
    rfl

/-- Any other character comes first in both or in neither. -/
theorem head?_dropTrailingCommas_iff {s : Bytes} {c : UInt8} (hcomma : c ≠ 44) (hbracket : c ≠ 93) :
    (dropTrailingCommas s).head? = some c ↔ s.head? = some c := by
  fun_cases dropTrailingCommas s with
  | case1 => rfl
  | case2 s => simp [Ne.symm hcomma, Ne.symm hbracket]
  | case3 b s => rfl

theorem tail_dropTrailingCommas {s : Bytes} {c : UInt8} (h : s.head? = some c) (hcomma : c ≠ 44) :
    (dropTrailingCommas s).tail = dropTrailingCommas s.tail := by
  cases s with
  | nil => rfl
  | cons b s =>
    obtain rfl := Option.some.inj h
    rw [dropTrailingCommas_cons hcomma]
    rfl

section Runs

variable {p : UInt8 → Bool} (hcomma : p 44 = false) (hbracket : p 93 = false)

include hcomma hbracket

/-- A run of other characters is found where it was. -/
theorem takeWhile_dropTrailingCommas (s : Bytes) :
    (dropTrailingCommas s).takeWhile p = s.takeWhile p := by
  fun_induction dropTrailingCommas s with
  | case1 => rfl
  | case2 s ih => simp [hcomma, hbracket]
  | case3 b s _ ih => simp only [List.takeWhile_cons, ih]

theorem dropWhile_dropTrailingCommas (s : Bytes) :
    (dropTrailingCommas s).dropWhile p = dropTrailingCommas (s.dropWhile p) := by
  fun_induction dropTrailingCommas s with
  | case1 => rfl
  | case2 s ih => simp [hcomma, hbracket, dropTrailingCommas]
  | case3 b s hpair ih =>
    rw [List.dropWhile_cons, List.dropWhile_cons]
    split
    · exact ih
    · rw [dropTrailingCommas]
      exact hpair

end Runs

theorem skipWs_dropTrailingCommas (s : Bytes) :
    skipWs (dropTrailingCommas s) = dropTrailingCommas (skipWs s) :=
  dropWhile_dropTrailingCommas rfl rfl s

/-- A bracket is not white space. -/
theorem head?_ne_of_skipWs {s : Bytes} (h : (skipWs s).head? ≠ some 93) : s.head? ≠ some 93 := by
  intro hs
  cases s with
  | nil => exact absurd hs (by simp)
  | cons b s =>
    obtain rfl := Option.some.inj hs
    exact h rfl

/-! ## Numbers and constants -/

/-- What the reader finds is not affected. -/
def Untouched {β : Type} (read : Bytes → Option (β × Bytes)) : Prop :=
  ∀ s, read (dropTrailingCommas s) = (read s).map fun r ↦ (r.1, dropTrailingCommas r.2)

theorem fraction_dropTrailingCommas (s : Bytes) :
    fraction (dropTrailingCommas s) = ((fraction s).1, dropTrailingCommas (fraction s).2) := by
  by_cases hdot : s.head? = some 46
  · obtain ⟨s, rfl⟩ : ∃ t, s = 46 :: t := ⟨s.tail, (List.cons_head?_tail hdot).symm⟩
    rw [dropTrailingCommas_cons (by decide), fraction, fraction,
      takeWhile_dropTrailingCommas rfl rfl, dropWhile_dropTrailingCommas rfl rfl]
    split
    · rw [dropTrailingCommas_cons (by decide)]
    · rfl
  · have hnone : ∀ t : Bytes, t.head? ≠ some 46 → fraction t = ([], t) := by
      intro t ht
      unfold fraction
      split
      · exact absurd rfl ht
      · rfl
    rw [hnone s hdot, hnone _ (mt (head?_dropTrailingCommas_iff (by decide) (by decide)).mp hdot)]

theorem head?_beq_dropTrailingCommas {c : UInt8} (hcomma : c ≠ 44) (hbracket : c ≠ 93) (s : Bytes) :
    ((dropTrailingCommas s).head? == some c) = (s.head? == some c) := by
  rw [Bool.eq_iff_iff, beq_iff_eq, beq_iff_eq]
  exact head?_dropTrailingCommas_iff hcomma hbracket

theorem unsigned_dropTrailingCommas (s : Bytes) :
    unsigned (dropTrailingCommas s) = dropTrailingCommas (unsigned s) := by
  rw [unsigned, unsigned, head?_beq_dropTrailingCommas (by decide) (by decide),
    head?_beq_dropTrailingCommas (by decide) (by decide)]
  split
  · rename_i hsign
    simp only [Bool.or_eq_true, beq_iff_eq] at hsign
    rcases hsign with hsign | hsign <;> exact tail_dropTrailingCommas hsign (by decide)
  · rfl

theorem exponent_dropTrailingCommas (s : Bytes) :
    exponent (dropTrailingCommas s) = ((exponent s).1, dropTrailingCommas (exponent s).2) := by
  rw [exponent, exponent, head?_beq_dropTrailingCommas (by decide) (by decide),
    head?_beq_dropTrailingCommas (by decide) (by decide)]
  split
  · rename_i hexp
    simp only [Bool.or_eq_true, beq_iff_eq] at hexp
    have htail : (dropTrailingCommas s).tail = dropTrailingCommas s.tail := by
      rcases hexp with hexp | hexp <;> exact tail_dropTrailingCommas hexp (by decide)
    simp only [htail, unsigned_dropTrailingCommas,
      takeWhile_dropTrailingCommas (p := isDigit) rfl rfl,
      dropWhile_dropTrailingCommas (p := isDigit) rfl rfl,
      head?_beq_dropTrailingCommas (c := 45) (by decide) (by decide)]
    split <;> rfl
  · rfl

/-- The digits before the point: they are there again, and leave the repaired rest. -/
theorem whole_dropTrailingCommas (s : Bytes) :
    whole (dropTrailingCommas s) = whole s ∧
      (dropTrailingCommas s).drop (whole s).length
        = dropTrailingCommas (s.drop (whole s).length) := by
  rw [whole, whole, head?_beq_dropTrailingCommas (by decide) (by decide)]
  split
  · rename_i hzero
    simp only [beq_iff_eq] at hzero
    refine ⟨rfl, ?_⟩
    rw [List.length_singleton, List.drop_one, List.drop_one]
    exact tail_dropTrailingCommas hzero (by decide)
  · refine ⟨takeWhile_dropTrailingCommas rfl rfl s, ?_⟩
    have hdigits : (44 : UInt8) ∉ s.takeWhile isDigit := fun h ↦
      absurd (List.mem_takeWhile_imp h) (by decide)
    have happend := dropTrailingCommas_append hdigits (s.dropWhile isDigit)
    have hrest : (s.takeWhile isDigit ++ s.dropWhile isDigit).drop
        (s.takeWhile isDigit).length = s.dropWhile isDigit := List.drop_left
    rw [List.takeWhile_append_dropWhile] at happend hrest
    rw [happend, List.drop_left, hrest]

theorem number_untouched : Untouched number := by
  have hfrom : ∀ negative, Untouched (numberFrom negative) := by
    intro negative s
    obtain ⟨hwhole, hdrop⟩ := whole_dropTrailingCommas s
    rw [numberFrom, numberFrom, hwhole, hdrop]
    simp only [fraction_dropTrailingCommas, exponent_dropTrailingCommas]
    split
    · rfl
    · split <;> rfl
  intro s
  rw [number, number]
  by_cases hminus : s.head? = some 45
  · rw [if_pos ((head?_dropTrailingCommas_iff (by decide) (by decide)).mpr hminus), if_pos hminus,
      tail_dropTrailingCommas hminus (by decide), hfrom]
  · rw [if_neg (mt (head?_dropTrailingCommas_iff (by decide) (by decide)).mp hminus),
      if_neg hminus, hfrom]

theorem isPrefixOf_dropTrailingCommas {c : Bytes} (hcomma : 44 ∉ c) (hbracket : 93 ∉ c)
    (s : Bytes) : c.isPrefixOf (dropTrailingCommas s) = c.isPrefixOf s := by
  induction c generalizing s with
  | nil => rfl
  | cons b c ih =>
    rw [List.mem_cons, not_or] at hcomma hbracket
    fun_cases dropTrailingCommas s with
    | case1 => rfl
    | case2 s =>
      rw [List.isPrefixOf, List.isPrefixOf, beq_false_of_ne (Ne.symm hcomma.1),
        beq_false_of_ne (Ne.symm hbracket.1)]
      rfl
    | case3 a s => rw [List.isPrefixOf, List.isPrefixOf, ih hcomma.2 hbracket.2]

theorem constant_untouched : Untouched constant := by
  intro s
  have hfound : ∀ {c : Bytes} {n : ℕ} {v : Value}, c.isPrefixOf s = true → 44 ∉ c → c.length = n →
      some (v, (dropTrailingCommas s).drop n)
        = (some (v, s.drop n)).map fun r ↦ (r.1, dropTrailingCommas r.2) := by
    rintro c _ v hp hc rfl
    obtain ⟨t, rfl⟩ := List.isPrefixOf_iff_prefix.mp hp
    rw [dropTrailingCommas_append hc, List.drop_left, Option.map_some, List.drop_left]
  rw [constant, constant]
  repeat rw [isPrefixOf_dropTrailingCommas (by decide) (by decide)]
  repeat' split
  all_goals first
    | rfl
    | exact hfound ‹_› (by decide) rfl

/-! ## Strings -/

/-- The characters of a string once the text it is written in is repaired: some commas are gone that
stood before a bracket. -/
inductive Repaired : Str → Str → Prop
  | nil : Repaired [] []
  | keep (c : ℕ) {s s' : Str} : Repaired s s' → Repaired (c :: s) (c :: s')
  | drop {s s' : Str} : Repaired (93 :: s) s' → Repaired (44 :: 93 :: s) s'

/-- Brackets stay, and a string without them is not changed. -/
theorem Repaired.mem_iff {s s' : Str} (h : Repaired s s') :
    (93 ∈ s ↔ 93 ∈ s') ∧ (93 ∉ s → s = s') := by
  induction h with
  | nil => exact ⟨Iff.rfl, fun _ ↦ rfl⟩
  | keep c _ ih =>
    refine ⟨by simp [ih.1], fun hnot ↦ ?_⟩
    rw [List.mem_cons, not_or] at hnot
    rw [ih.2 hnot.2]
  | drop _ ih => exact ⟨by simpa using ih.1, fun hnot ↦ absurd (by simp) hnot⟩

/-- **A string without brackets is neither made nor unmade.** -/
theorem Repaired.eq_iff {s s' key : Str} (h : Repaired s s') (hkey : 93 ∉ key) :
    s = key ↔ s' = key := by
  obtain ⟨hmem, hsame⟩ := h.mem_iff
  constructor
  · rintro rfl
    exact (hsame hkey).symm
  · rintro rfl
    exact hsame (mt hmem.mp hkey)

theorem Repaired.refl : ∀ s : Str, Repaired s s
  | [] => .nil
  | c :: s => (Repaired.refl s).keep c

/-! ### Reading one -/

/-- The reader finds the same in the repaired text. -/
def Keeps {β : Type} (read : Bytes → Option (β × Bytes)) : Prop :=
  ∀ ⦃s r : Bytes⦄ ⦃v : β⦄, read s = some (v, r) →
    read (dropTrailingCommas s) = some (v, dropTrailingCommas r)

theorem ne_comma_of_hexDigit {b : UInt8} {n : ℕ} (h : hexDigit b = some n) : b ≠ 44 := by
  rintro rfl
  have hnone : hexDigit 44 = none := by decide
  exact absurd (hnone.symm.trans h) (by simp)

theorem keeps_hex4 : Keeps hex4 := by
  intro s r u h
  unfold hex4 at h
  split at h
  · rename_i a b c d t
    simp only [Option.bind_eq_bind, Option.bind_eq_some_iff] at h
    obtain ⟨n₁, ha, n₂, hb, n₃, hc, n₄, hd, h⟩ := h
    obtain ⟨rfl, rfl⟩ := Prod.mk.inj (Option.some.inj h)
    rw [dropTrailingCommas_cons (ne_comma_of_hexDigit ha),
      dropTrailingCommas_cons (ne_comma_of_hexDigit hb),
      dropTrailingCommas_cons (ne_comma_of_hexDigit hc),
      dropTrailingCommas_cons (ne_comma_of_hexDigit hd)]
    simp [hex4, ha, hb, hc, hd]
  · exact absurd h (by simp)

/-- The reader looks behind the escape for another one, and finds it or does not as before. -/
theorem keeps_unicodeEscape : Keeps unicodeEscape := by
  intro s r u h
  obtain ⟨⟨v, t⟩, hv, h⟩ := Option.bind_eq_some_iff.mp h
  rw [unicodeEscape, keeps_hex4 hv]
  simp only [Option.bind_eq_bind, Option.bind_some] at h ⊢
  by_cases hlow : ∃ t', t = 92 :: 117 :: t'
  · obtain ⟨t', rfl⟩ := hlow
    rw [dropTrailingCommas_cons (by decide), dropTrailingCommas_cons (by decide)]
    obtain ⟨⟨l, t''⟩, hl, h⟩ := Option.bind_eq_some_iff.mp h
    simp only [keeps_hex4 hl, Option.bind_some] at h ⊢
    split at h
    · rename_i hpair
      obtain ⟨rfl, rfl⟩ := Prod.mk.inj (Option.some.inj h)
      rw [if_pos hpair]
      rfl
    · rename_i hpair
      obtain ⟨rfl, rfl⟩ := Prod.mk.inj (Option.some.inj h)
      rw [if_neg hpair, dropTrailingCommas_cons (by decide), dropTrailingCommas_cons (by decide)]
      rfl
  · have hother : some (v, t) = some (u, r) := by
      split at h
      · exact absurd ⟨_, rfl⟩ hlow
      · exact h
    obtain ⟨rfl, rfl⟩ := Prod.mk.inj (Option.some.inj hother)
    split
    · rename_i t' hrepaired
      obtain ⟨r, rfl, hr⟩ := eq_cons_of_dropTrailingCommas (by decide) hrepaired
      obtain ⟨r, rfl, -⟩ := eq_cons_of_dropTrailingCommas (by decide) hr
      exact absurd ⟨r, rfl⟩ hlow
    · rfl

theorem keeps_escape : Keeps escape := by
  intro s r u h
  cases s with
  | nil => exact absurd h (by simp [escape])
  | cons b s =>
    have hb : b ≠ 44 := by
      rintro rfl
      exact absurd h (by simp [escape])
    rw [dropTrailingCommas_cons hb]
    rw [escape] at h ⊢
    have hone : ∀ n : ℕ, some (n, s) = some (u, r) →
        some (n, dropTrailingCommas s) = some (u, dropTrailingCommas r) := by
      intro n hn
      obtain ⟨rfl, rfl⟩ := Prod.mk.inj (Option.some.inj hn)
      rfl
    repeat' split at h
    all_goals simp only [*, Bool.false_eq_true, if_true, if_false]
    all_goals first
      | exact hone _ h
      | exact keeps_unicodeEscape h
      | exact absurd h (by simp)

theorem keeps_continuation (n u : ℕ) : Keeps (continuation n u) := by
  induction n generalizing u with
  | zero =>
    intro s r v h
    obtain ⟨rfl, rfl⟩ := Prod.mk.inj (Option.some.inj h)
    rfl
  | succ n ih =>
    intro s r v h
    cases s with
    | nil => exact absurd h (by simp [continuation])
    | cons b s =>
      rw [continuation] at h
      split at h
      · rename_i hb
        have hcomma : b ≠ 44 := by
          rintro rfl
          exact absurd hb (by decide)
        rw [dropTrailingCommas_cons hcomma, continuation, if_pos hb]
        exact ih _ h
      · exact absurd h (by simp)

/-- A character of UTF-8, unless it is a comma. -/
theorem utf8Char_dropTrailingCommas {s r : Bytes} {u : ℕ} (h : utf8Char s = some (u, r))
    (hcomma : s.head? ≠ some 44) :
    utf8Char (dropTrailingCommas s) = some (u, dropTrailingCommas r) := by
  cases s with
  | nil => exact absurd h (by simp [utf8Char])
  | cons a s =>
    rw [dropTrailingCommas_cons (by simpa using hcomma)]
    rw [utf8Char] at h ⊢
    have hfilter : ∀ (n v : ℕ) (p : ℕ × Bytes → Bool), (∀ u t t', p (u, t) = p (u, t')) →
        (continuation n v s).filter p = some (u, r) →
        (continuation n v (dropTrailingCommas s)).filter p = some (u, dropTrailingCommas r) := by
      intro n v p hp hfound
      obtain ⟨hread, htest⟩ := Option.filter_eq_some_iff.mp hfound
      exact Option.filter_eq_some_iff.mpr ⟨keeps_continuation n v hread, hp u r _ ▸ htest⟩
    split at h
    · rename_i hone
      obtain ⟨rfl, rfl⟩ := Prod.mk.inj (Option.some.inj h)
      rw [if_pos hone]
    · rename_i hone
      rw [if_neg hone]
      split at h
      · rename_i htwo
        rw [if_pos htwo]
        exact keeps_continuation _ _ h
      · rename_i htwo
        rw [if_neg htwo]
        split at h
        · rename_i hthree
          rw [if_pos hthree]
          exact hfilter _ _ _ (fun _ _ _ ↦ rfl) h
        · rename_i hthree
          rw [if_neg hthree]
          split at h
          · rename_i hfour
            rw [if_pos hfour]
            exact hfilter _ _ _ (fun _ _ _ ↦ rfl) h
          · exact absurd h (by simp)

/-- A character of a string, unless it is a comma that is deleted. -/
theorem stringChar_dropTrailingCommas {s r : Bytes} {c : ℕ} (h : stringChar s = some (c, r))
    (hpair : ∀ t, s ≠ 44 :: 93 :: t) :
    stringChar (dropTrailingCommas s) = some (c, dropTrailingCommas r) := by
  cases s with
  | nil => exact absurd h (by simp [stringChar])
  | cons b s =>
    by_cases hescape : b = 92
    · subst hescape
      rw [dropTrailingCommas_cons (by decide)]
      exact keeps_escape h
    · rw [stringChar_of_ne hescape] at h
      by_cases hcomma : b = 44
      · subst hcomma
        have hnext : s.head? ≠ some 93 := by
          intro hhead
          exact hpair s.tail (by rw [← List.cons_head?_tail hhead]; rfl)
        obtain ⟨rfl, rfl⟩ : 44 = c ∧ s = r := Prod.mk.inj (Option.some.inj h)
        rw [dropTrailingCommas_comma hnext]
        rfl
      · have hread : utf8Char (b :: s) = some (c, r) := by
          split at h
          · exact absurd h (by simp)
          · exact h
        have hkept := utf8Char_dropTrailingCommas hread (by simpa using hcomma)
        rw [dropTrailingCommas_cons hcomma] at hkept ⊢
        rw [stringChar_of_ne hescape, hkept]
        split at h
        · exact absurd h (by simp)
        · rename_i hcontrol
          rw [if_neg hcontrol]

/-- What a reader finds in the repaired text is related to what it finds in the text. -/
def Tracks {β : Type} (R : β → β → Prop) (read : Bytes → Option (β × Bytes)) : Prop :=
  ∀ ⦃s r : Bytes⦄ ⦃v : β⦄, read s = some (v, r) →
    ∃ v', read (dropTrailingCommas s) = some (v', dropTrailingCommas r) ∧ R v v'

/-- **The reader of strings**: a comma that is deleted is a character by itself, and the bracket
behind it is the next one. -/
theorem tracks_stringRest (fuel : ℕ) : Tracks Repaired (stringRest fuel) := by
  induction fuel with
  | zero =>
    intro s r cs h
    exact absurd h (by simp [stringRest])
  | succ fuel ih =>
    intro s r cs h
    rw [stringRest] at h
    split at h
    · rename_i hquote
      obtain ⟨rfl, rfl⟩ := Prod.mk.inj (Option.some.inj h)
      refine ⟨[], ?_, .nil⟩
      rw [stringRest, if_pos ((head?_dropTrailingCommas_iff (by decide) (by decide)).mpr hquote),
        tail_dropTrailingCommas hquote (by decide)]
    · rename_i hquote
      obtain ⟨⟨c, t⟩, hc, h⟩ := Option.bind_eq_some_iff.mp h
      obtain ⟨⟨cs', t'⟩, hcs, h⟩ := Option.bind_eq_some_iff.mp h
      obtain ⟨rfl, rfl⟩ := Prod.mk.inj (Option.some.inj h)
      obtain ⟨ds, hds, hrepaired⟩ := ih hcs
      by_cases hpair : ∃ u, s = 44 :: 93 :: u
      · obtain ⟨u, rfl⟩ := hpair
        obtain ⟨rfl, rfl⟩ : 44 = c ∧ 93 :: u = t := Prod.mk.inj (Option.some.inj hc)
        have hbracket : ∃ ds', cs' = 93 :: ds' := by
          cases fuel with
          | zero => exact absurd hcs (by simp [stringRest])
          | succ fuel =>
            rw [stringRest, if_neg (by simp)] at hcs
            obtain ⟨⟨c, t⟩, hc, hcs⟩ := Option.bind_eq_some_iff.mp hcs
            obtain ⟨rfl, rfl⟩ : 93 = c ∧ u = t := Prod.mk.inj (Option.some.inj hc)
            obtain ⟨⟨es, t''⟩, -, hcs⟩ := Option.bind_eq_some_iff.mp hcs
            exact ⟨es, (Prod.mk.inj (Option.some.inj hcs)).1.symm⟩
        obtain ⟨es, rfl⟩ := hbracket
        exact ⟨ds, stringRest_succ hds, hrepaired.drop⟩
      · have hchar := stringChar_dropTrailingCommas hc fun u hu ↦ hpair ⟨u, hu⟩
        refine ⟨c :: ds, ?_, hrepaired.keep c⟩
        rw [stringRest,
          if_neg (mt (head?_dropTrailingCommas_iff (by decide) (by decide)).mp hquote)]
        simp only [hchar, hds, Option.bind_eq_bind, Option.bind_some]
        rfl

theorem tracks_scanString : Tracks Repaired scanString := by
  intro s r cs h
  obtain ⟨cs', hcs', hrepaired⟩ := tracks_stringRest _ h
  rw [scanString_eq (Nat.lt_succ_of_le (length_dropTrailingCommas_le s))] at hcs'
  exact ⟨cs', hcs', hrepaired⟩

/-! ## Values -/

mutual

/-- Values that are the same but for their repaired strings and keys. -/
inductive Alike : Value → Value → Prop
  | null : Alike .null .null
  | bool (b : Bool) : Alike (.bool b) (.bool b)
  | int (n : ℤ) : Alike (.int n) (.int n)
  | float (x : Json.Float) : Alike (.float x) (.float x)
  | str {s s' : Str} : Repaired s s' → Alike (.str s) (.str s')
  | arr {xs ys : List Value} : AlikeList xs ys → Alike (.arr xs) (.arr ys)
  | obj {ms ns : List (Str × Value)} : AlikeMembers ms ns → Alike (.obj ms) (.obj ns)

/-- The same of the elements of an array. -/
inductive AlikeList : List Value → List Value → Prop
  | nil : AlikeList [] []
  | cons {x y : Value} {xs ys : List Value} :
    Alike x y → AlikeList xs ys → AlikeList (x :: xs) (y :: ys)

/-- The same of the members of an object. -/
inductive AlikeMembers : List (Str × Value) → List (Str × Value) → Prop
  | nil : AlikeMembers [] []
  | cons {k k' : Str} {v v' : Value} {ms ns : List (Str × Value)} :
    Repaired k k' → Alike v v' → AlikeMembers ms ns → AlikeMembers ((k, v) :: ms) ((k', v') :: ns)

end

mutual

theorem Alike.refl : ∀ v : Value, Alike v v
  | .null => .null
  | .bool b => .bool b
  | .int n => .int n
  | .float x => .float x
  | .str s => .str (Repaired.refl s)
  | .arr xs => .arr (AlikeList.refl xs)
  | .obj ms => .obj (AlikeMembers.refl ms)

theorem AlikeList.refl : ∀ xs : List Value, AlikeList xs xs
  | [] => .nil
  | x :: xs => .cons (Alike.refl x) (AlikeList.refl xs)

theorem AlikeMembers.refl : ∀ ms : List (Str × Value), AlikeMembers ms ms
  | [] => .nil
  | (k, v) :: ms => .cons (Repaired.refl k) (Alike.refl v) (AlikeMembers.refl ms)

end

/-- A separator is found in the repaired text, when no bracket follows it. -/
theorem separator_dropTrailingCommas {s : Bytes} (hcomma : (skipWs s).head? = some 44)
    (hnext : (skipWs (skipWs s).tail).head? ≠ some 93) :
    (skipWs (dropTrailingCommas s)).head? = some 44 ∧
      skipWs (skipWs (dropTrailingCommas s)).tail
        = dropTrailingCommas (skipWs (skipWs s).tail) := by
  have hs : skipWs s = 44 :: (skipWs s).tail := (List.cons_head?_tail hcomma).symm
  have hrepaired : skipWs (dropTrailingCommas s) = 44 :: dropTrailingCommas (skipWs s).tail := by
    rw [skipWs_dropTrailingCommas, hs, dropTrailingCommas_comma (head?_ne_of_skipWs hnext)]
    rfl
  rw [hrepaired]
  exact ⟨rfl, skipWs_dropTrailingCommas _⟩

/-- Any other character is found there at once. -/
theorem character_dropTrailingCommas {s : Bytes} {c : UInt8} (hc : (skipWs s).head? = some c)
    (hcomma : c ≠ 44) :
    (skipWs (dropTrailingCommas s)).head? = some c ∧
      (skipWs (dropTrailingCommas s)).tail = dropTrailingCommas (skipWs s).tail := by
  rw [skipWs_dropTrailingCommas]
  refine ⟨?_, tail_dropTrailingCommas hc hcomma⟩
  rw [head?_dropTrailingCommas (by simpa [hc] using hcomma), hc]

section Step

variable {fuel : ℕ}

theorem tracks_value_succ (hm : Tracks AlikeMembers (members fuel))
    (he : Tracks AlikeList (elements fuel)) : Tracks Alike (value (fuel + 1)) := by
  intro s r v h
  cases value_iff.mp h with
  | str hs =>
    obtain ⟨cs, hcs, hrepaired⟩ := tracks_scanString hs
    rw [dropTrailingCommas_cons (by decide)]
    exact ⟨.str cs, value_iff.mpr (.str hcs), .str hrepaired⟩
  | @emptyObj s hclose =>
    obtain ⟨hclose', htail⟩ := character_dropTrailingCommas hclose (by decide)
    rw [dropTrailingCommas_cons (by decide), ← htail]
    exact ⟨.obj [], value_iff.mpr (.emptyObj hclose'), .obj .nil⟩
  | @obj s _ _ _ hs =>
    obtain ⟨ms, hms, halike⟩ := hm hs
    rw [← skipWs_dropTrailingCommas] at hms
    have hopen : (skipWs (dropTrailingCommas s)).head? ≠ some 125 := by
      rw [head?_of_members hms]
      decide
    rw [dropTrailingCommas_cons (by decide)]
    exact ⟨.obj ms, value_iff.mpr (.obj hopen hms), .obj halike⟩
  | @emptyArr s hclose =>
    obtain ⟨hclose', htail⟩ := character_dropTrailingCommas hclose (by decide)
    rw [dropTrailingCommas_cons (by decide), ← htail]
    exact ⟨.arr [], value_iff.mpr (.emptyArr hclose'), .arr .nil⟩
  | @arr s _ _ _ hs =>
    obtain ⟨vs, hvs, halike⟩ := he hs
    rw [← skipWs_dropTrailingCommas] at hvs
    rw [dropTrailingCommas_cons (by decide)]
    exact ⟨.arr vs, value_iff.mpr (.arr (head?_of_elements hvs).2 hvs), .arr halike⟩
  | scalar hstr hobj harr hs =>
    have hother : ∀ {c : UInt8}, c ≠ 44 → c ≠ 93 → s.head? ≠ some c →
        (dropTrailingCommas s).head? ≠ some c :=
      fun h44 h93 h ↦ mt (head?_dropTrailingCommas_iff h44 h93).mp h
    refine ⟨v, value_iff.mpr (.scalar (hother (by decide) (by decide) hstr)
      (hother (by decide) (by decide) hobj) (hother (by decide) (by decide) harr) ?_),
      Alike.refl v⟩
    rw [constant_untouched, number_untouched]
    rcases Option.or_eq_some_iff.mp hs with hc | ⟨hc, hn⟩
    · rw [hc]
      rfl
    · rw [hc, hn]
      rfl

theorem tracks_elements_succ (hv : Tracks Alike (value fuel))
    (he : Tracks AlikeList (elements fuel)) : Tracks AlikeList (elements (fuel + 1)) := by
  intro s r vs h
  cases elements_iff.mp h with
  | last hvt hclose =>
    obtain ⟨v', hvt', halike⟩ := hv hvt
    obtain ⟨hclose', htail⟩ := character_dropTrailingCommas hclose (by decide)
    rw [← htail]
    exact ⟨[v'], elements_iff.mpr (.last hvt' hclose'), .cons halike .nil⟩
  | cons hvt hcomma hs =>
    obtain ⟨v', hvt', halike⟩ := hv hvt
    obtain ⟨vs', hvs', hrest⟩ := he hs
    obtain ⟨hcomma', hnext⟩ := separator_dropTrailingCommas hcomma (head?_of_elements hs).2
    rw [← hnext] at hvs'
    exact ⟨v' :: vs', elements_iff.mpr (.cons hvt' hcomma' hvs'), .cons halike hrest⟩

/-- One member is read alike. -/
theorem tracks_member (hv : Tracks Alike (value fuel)) {s t u : Bytes} {k : Str} {v : Value}
    (h : ReadsMember fuel s k t v u) :
    ∃ k' v', ReadsMember fuel (dropTrailingCommas s) k' (dropTrailingCommas t) v'
      (dropTrailingCommas u) ∧ Repaired k k' ∧ Alike v v' := by
  obtain ⟨k', hk', hkey⟩ := tracks_scanString h.key
  obtain ⟨v', hv', halike⟩ := hv h.item
  obtain ⟨hcolon, htail⟩ := character_dropTrailingCommas h.colon (by decide)
  refine ⟨k', v', ⟨(head?_dropTrailingCommas_iff (by decide) (by decide)).mpr h.quote, ?_, hcolon,
    ?_⟩, hkey, halike⟩
  · rwa [tail_dropTrailingCommas h.quote (by decide)]
  · rwa [htail, skipWs_dropTrailingCommas]

theorem tracks_members_succ (hv : Tracks Alike (value fuel))
    (hm : Tracks AlikeMembers (members fuel)) : Tracks AlikeMembers (members (fuel + 1)) := by
  intro s r ms h
  cases members_iff.mp h with
  | last hmem hclose =>
    obtain ⟨k', v', hmem', hkey, halike⟩ := tracks_member hv hmem
    obtain ⟨hclose', htail⟩ := character_dropTrailingCommas hclose (by decide)
    rw [← htail]
    exact ⟨[(k', v')], members_iff.mpr (.last hmem' hclose'), .cons hkey halike .nil⟩
  | cons hmem hcomma hs =>
    obtain ⟨k', v', hmem', hkey, halike⟩ := tracks_member hv hmem
    obtain ⟨ms', hms', hrest⟩ := hm hs
    obtain ⟨hcomma', hnext⟩ :=
      separator_dropTrailingCommas hcomma (by simp [head?_of_members hs])
    rw [← hnext] at hms'
    exact ⟨(k', v') :: ms', members_iff.mpr (.cons hmem' hcomma' hms'),
      .cons hkey halike hrest⟩

end Step

/-- **The reader finds the same values in the repaired text**, up to their strings. -/
theorem tracks_value (fuel : ℕ) : Tracks Alike (value fuel) ∧
    Tracks AlikeList (elements fuel) ∧ Tracks AlikeMembers (members fuel) := by
  induction fuel with
  | zero =>
    refine ⟨?_, ?_, ?_⟩ <;> intro s r _ h <;>
      exact absurd h (by simp [value, elements, members])
  | succ fuel ih =>
    obtain ⟨hv, he, hm⟩ := ih
    exact ⟨tracks_value_succ hm he, tracks_elements_succ hv he, tracks_members_succ hv hm⟩

end ImgPredictor
