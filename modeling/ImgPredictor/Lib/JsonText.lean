import ImgPredictor.Lib.Json

/-!
# The places in a JSON text

The reader of `Lib.Json` takes a value off the front of a text.  Here is what it can see there, and
where in the text the arrays end that it finds.

* `head?_of_value` and its companions: no value begins with a comma or a closing bracket.
* `arrayEnds` are the places of the closing brackets of the arrays that are not empty:
  `length_arrayEnds` finds as many as the value has, and by `closes_of_mem_arrayEnds` they are
  brackets without a comma before them.
* `withCommas` writes a comma before some of them.
-/

set_option autoImplicit false

namespace Json

open Bytes

/-! ## One step of the reader -/

theorem stringChar_of_ne {b : UInt8} (hb : b ≠ 92) (s : Bytes) :
    stringChar (b :: s) = if b < 32 then none else utf8Char (b :: s) := by
  unfold stringChar
  split
  · rename_i heq
    exact absurd (List.cons.inj heq).1 hb
  · rename_i heq
    obtain ⟨rfl, rfl⟩ := List.cons.inj heq
    rfl
  · rename_i heq
    exact absurd heq (by simp)

/-- One more turn never hurts. -/
theorem stringRest_succ {fuel : ℕ} {s : Bytes} {x : Str × Bytes} (h : stringRest fuel s = some x) :
    stringRest (fuel + 1) s = some x := by
  induction fuel generalizing s x with
  | zero => exact absurd h (by simp [stringRest])
  | succ fuel ih =>
    rw [stringRest] at h ⊢
    split at h
    · rename_i hquote
      rw [if_pos hquote, h]
    · rename_i hquote
      rw [if_neg hquote]
      obtain ⟨⟨c, t⟩, hc, h⟩ := Option.bind_eq_some_iff.mp h
      obtain ⟨⟨cs, t'⟩, hcs, h⟩ := Option.bind_eq_some_iff.mp h
      simp only [hc, ih hcs, Option.bind_eq_bind, Option.bind_some]
      exact h

/-- Any bound that is large enough gives the string. -/
theorem scanString_eq {fuel : ℕ} {s : Bytes} (h : s.length < fuel) :
    stringRest fuel s = scanString s := by
  induction fuel, h using Nat.le_induction with
  | base => rfl
  | succ fuel hle ih => rw [stringRest_fuel hle, ih]

/-- A value does not begin with a comma or a closing bracket. -/
theorem head?_of_value {fuel : ℕ} {s r : Bytes} {v : Value} (h : value fuel s = some (v, r)) :
    s.head? ≠ some 44 ∧ s.head? ≠ some 93 := by
  cases fuel with
  | zero => exact absurd h (by simp [value])
  | succ fuel =>
    have hnot : ∀ b : UInt8, b = 44 ∨ b = 93 → s.head? ≠ some b := by
      intro b hb hhead
      have hs : s = b :: s.tail := (List.cons_head?_tail hhead).symm
      rw [hs] at h
      rcases hb with rfl | rfl
      · rw [value_of_scalar (by simp) (by simp) (by simp)] at h
        exact absurd h (by simp [constant, number, numberFrom, whole, lit, isDigit])
      · rw [value_of_scalar (by simp) (by simp) (by simp)] at h
        exact absurd h (by simp [constant, number, numberFrom, whole, lit, isDigit])
    exact ⟨hnot 44 (.inl rfl), hnot 93 (.inr rfl)⟩

/-- Nor do the elements of an array. -/
theorem head?_of_elements {fuel : ℕ} {s r : Bytes} {vs : List Value}
    (h : elements fuel s = some (vs, r)) : s.head? ≠ some 44 ∧ s.head? ≠ some 93 := by
  cases fuel with
  | zero => exact absurd h (by simp [elements])
  | succ fuel =>
    cases elements_iff.mp h with
    | last hv _ => exact head?_of_value hv
    | cons hv _ _ => exact head?_of_value hv

theorem head?_of_members {fuel : ℕ} {s r : Bytes} {ms : List (Str × Value)}
    (h : members fuel s = some (ms, r)) : s.head? = some 34 := by
  cases fuel with
  | zero => exact absurd h (by simp [members])
  | succ fuel =>
    cases members_iff.mp h with
    | last hm _ => exact hm.quote
    | cons hm _ _ => exact hm.quote

/-- Any bound that is large enough gives the value. -/
theorem value_eq_of_le {fuel fuel' : ℕ} {s : Bytes} (hle : fuel ≤ fuel')
    (h : 2 * s.length + 1 ≤ fuel) : value fuel' s = value fuel s := by
  induction fuel', hle using Nat.le_induction with
  | base => rfl
  | succ fuel' hle ih => rw [(value_fuel fuel').1 (Nat.le_trans h hle), ih]

/-! ## The ends of the arrays -/

mutual

/-- The places in a value of the closing brackets of arrays that are not empty: for each of them,
what remains from it on is so many characters long. -/
def valueEnds : ℕ → Bytes → List ℕ
  | 0, _ => []
  | fuel + 1, s => match s with
    | 123 :: s => if (skipWs s).head? = some 125 then [] else membersEnds fuel (skipWs s)
    | 91 :: s => if (skipWs s).head? = some 93 then [] else elementsEnds fuel (skipWs s)
    | _ => []

/-- The places in the elements of an array, with that of its own bracket. -/
def elementsEnds : ℕ → Bytes → List ℕ
  | 0, _ => []
  | fuel + 1, s => match value fuel s with
    | none => []
    | some (_, r) =>
      valueEnds fuel s ++
        if (skipWs r).head? = some 93 then [(skipWs r).length]
        else elementsEnds fuel (skipWs (skipWs r).tail)

/-- The places in the members of an object. -/
def membersEnds : ℕ → Bytes → List ℕ
  | 0, _ => []
  | fuel + 1, s => match scanString s.tail with
    | none => []
    | some (_, r) => match value fuel (skipWs (skipWs r).tail) with
      | none => []
      | some (_, r') =>
        valueEnds fuel (skipWs (skipWs r).tail) ++
          if (skipWs r').head? = some 125 then []
          else membersEnds fuel (skipWs (skipWs r').tail)

end

/-- The places of the closing brackets of the arrays that are not empty, in a text that is
accepted. -/
def arrayEnds (s : Bytes) : List ℕ := valueEnds (2 * s.length + 2) (skipWs s)

/-- There is a bracket at this place, which is neither the first character nor after a comma. -/
def Closes (s : Bytes) (n : ℕ) : Prop := ∃ w, Leaves s (93 :: w) ∧ w.length + 1 = n

theorem Closes.of_suffix {s t : Bytes} {n : ℕ} (hs : t <:+ s) (h : Closes t n) : Closes s n := by
  obtain ⟨w, hw, hn⟩ := h
  exact ⟨w, hw.of_suffix hs, hn⟩

/-- **The places are where they should be.** -/
theorem closes_of_mem_ends (fuel : ℕ) :
    (∀ s, ∀ n ∈ valueEnds fuel s, Closes s n) ∧ (∀ s, ∀ n ∈ elementsEnds fuel s, Closes s n) ∧
      ∀ s, ∀ n ∈ membersEnds fuel s, Closes s n := by
  induction fuel with
  | zero =>
    refine ⟨?_, ?_, ?_⟩ <;> intro s n h <;>
      exact absurd h (by simp [valueEnds, elementsEnds, membersEnds])
  | succ fuel ih =>
    obtain ⟨hv, he, hm⟩ := ih
    refine ⟨fun s n h ↦ ?_, fun s n h ↦ ?_, fun s n h ↦ ?_⟩
    · rw [valueEnds.eq_def] at h
      simp only at h
      split at h
      · split at h
        · exact absurd h (by simp)
        · exact (hm _ n h).of_suffix ((skipWs_suffix _).trans (List.suffix_cons _ _))
      · split at h
        · exact absurd h (by simp)
        · exact (he _ n h).of_suffix ((skipWs_suffix _).trans (List.suffix_cons _ _))
      · exact absurd h (by simp)
    · rw [elementsEnds] at h
      split at h
      · exact absurd h (by simp)
      · rename_i v r hvr
        have hleaves := (takesWhole_value fuel).1 hvr
        rcases List.mem_append.mp h with h | h
        · exact hv s n h
        · split at h
          · rename_i hclose
            have hws : Leaves s (skipWs r) := hleaves.and_then (Leaves.of_dropWhile rfl r)
            have hcons : skipWs r = 93 :: (skipWs r).tail := (List.cons_head?_tail hclose).symm
            refine ⟨(skipWs r).tail, hcons ▸ hws, ?_⟩
            rw [List.mem_singleton.mp h, hcons]
            rfl
          · exact (he _ n h).of_suffix ((skipWs_tail_suffix r).trans hleaves.suffix)
    · rw [membersEnds] at h
      split at h
      · exact absurd h (by simp)
      · rename_i k r hk
        have hkey : r <:+ s := (takesWhole_stringRest _ hk).suffix.trans (List.tail_suffix s)
        have hpast := (skipWs_tail_suffix r).trans hkey
        split at h
        · exact absurd h (by simp)
        · rename_i v r' hvr
          have hvalue := ((takesWhole_value fuel).1 hvr).suffix.trans hpast
          rcases List.mem_append.mp h with h | h
          · exact (hv _ n h).of_suffix hpast
          · split at h
            · exact absurd h (by simp)
            · exact (hm _ n h).of_suffix ((skipWs_tail_suffix r').trans hvalue)

theorem closes_of_mem_arrayEnds {s : Bytes} {n : ℕ} (h : n ∈ arrayEnds s) : Closes s n :=
  ((closes_of_mem_ends _).1 _ n h).of_suffix (skipWs_suffix s)

mutual

/-- How many arrays of a value are not empty. -/
def arrays : Value → ℕ
  | .arr xs => arraysList xs + if xs.isEmpty then 0 else 1
  | .obj ms => arraysMembers ms
  | _ => 0

/-- How many those of the elements of an array are. -/
def arraysList : List Value → ℕ
  | [] => 0
  | x :: xs => arrays x + arraysList xs

/-- How many those of the members of an object are. -/
def arraysMembers : List (Str × Value) → ℕ
  | [] => 0
  | m :: ms => arrays m.2 + arraysMembers ms

end

theorem arrays_of_scalar {s r : Bytes} {v : Value}
    (h : (constant s).or (number s) = some (v, r)) : arrays v = 0 := by
  rcases Option.or_eq_some_iff.mp h with hc | ⟨-, hn⟩
  · rw [constant] at hc
    repeat' split at hc
    all_goals first
      | (obtain ⟨rfl, -⟩ := Prod.mk.inj (Option.some.inj hc); rfl)
      | exact absurd hc (by simp)
  · have hfrom : ∀ {negative t}, numberFrom negative t = some (v, r) → arrays v = 0 := by
      intro negative t ht
      rw [numberFrom] at ht
      split at ht
      · exact absurd ht (by simp)
      · dsimp only at ht
        split at ht <;> obtain ⟨rfl, -⟩ := Prod.mk.inj (Option.some.inj ht) <;> rfl
    rw [number] at hn
    split at hn <;> exact hfrom hn

theorem valueEnds_brace (fuel : ℕ) (s : Bytes) :
    valueEnds (fuel + 1) (123 :: s) =
      if (skipWs s).head? = some 125 then [] else membersEnds fuel (skipWs s) := by
  rw [valueEnds]

theorem valueEnds_bracket (fuel : ℕ) (s : Bytes) :
    valueEnds (fuel + 1) (91 :: s) =
      if (skipWs s).head? = some 93 then [] else elementsEnds fuel (skipWs s) := by
  rw [valueEnds]

theorem valueEnds_of_ne {s : Bytes} (fuel : ℕ) (hobj : s.head? ≠ some 123)
    (harr : s.head? ≠ some 91) : valueEnds (fuel + 1) s = [] := by
  rw [valueEnds.eq_def]
  split
  · rfl
  · split
    · exact absurd rfl hobj
    · exact absurd rfl harr
    · rfl

/-- **Every array that is not empty has its place.** -/
theorem length_ends (fuel : ℕ) :
    (∀ s v r, value fuel s = some (v, r) → (valueEnds fuel s).length = arrays v) ∧
      (∀ s vs r, elements fuel s = some (vs, r) →
        vs ≠ [] ∧ (elementsEnds fuel s).length = arraysList vs + 1) ∧
      ∀ s ms r, members fuel s = some (ms, r) →
        (membersEnds fuel s).length = arraysMembers ms := by
  induction fuel with
  | zero =>
    refine ⟨?_, ?_, ?_⟩ <;> intro s _ r h <;>
      exact absurd h (by simp [value, elements, members])
  | succ fuel ih =>
    obtain ⟨hv, he, hm⟩ := ih
    refine ⟨fun s v r h ↦ ?_, fun s vs r h ↦ ?_, fun s ms r h ↦ ?_⟩
    · cases value_iff.mp h with
      | str hs => rw [valueEnds_of_ne fuel (by simp) (by simp)]; rfl
      | emptyObj hclose => rw [valueEnds_brace, if_pos hclose]; rfl
      | obj hopen hs =>
        rw [valueEnds_brace, if_neg hopen, arrays]
        exact hm _ _ _ hs
      | emptyArr hclose => rw [valueEnds_bracket, if_pos hclose]; rfl
      | arr hopen hs =>
        obtain ⟨hne, hlen⟩ := he _ _ _ hs
        rw [valueEnds_bracket, if_neg hopen, hlen, arrays, if_neg (by simpa using hne)]
      | scalar _ hobj harr hs =>
        rw [arrays_of_scalar hs, valueEnds_of_ne fuel hobj harr]
        rfl
    · cases elements_iff.mp h with
      | last hvt hclose =>
        rw [elementsEnds, hvt]
        simp only [if_pos hclose, List.length_append, hv _ _ _ hvt]
        exact ⟨by simp, rfl⟩
      | @cons t _ _ _ hvt hcomma hs =>
        have hopen : (skipWs t).head? ≠ some 93 := by rw [hcomma]; decide
        rw [elementsEnds, hvt]
        simp only [if_neg hopen, List.length_append, hv _ _ _ hvt, (he _ _ _ hs).2]
        exact ⟨by simp, (Nat.add_assoc _ _ 1).symm⟩
    · cases members_iff.mp h with
      | last hmem hclose =>
        rw [membersEnds, hmem.key]
        simp only [hmem.item, if_pos hclose, List.length_append, hv _ _ _ hmem.item]
        rfl
      | @cons _ u _ _ _ _ hmem hcomma hs =>
        have hopen : (skipWs u).head? ≠ some 125 := by rw [hcomma]; decide
        rw [membersEnds, hmem.key]
        simp only [hmem.item, if_neg hopen, List.length_append, hv _ _ _ hmem.item, hm _ _ _ hs]
        rfl

theorem length_arrayEnds {s : Bytes} {v : Value} (h : loads s = some v) :
    (arrayEnds s).length = arrays v := by
  rw [loads] at h
  split at h
  · exact absurd h (by simp)
  · rename_i hvalue
    split at h
    · obtain rfl := Option.some.inj h
      exact (length_ends _).1 _ _ _ hvalue
    · exact absurd h (by simp)

/-- A comma written at each of these places. -/
def withCommas (places : List ℕ) : Bytes → Bytes
  | [] => []
  | b :: s =>
    if s.length + 1 ∈ places then 44 :: b :: withCommas places s else b :: withCommas places s

end Json
