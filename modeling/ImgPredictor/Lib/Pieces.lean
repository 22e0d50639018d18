import Mathlib.Data.List.Infix
import Mathlib.Data.List.Basic
import Mathlib.Data.List.Flatten
import Mathlib.Data.Nat.Find
import Mathlib.Tactic.Common
import ImgPredictor.Lib.Lists

/-!
# Cutting a list at a separator

A separator `p` is itself a list here, of any length, so an occurrence of it may overlap another
one.  Cutting from the left takes the part before the *first* occurrence each time:

* `First p a` says that in `a ++ p` the separator does not occur before the end, so that `a` is the
  piece that is cut off;
* `Cuts p t fields rest` cuts `t` into `fields` as long as `p` occurs, and `rest` is what is left;
* `Blocks p t` says that nothing is left.

Every list can be cut (`exists_cuts`).  What is left after cutting `s ++ p` need not be empty: the
first occurrence may begin in `s` and end in the `p` that was put behind it.  A separator without a
border (`Unbordered`) cannot do that (`Unbordered.first_iff`), and then the pieces are what one
expects: joined they give the list back, and there is one more of them than there are occurrences.
-/

set_option autoImplicit false

namespace Pieces

variable {α : Type} {p a s t rest : List α} {fields : List (List α)}

/-! ## The first occurrence -/

/-- In `a ++ p` the separator `p` does not occur before the end of `a`. -/
def First (p a : List α) : Prop := ∀ k < a.length, ¬p <+: (a ++ p).drop k

instance [DecidableEq α] : Decidable (First p a) :=
  inferInstanceAs (Decidable (∀ k < a.length, ¬p <+: (a ++ p).drop k))

theorem first_nil (p : List α) : First p [] := fun _ hk ↦ absurd hk (Nat.not_lt_zero _)

theorem First.tail {x : α} (h : First p (x :: a)) : First p a := fun k hk ↦
  h (k + 1) (Nat.succ_lt_succ hk)

/-- **What follows the separator does not matter.** -/
theorem First.not_prefix_drop (h : First p a) (t : List α) {k : ℕ} (hk : k < a.length) :
    ¬p <+: (a ++ p ++ t).drop k := by
  intro hpre
  refine h k hk (List.prefix_of_prefix_length_le hpre ?_ ?_)
  · exact (List.prefix_append _ _).drop k
  · rw [List.length_drop, List.length_append]
    omega

theorem First.not_infix_piece (h : First p a) (hp : p ≠ []) : ¬p <:+: a := by
  rintro ⟨x, y, rfl⟩
  have hpos := List.length_pos_iff.mpr hp
  refine h x.length (by simp only [List.length_append]; omega) ?_
  simp only [List.append_assoc, List.drop_left]
  exact List.prefix_append _ _

/-- **Where there is an occurrence there is a first one.** -/
theorem exists_first (h : p <:+: t) : ∃ a t', t = a ++ p ++ t' ∧ First p a := by
  classical
  have hex : ∃ k, p <+: t.drop k := by
    obtain ⟨x, y, rfl⟩ := h
    refine ⟨x.length, ?_⟩
    rw [List.append_assoc, List.drop_left]
    exact List.prefix_append _ _
  obtain ⟨t', ht'⟩ := Nat.find_spec hex
  have heq : t = t.take (Nat.find hex) ++ p ++ t' := by
    rw [List.append_assoc, ht', List.take_append_drop]
  refine ⟨t.take (Nat.find hex), t', heq, fun k hk hpre ↦ ?_⟩
  have hlt : k < Nat.find hex := by
    rw [List.length_take] at hk
    omega
  refine Nat.find_min hex hlt (hpre.trans ?_)
  conv_rhs => rw [heq]
  exact (List.prefix_append _ _).drop k

/-! ## Cutting -/

/-- `t` is cut at the first occurrence of `p`, and again behind it, until there is none. -/
inductive Cuts (p : List α) : List α → List (List α) → List α → Prop
  /-- The separator does not occur: all of it is left. -/
  | stop {t : List α} (h : ¬p <:+: t) : Cuts p t [] t
  /-- The part before the first occurrence is a piece. -/
  | cut {a t rest : List α} {fields : List (List α)} (ha : First p a) (h : Cuts p t fields rest) :
      Cuts p (a ++ p ++ t) (a :: fields) rest

/-- **Every list can be cut.** -/
theorem exists_cuts (hp : p ≠ []) (t : List α) : ∃ fields rest, Cuts p t fields rest := by
  by_cases h : p <:+: t
  · obtain ⟨a, t', heq, ha⟩ := exists_first h
    have hshorter : t'.length < t.length := by
      have hpos := List.length_pos_iff.mpr hp
      rw [heq, List.length_append, List.length_append]
      omega
    obtain ⟨fields, rest, hcuts⟩ := exists_cuts hp t'
    exact ⟨a :: fields, rest, heq ▸ .cut ha hcuts⟩
  · exact ⟨[], t, .stop h⟩
termination_by t.length

namespace Cuts

theorem eq_append (h : Cuts p t fields rest) : t = fields.flatMap (· ++ p) ++ rest := by
  induction h with
  | stop => rfl
  | @cut a t rest fields _ _ ih =>
    rw [List.flatMap_cons, List.append_assoc (a ++ p) _ rest, ← ih]

theorem first (h : Cuts p t fields rest) : ∀ a ∈ fields, First p a := by
  induction h with
  | stop => simp
  | cut ha _ ih => exact List.forall_mem_cons.mpr ⟨ha, ih⟩

theorem not_infix_rest (h : Cuts p t fields rest) : ¬p <:+: rest := by
  induction h with
  | stop h => exact h
  | cut _ _ ih => exact ih

/-- Each piece is at least as long as the separator behind it. -/
theorem length_le (h : Cuts p t fields rest) :
    fields.length * p.length + rest.length ≤ t.length := by
  induction h with
  | stop => simp
  | cut _ _ ih =>
    simp only [List.length_cons, List.length_append, Nat.succ_mul]
    omega

/-- **What is left of a list that ends in the separator is shorter than the separator.** -/
theorem length_rest_lt (h : Cuts p (s ++ p) fields rest) : rest.length < p.length := by
  by_contra hle
  have hsuffix : rest <:+ s ++ p := ⟨fields.flatMap (· ++ p), h.eq_append.symm⟩
  have hp := List.suffix_of_suffix_length_le (List.suffix_append s p) hsuffix (Nat.not_lt.mp hle)
  exact h.not_infix_rest hp.isInfix

end Cuts

/-- `t` is made of pieces that each end in the first occurrence of the separator. -/
def Blocks (p t : List α) : Prop :=
  ∃ fields : List (List α), (∀ a ∈ fields, First p a) ∧ t = fields.flatMap (· ++ p)

theorem cuts_flatMap (hp : p ≠ []) (h : ∀ a ∈ fields, First p a) :
    Cuts p (fields.flatMap (· ++ p)) fields [] := by
  induction fields with
  | nil => exact .stop fun hinfix ↦ hp (List.infix_nil.mp hinfix)
  | cons a fields ih =>
    rw [List.forall_mem_cons] at h
    exact .cut h.1 (ih h.2)

/-- **Blocks are what is cut up with nothing left.** -/
theorem blocks_iff (hp : p ≠ []) : Blocks p t ↔ ∃ fields, Cuts p t fields [] := by
  constructor
  · rintro ⟨fields, hfirst, rfl⟩
    exact ⟨fields, cuts_flatMap hp hfirst⟩
  · rintro ⟨fields, h⟩
    exact ⟨fields, h.first, h.eq_append.trans (List.append_nil _)⟩

/-! ## Joining -/

theorem intercalate_append (p : List α) (h : fields ≠ []) :
    p.intercalate fields ++ p = fields.flatMap (· ++ p) := by
  induction fields with
  | nil => exact absurd rfl h
  | cons a fields ih =>
    cases fields with
    | nil => simp
    | cons b fields =>
      rw [List.intercalate_cons_cons, List.append_assoc, ih (List.cons_ne_nil _ _)]
      rfl

/-- **The pieces of `s ++ p`, when nothing is left, are `s` cut up.** -/
theorem intercalate_eq (h : s ++ p = fields.flatMap (· ++ p)) (hfields : fields ≠ []) :
    p.intercalate fields = s :=
  List.append_cancel_right ((intercalate_append p hfields).trans h.symm)

/-! ## Separators without a border -/

/-- No part of `p` but `p` itself is both at its start and at its end. -/
def Unbordered (p : List α) : Prop := ∀ u, u ≠ [] → u <+: p → u <:+ p → u = p

theorem unbordered_singleton (x : α) : Unbordered [x] := by
  intro u hne _ hsuffix
  refine hsuffix.eq_of_length_le ?_
  exact List.length_pos_iff.mpr hne

theorem Unbordered.not_drop_prefix_self (hp : Unbordered p) {j : ℕ} (hpos : 0 < j)
    (hj : j < p.length) : ¬p.drop j <+: p := by
  intro hborder
  have hlen : (p.drop j).length = p.length - j := List.length_drop
  have hne : p.drop j ≠ [] := List.ne_nil_of_length_pos (by omega)
  have := congrArg List.length (hp _ hne hborder (List.drop_suffix j p))
  omega

/-- **Without a border, an occurrence in `a ++ p` before the end is one in `a`.** -/
theorem Unbordered.first_iff (hp : Unbordered p) (hne : p ≠ []) : First p a ↔ ¬p <:+: a := by
  refine ⟨fun h ↦ h.not_infix_piece hne, fun h k hk hpre ↦ ?_⟩
  have hlen : (a.drop k).length = a.length - k := List.length_drop
  rw [List.drop_append_of_le_length (Nat.le_of_lt hk)] at hpre
  by_cases hfits : p.length ≤ a.length - k
  · -- all of it lies in `a`
    have hin := List.prefix_of_prefix_length_le hpre (List.prefix_append _ _) (by omega)
    exact h (hin.isInfix.trans (List.drop_suffix k a).isInfix)
  · -- it ends in the `p` behind, where an end of it is a start
    refine hp.not_drop_prefix_self (j := a.length - k) (by omega) (by omega) ?_
    have hdrop := hpre.drop (a.length - k)
    rwa [← hlen, List.drop_left, hlen] at hdrop

/-- **Cut up without a border, the last piece is what was left.** -/
theorem Unbordered.blocks_append (hp : Unbordered p) (hne : p ≠ []) (s : List α) :
    Blocks p (s ++ p) := by
  obtain ⟨fields, rest, h⟩ := exists_cuts hne s
  refine ⟨fields ++ [rest], ?_, ?_⟩
  · rw [List.forall_mem_append, List.forall_mem_singleton]
    exact ⟨h.first, (hp.first_iff hne).mpr h.not_infix_rest⟩
  · rw [List.flatMap_append, List.flatMap_singleton, ← List.append_assoc, ← h.eq_append]

/-- **For a separator of one element, cutting is `List.splitOn`.** -/
theorem cuts_splitOn [BEq α] [LawfulBEq α] (x : α) (s : List α) :
    Cuts [x] (s ++ [x]) (s.splitOn x) [] := by
  have hend : Cuts [x] [] [] [] := .stop fun h ↦ List.cons_ne_nil x [] (List.infix_nil.mp h)
  have hfirst (a : List α) (hx : x ∉ a) : First [x] a :=
    ((unbordered_singleton x).first_iff (List.cons_ne_nil x [])).mpr
      fun h ↦ hx (h.subset (List.mem_singleton_self x))
  induction s using Lists.separated_induction x with
  | piece a ha =>
    rw [List.splitOn_eq_singleton ha, ← List.append_nil (a ++ [x])]
    exact .cut (hfirst a ha) hend
  | more a t ha ih =>
    rw [List.splitOn_append_cons_self_of_not_mem ha,
      show a ++ x :: t ++ [x] = a ++ [x] ++ (t ++ [x]) by simp]
    exact .cut (hfirst a ha) ih

/-! ## Counting -/

section Count

variable [DecidableEq α]

/-- The number of positions in `t` at which `p` begins. -/
def occurrences (p t : List α) : ℕ := t.tails.countP fun u ↦ p.isPrefixOf u

theorem occurrences_cons (p : List α) (x : α) (t : List α) :
    occurrences p (x :: t) = occurrences p t + if p <+: x :: t then 1 else 0 := by
  simp only [occurrences, List.tails_cons, List.countP_cons, List.isPrefixOf_iff_prefix]

theorem occurrences_nil (hp : p ≠ []) : occurrences p [] = 0 := by
  cases p with
  | nil => exact absurd rfl hp
  | cons => rfl

/-- Positions at which `p` does not begin are not counted. -/
theorem occurrences_append (h : ∀ k < a.length, ¬p <+: (a ++ t).drop k) :
    occurrences p (a ++ t) = occurrences p t := by
  induction a with
  | nil => rfl
  | cons x a ih =>
    have hx : ¬p <+: x :: (a ++ t) := h 0 (Nat.succ_pos _)
    rw [List.cons_append, occurrences_cons, if_neg hx, Nat.add_zero]
    exact ih fun k hk ↦ h (k + 1) (Nat.succ_lt_succ hk)

theorem occurrences_eq_zero (hp : p ≠ []) (h : ¬p <:+: a) : occurrences p a = 0 := by
  have hnone : ∀ k < a.length, ¬p <+: (a ++ []).drop k := fun k _ hpre ↦ by
    rw [List.append_nil] at hpre
    exact h (hpre.isInfix.trans (List.drop_suffix k a).isInfix)
  rw [← List.append_nil a, occurrences_append hnone, occurrences_nil hp]

/-- **A piece and the separator behind it hold one occurrence.** -/
theorem Unbordered.occurrences_cut (hp : Unbordered p) (hne : p ≠ []) (ha : First p a)
    (t : List α) : occurrences p (a ++ p ++ t) = occurrences p t + 1 := by
  rw [List.append_assoc, occurrences_append fun k hk ↦ by
    rw [← List.append_assoc]; exact ha.not_prefix_drop t hk]
  obtain ⟨x, q, rfl⟩ := List.exists_cons_of_ne_nil hne
  have hx : x :: q <+: x :: (q ++ t) := List.prefix_append (x :: q) t
  rw [List.cons_append, occurrences_cons, if_pos hx]
  congr 1
  refine occurrences_append fun k hk hpre ↦ ?_
  refine hp.not_drop_prefix_self (j := k + 1) (Nat.succ_pos _) (Nat.succ_lt_succ hk) ?_
  rw [List.drop_append_of_le_length (Nat.le_of_lt hk)] at hpre
  exact List.prefix_of_prefix_length_le (List.prefix_append _ _) hpre
    (by rw [List.drop_succ_cons, List.length_drop, List.length_cons]; omega)

/-- **There is one more piece than there are occurrences.** -/
theorem Unbordered.length_eq (hp : Unbordered p) (hne : p ≠ []) (hfirst : ∀ a ∈ fields, First p a)
    (hfields : fields ≠ []) : fields.length = occurrences p (p.intercalate fields) + 1 := by
  induction fields with
  | nil => exact absurd rfl hfields
  | cons a fields ih =>
    rw [List.forall_mem_cons] at hfirst
    cases fields with
    | nil =>
      rw [List.intercalate_singleton, occurrences_eq_zero hne (hfirst.1.not_infix_piece hne)]
      rfl
    | cons b fields =>
      rw [List.intercalate_cons_cons, hp.occurrences_cut hne hfirst.1,
        ← ih hfirst.2 (List.cons_ne_nil _ _), List.length_cons]

end Count

end Pieces
