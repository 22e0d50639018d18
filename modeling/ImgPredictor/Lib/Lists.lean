import Mathlib.Algebra.GroupWithZero.Nat
import Mathlib.Data.List.Flatten
import Mathlib.Data.List.Forall2
import Mathlib.Data.List.Nodup
import Mathlib.Tactic.Common

/-!
# Lists

Facts about lists that Mathlib does not have in this form.
-/

set_option autoImplicit false

namespace Lists

variable {α β : Type}

/-- Leaving elements out of a concatenation keeps it only if they were empty. -/
theorem flatMap_filter_eq_iff (p : α → Bool) (f : α → List β) (l : List α) :
    (l.filter p).flatMap f = l.flatMap f ↔ ∀ a ∈ l, p a = false → f a = [] := by
  induction l with
  | nil => simp
  | cons a l ih =>
    cases ha : p a with
    | true => simp [ha, ih]
    | false =>
      rw [List.filter_cons_of_neg (by simp [ha]), List.flatMap_cons]
      constructor
      · intro h
        have hle := (List.filter_sublist (p := p) (l := l)).flatMap f |>.length_le
        have hfa : f a = [] := by
          have := congrArg List.length h
          rw [List.length_append] at this
          exact List.eq_nil_of_length_eq_zero (by omega)
        rw [hfa, List.nil_append] at h
        intro b hb hpb
        rcases List.mem_cons.mp hb with rfl | hb
        · exact hfa
        · exact ih.mp h b hb hpb
      · intro h
        rw [h a (by simp) ha, List.nil_append]
        exact ih.mpr fun b hb ↦ h b (List.mem_cons_of_mem _ hb)

/-- Two tables with the same keys and related entries: what is found in one has its counterpart in
the other. -/
theorem lookup_of_forall₂ {κ α β : Type} [BEq κ] {R : α → β → Prop} {l : List (κ × α)}
    {l' : List (κ × β)} (h : List.Forall₂ (fun x y ↦ x.1 = y.1 ∧ R x.2 y.2) l l') {k : κ} {a : α}
    (hk : l.lookup k = some a) : ∃ b, l'.lookup k = some b ∧ R a b := by
  induction h with
  | nil => exact absurd hk (by simp)
  | @cons x y l l' hxy _ ih =>
    obtain ⟨k', a'⟩ := x
    obtain ⟨k'', b'⟩ := y
    obtain ⟨rfl, hR⟩ := hxy
    rw [List.lookup_cons] at hk ⊢
    cases hkk : k == k' with
    | true =>
      rw [hkk] at hk
      obtain rfl := Option.some.inj hk
      exact ⟨b', rfl, hR⟩
    | false =>
      rw [hkk] at hk
      exact ih hk

theorem map_eq_map_iff_forall₂ {γ : Type} {f : α → γ} {g : β → γ} {l : List α} {l' : List β} :
    l.map f = l'.map g ↔ List.Forall₂ (fun a b ↦ f a = g b) l l' := by
  rw [← List.forall₂_map_right_iff, ← List.forall₂_map_left_iff, List.forall₂_eq_eq_eq]

/-- Elements that each have a counterpart make a list of counterparts. -/
theorem exists_forall₂ {R : α → β → Prop} {l : List α} (h : ∀ a ∈ l, ∃ b, R a b) :
    ∃ l', List.Forall₂ R l l' := by
  induction l with
  | nil => exact ⟨[], .nil⟩
  | cons a l ih =>
    obtain ⟨b, hb⟩ := h a List.mem_cons_self
    obtain ⟨l', hl'⟩ := ih fun x hx ↦ h x (List.mem_cons_of_mem _ hx)
    exact ⟨b :: l', .cons hb hl'⟩

/-- A partial function that is defined on all of a list. -/
theorem mapM_eq_some_iff {f : α → Option β} {l : List α} {l' : List β} :
    l.mapM f = some l' ↔ l.map f = l'.map some := by
  induction l generalizing l' with
  | nil =>
    cases l' <;> simp
  | cons a l ih =>
    rw [List.mapM_cons]
    cases l' with
    | nil => simp [Option.bind_eq_some_iff]
    | cons b l' => simp [Option.bind_eq_some_iff, ← ih]

/-- What is in lists joined by an element. -/
theorem mem_intercalate {c b : α} {ls : List (List α)} (h : b ∈ [c].intercalate ls) :
    b = c ∨ ∃ l ∈ ls, b ∈ l := by
  induction ls with
  | nil => exact absurd h (by simp)
  | cons l ls ih =>
    cases ls with
    | nil =>
      rw [List.intercalate_singleton] at h
      exact .inr ⟨l, List.mem_cons_self, h⟩
    | cons m ms =>
      rw [List.intercalate_cons_cons, List.append_assoc, List.mem_append, List.mem_append,
        List.mem_singleton] at h
      rcases h with h | h | h
      · exact .inr ⟨l, List.mem_cons_self, h⟩
      · exact .inl h
      · rcases ih h with rfl | ⟨l', hmem, hb⟩
        · exact .inl rfl
        · exact .inr ⟨l', List.mem_cons_of_mem _ hmem, hb⟩

theorem lookup_eq_none_iff {κ α : Type} [BEq κ] [LawfulBEq κ] {l : List (κ × α)} {k : κ} :
    l.lookup k = none ↔ k ∉ l.map Prod.fst := by
  rw [List.lookup_eq_none_iff]
  simp only [List.mem_map, not_exists, not_and, bne_iff_ne, ne_comm]

/-- **A run and what stops it**, taken apart again. -/
theorem takeWhile_append_of_boundary {p : α → Bool} {w rest : List α} (hw : ∀ x ∈ w, p x = true)
    (hrest : ∀ x ∈ rest.head?, p x = false) :
    (w ++ rest).takeWhile p = w ∧ (w ++ rest).dropWhile p = rest := by
  rw [List.takeWhile_append_of_pos hw, List.dropWhile_append_of_pos hw]
  cases rest with
  | nil => simp
  | cons x rest => simp [hrest x rfl]

/-- The first separator is where it is. -/
theorem append_cons_inj_of_notMem [DecidableEq α] {a b t u : List α} {c : α} (ha : c ∉ a)
    (hb : c ∉ b) (h : a ++ c :: t = b ++ c :: u) : a = b ∧ t = u := by
  have hcut : ∀ {w : List α} (rest : List α), c ∉ w →
      (w ++ c :: rest).takeWhile (· != c) = w ∧ (w ++ c :: rest).dropWhile (· != c) = c :: rest :=
    fun _ hw ↦ takeWhile_append_of_boundary
      (fun x hx ↦ by simpa using fun hxc : x = c ↦ hw (hxc ▸ hx)) (by simp)
  refine ⟨?_, ?_⟩
  · rw [← (hcut t ha).1, h, (hcut u hb).1]
  · have := (hcut t ha).2
    rw [h, (hcut u hb).2] at this
    exact (List.cons.inj this).2.symm

/-- A list is a piece without the separator, or such a piece, the separator and a list. -/
theorem separated_induction {P : List α → Prop} (c : α) (piece : ∀ a, c ∉ a → P a)
    (more : ∀ a t, c ∉ a → P t → P (a ++ c :: t)) (t : List α) : P t := by
  classical
  suffices h : ∀ a, c ∉ a → P (a ++ t) from h [] (by simp)
  induction t with
  | nil => intro a ha; simpa using piece a ha
  | cons x t ih =>
    intro a ha
    by_cases hx : x = c
    · subst hx
      exact more a t ha (ih [] (by simp))
    · simpa using ih (a ++ [x]) (by simp [ha, Ne.symm hx])

/-- A list, and a beginning of it, taken apart at two elements. -/
theorem exists_eq_append_of_lt {l : List α} {i j : ℕ} (hij : i < j) (hj : j < l.length) :
    ∃ b c, l = l.take i ++ l[i] :: (b ++ l[j] :: c) ∧
      l.take (j + 1) = l.take i ++ l[i] :: (b ++ [l[j]]) := by
  have hmid : l.take j = l.take i ++ l[i] :: (l.take j).drop (i + 1) := by
    have hi : i < (l.take j).length := by
      rw [List.length_take]
      omega
    calc l.take j = (l.take j).take i ++ (l.take j).drop i := (List.take_append_drop ..).symm
      _ = l.take i ++ l[i] :: (l.take j).drop (i + 1) := by
          rw [List.take_take, Nat.min_eq_left (Nat.le_of_lt hij), List.drop_eq_getElem_cons hi,
            List.getElem_take]
  refine ⟨(l.take j).drop (i + 1), l.drop (j + 1), ?_, ?_⟩
  · calc l = l.take j ++ l.drop j := (List.take_append_drop ..).symm
      _ = l.take j ++ l[j] :: l.drop (j + 1) := by rw [List.drop_eq_getElem_cons hj]
      _ = _ := by
          nth_rewrite 1 [hmid]
          simp
  · rw [List.take_succ_eq_append_getElem hj]
    nth_rewrite 1 [hmid]
    simp

/-! ## Parts -/

section Parts

variable {ι : Type} [DecidableEq ι]

/-- The elements with a tag. -/
def partOf (i : ι) (l : List (ι × α)) : List α := (l.filter (·.1 = i)).map Prod.snd

theorem mem_partOf {i : ι} {l : List (ι × α)} {a : α} : a ∈ partOf i l ↔ (i, a) ∈ l := by
  simp [partOf]

theorem partOf_cons_self (i : ι) (a : α) (l : List (ι × α)) :
    partOf i ((i, a) :: l) = a :: partOf i l := by
  simp [partOf]

theorem partOf_cons_of_ne {i j : ι} (h : j ≠ i) (a : α) (l : List (ι × α)) :
    partOf i ((j, a) :: l) = partOf i l := by
  simp [partOf, h]

theorem partOf_cons_sublist (i : ι) (p : ι × α) (l : List (ι × α)) :
    (partOf i l).Sublist (partOf i (p :: l)) :=
  ((List.sublist_cons_self p l).filter _).map _

theorem partOf_perm {l l' : List (ι × α)} (h : l.Perm l') (i : ι) :
    (partOf i l).Perm (partOf i l') :=
  (h.filter _).map _

theorem map_partOf (f : α → β) (i : ι) (l : List (ι × α)) :
    (partOf i l).map f = partOf i (l.map (Prod.map id f)) := by
  simp [partOf, List.filter_map, Function.comp_def]

theorem partOf_map_of_injective {κ : Type} [DecidableEq κ] {f : ι → κ} (hf : Function.Injective f)
    (i : ι) (l : List (ι × α)) : partOf (f i) (l.map (Prod.map f id)) = partOf i l := by
  simp [partOf, List.filter_map, Function.comp_def, hf.eq_iff]

end Parts

/-! ## A key at a time -/

section ByKey

variable {κ : Type} [DecidableEq κ] (key : α → κ)

/-- The elements with these keys, a key at a time. -/
def byKey (keys : List κ) (l : List α) : List α := keys.flatMap fun k ↦ l.filter (key · = k)

theorem byKey_cons (k : κ) (keys : List κ) (l : List α) :
    byKey key (k :: keys) l = l.filter (key · = k) ++ byKey key keys l := rfl

theorem byKey_append (keys keys' : List κ) (l : List α) :
    byKey key (keys ++ keys') l = byKey key keys l ++ byKey key keys' l :=
  List.flatMap_append

theorem filter_byKey (keys : List κ) (p : α → Bool) (l : List α) :
    (byKey key keys l).filter p = byKey key keys (l.filter p) := by
  simp only [byKey, List.filter_flatMap, List.filter_filter, Bool.and_comm]

variable {key} {keys : List κ} {l : List α}

theorem byKey_eq_nil (h : ∀ a ∈ l, key a ∉ keys) : byKey key keys l = [] := by
  rw [byKey, List.flatMap_eq_nil_iff]
  intro k hk
  rw [List.filter_eq_nil_iff]
  intro a ha hka
  obtain rfl : key a = k := by simpa using hka
  exact h a ha hk

/-- Keys that no element has can be left out. -/
theorem byKey_filter_keys {p : κ → Bool} (h : ∀ a ∈ l, p (key a) = true) :
    byKey key (keys.filter p) l = byKey key keys l := by
  refine (flatMap_filter_eq_iff p _ keys).mpr ?_
  intro k _ hp
  rw [List.filter_eq_nil_iff]
  intro a ha hka
  obtain rfl : key a = k := by simpa using hka
  exact absurd (h a ha) (by simp [hp])

/-- A key that is not asked for does not matter. -/
theorem byKey_cons_of_notMem {a : α} (ha : key a ∉ keys) :
    byKey key keys (a :: l) = byKey key keys l := by
  refine List.flatMap_congr fun k hk ↦ ?_
  have hne : key a ≠ k := fun h ↦ ha (h ▸ hk)
  simp [hne]

/-- Among different keys, one key is asked for once. -/
theorem filter_key_byKey (hnodup : keys.Nodup) {k : κ} (hk : k ∈ keys) (l : List α) :
    (byKey key keys l).filter (key · = k) = l.filter (key · = k) := by
  obtain ⟨before, after, rfl⟩ := List.append_of_mem hk
  have hnotMem : k ∉ before ++ after := (List.nodup_middle.mp hnodup).notMem
  have hother : ∀ a ∈ l.filter (key · = k), key a ∉ before ++ after := by
    intro a ha
    obtain rfl : key a = k := by simpa using (List.mem_filter.mp ha).2
    exact hnotMem
  rw [filter_byKey, byKey_append, byKey_cons, List.filter_filter, byKey_eq_nil, byKey_eq_nil]
  · simp
  · exact fun a ha hmem ↦ hother a ha (List.mem_append_right _ hmem)
  · exact fun a ha hmem ↦ hother a ha (List.mem_append_left _ hmem)

/-- In the order of its own keys, a list with different keys stays as it is. -/
theorem byKey_map (hnodup : (l.map key).Nodup) : byKey key (l.map key) l = l := by
  induction l with
  | nil => rfl
  | cons a l ih =>
    rw [List.map_cons, List.nodup_cons] at hnodup
    have hfilter : l.filter (key · = key a) = [] := by
      rw [List.filter_eq_nil_iff]
      intro b hb hkey
      exact hnodup.1 (List.mem_map.mpr ⟨b, hb, by simpa using hkey⟩)
    rw [List.map_cons, byKey_cons, byKey_cons_of_notMem hnodup.1, ih hnodup.2,
      List.filter_cons_of_pos (by simp), hfilter]
    rfl

/-- Nothing is dropped if all keys are asked for. -/
theorem byKey_perm (hnodup : keys.Nodup) (h : ∀ a ∈ l, key a ∈ keys) :
    (byKey key keys l).Perm l := by
  induction l with
  | nil => simp [byKey]
  | cons a l ih =>
    obtain ⟨before, after, rfl⟩ := List.append_of_mem (h a List.mem_cons_self)
    have hnotMem : key a ∉ before ++ after := (List.nodup_middle.mp hnodup).notMem
    rw [List.mem_append, not_or] at hnotMem
    have ih := ih fun b hb ↦ h b (List.mem_cons_of_mem _ hb)
    rw [byKey_append, byKey_cons] at ih ⊢
    rw [byKey_cons_of_notMem hnotMem.1, byKey_cons_of_notMem hnotMem.2,
      List.filter_cons_of_pos (by simp), List.cons_append]
    exact List.perm_middle.trans (ih.cons a)

end ByKey

/-! ## Sums -/

/-- In a sum over different keys, one key has one term. -/
theorem sum_map_ite_of_nodup {κ : Type} [DecidableEq κ] {ks : List κ} (hnodup : ks.Nodup) (k : κ)
    (f : κ → ℕ) :
    (ks.map fun k' ↦ if k' = k then f k' else 0).sum = if k ∈ ks then f k else 0 := by
  induction ks with
  | nil => rfl
  | cons k' ks ih =>
    obtain ⟨hk', hnodup⟩ := List.nodup_cons.mp hnodup
    rw [List.map_cons, List.sum_cons, ih hnodup]
    by_cases hk : k' = k
    · subst hk
      simp [hk']
    · simp [hk, Ne.symm hk]

/-- Counting is summing up ones. -/
theorem countP_eq_sum (p : α → Bool) (l : List α) :
    l.countP p = (l.map fun a ↦ (p a).toNat).sum := by
  induction l with
  | nil => rfl
  | cons a l ih =>
    rw [List.countP_cons, List.map_cons, List.sum_cons, ih, Nat.add_comm]
    cases p a <;> rfl

/-! ## Counting by groups -/

section Groups

variable {κ : Type} [BEq κ] [LawfulBEq κ] {f : α → Option κ}

theorem countP_group_add {k : κ} {ks : List κ} (hk : k ∉ ks) (xs : List α) :
    xs.countP (fun x ↦ f x == some k) + xs.countP (fun x ↦ (f x).any ks.contains)
      = xs.countP (fun x ↦ (f x).any (k :: ks).contains) := by
  induction xs with
  | nil => rfl
  | cons x xs ih =>
    rw [List.countP_cons, List.countP_cons, List.countP_cons, ← ih]
    cases hx : f x with
    | none => simp
    | some k' =>
      by_cases hkk : k' = k
      · simp [hkk, hk]
        omega
      · simp [hkk]
        omega

/-- **Counting group by group is counting**, if every element belongs to one of the groups. -/
theorem sum_countP_groups {ks : List κ} (hnodup : ks.Nodup) {xs : List α}
    (h : ∀ x ∈ xs, ∀ k, f x = some k → k ∈ ks) :
    (ks.map fun k ↦ xs.countP fun x ↦ f x == some k).sum = xs.countP fun x ↦ (f x).isSome := by
  have hgroups : (ks.map fun k ↦ xs.countP fun x ↦ f x == some k).sum
      = xs.countP fun x ↦ (f x).any ks.contains := by
    clear h
    induction ks with
    | nil =>
      symm
      rw [List.map_nil, List.sum_nil, List.countP_eq_zero]
      intro x _
      cases f x <;> simp
    | cons k ks ih =>
      obtain ⟨hk, hnodup⟩ := List.nodup_cons.mp hnodup
      rw [List.map_cons, List.sum_cons, ih hnodup, countP_group_add hk]
  rw [hgroups]
  refine List.countP_congr fun x hx ↦ ?_
  cases hf : f x with
  | none => simp
  | some k => simpa using h x hx k hf

end Groups

end Lists
