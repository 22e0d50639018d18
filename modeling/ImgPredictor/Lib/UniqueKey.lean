import Mathlib.Data.List.Nodup
import ImgPredictor.Lib.Lists

/-!
# Tables with a unique key

A table has a unique key if it refuses a row whose key is there already.  Several writers insert
into it, in any order that keeps the order of each.

* `refused_eq_nil_iff` — nothing is refused exactly if all keys are different.
* `Table.find_insertAll` — the row under a key is the first that was inserted with it.
* `Table.rows_insertAll_coarser_iff` — a key that tells fewer rows apart keeps the same rows exactly
  if it tells those apart that were inserted.
* `nodup_keys_iff` — the keys of several writers are all different exactly if those of each are, and
  no two of them have one in common.  The order they write in does not show.
-/

set_option autoImplicit false

namespace UniqueKey

open Lists

variable {ρ κ : Type} {key : ρ → κ}

/-! ## Tables -/

/-- Rows with different keys, in the order they came. -/
structure Table (key : ρ → κ) where
  /-- The rows. -/
  rows : List ρ
  /-- No two rows have the same key. -/
  unique : (rows.map key).Nodup

namespace Table

/-- A table without rows. -/
def empty : Table key := ⟨[], .nil⟩

variable [DecidableEq κ]

/-- Inserting a row.  `none` is a refusal. -/
def insert (t : Table key) (r : ρ) : Option (Table key) :=
  if h : key r ∈ t.rows.map key then none
  else some ⟨t.rows ++ [r], by
    rw [List.map_append, List.nodup_append]
    refine ⟨t.unique, List.nodup_singleton _, fun k hk k' hk' hkk ↦ h ?_⟩
    rw [← List.mem_singleton.mp hk', ← hkk]
    exact hk⟩

/-- Inserting rows one by one, with the rows that were refused. -/
def insertAll (t : Table key) : List ρ → Table key × List ρ
  | [] => (t, [])
  | r :: rs =>
    match t.insert r with
    | none => ((t.insertAll rs).1, r :: (t.insertAll rs).2)
    | some t' => t'.insertAll rs

theorem insert_eq_none_iff {t : Table key} {r : ρ} :
    t.insert r = none ↔ key r ∈ t.rows.map key := by
  rw [insert]
  split
  · exact iff_of_true rfl ‹_›
  · exact iff_of_false (by simp) ‹_›

theorem rows_insert {t t' : Table key} {r : ρ} (h : t.insert r = some t') :
    t'.rows = t.rows ++ [r] := by
  rw [insert] at h
  split at h
  · exact absurd h (by simp)
  · exact (Option.some.inj h) ▸ rfl

/-- **Nothing is refused exactly if all keys are different.** -/
theorem refused_eq_nil_iff (t : Table key) (rs : List ρ) :
    (t.insertAll rs).2 = [] ↔ ((t.rows ++ rs).map key).Nodup := by
  induction rs generalizing t with
  | nil => simpa [insertAll] using t.unique
  | cons r rs ih =>
    rw [insertAll]
    rcases ht : t.insert r with _ | t'
    · refine iff_of_false (List.cons_ne_nil _ _) fun h ↦ ?_
      rw [List.map_append, List.nodup_append] at h
      exact h.2.2 _ (insert_eq_none_iff.mp ht) _ (by simp) rfl
    · show (t'.insertAll rs).2 = [] ↔ _
      rw [ih, rows_insert ht, List.append_assoc, List.singleton_append]

/-- If nothing is refused, all is there. -/
theorem rows_insertAll {t : Table key} {rs : List ρ} (h : (t.insertAll rs).2 = []) :
    (t.insertAll rs).1.rows = t.rows ++ rs := by
  induction rs generalizing t with
  | nil => simp [insertAll]
  | cons r rs ih =>
    rw [insertAll] at h ⊢
    rcases ht : t.insert r with _ | t'
    · rw [ht] at h
      exact absurd h (List.cons_ne_nil _ _)
    · rw [ht] at h
      show (t'.insertAll rs).1.rows = _
      rw [ih h, rows_insert ht, List.append_assoc, List.singleton_append]

/-- Everything is there and nothing is refused exactly if all keys are different. -/
theorem insertAll_empty_iff {rs : List ρ} :
    ((empty : Table key).insertAll rs).1.rows = rs ∧ ((empty : Table key).insertAll rs).2 = [] ↔
      (rs.map key).Nodup := by
  have hrefused := refused_eq_nil_iff (empty : Table key) rs
  exact ⟨fun h ↦ hrefused.mp h.2,
    fun h ↦ ⟨rows_insertAll (hrefused.mpr h), hrefused.mpr h⟩⟩

/-- What is there was inserted, in that order. -/
theorem rows_insertAll_sublist (t : Table key) (rs : List ρ) :
    (t.insertAll rs).1.rows.Sublist (t.rows ++ rs) := by
  induction rs generalizing t with
  | nil => rw [insertAll, List.append_nil]
  | cons r rs ih =>
    rw [insertAll]
    rcases ht : t.insert r with _ | t'
    · exact (ih t).trans ((List.sublist_cons_self r rs).append_left t.rows)
    · have := ih t'
      rwa [rows_insert ht, List.append_assoc, List.singleton_append] at this

/-! ## Inserting more than once -/

/-- The row under a key. -/
def find (t : Table key) (k : κ) : Option ρ := t.rows.find? fun r ↦ key r = k

/-- **The row under a key is the first that was inserted with it.** -/
theorem find_insertAll (t : Table key) (rs : List ρ) (k : κ) :
    (t.insertAll rs).1.find k = (t.rows ++ rs).find? fun r ↦ key r = k := by
  induction rs generalizing t with
  | nil => rw [insertAll, find, List.append_nil]
  | cons r rs ih =>
    rw [insertAll]
    rcases ht : t.insert r with _ | t'
    · show (t.insertAll rs).1.find k = _
      obtain ⟨r', hr', hkey⟩ := List.mem_map.mp (insert_eq_none_iff.mp ht)
      rw [ih, List.find?_append, List.find?_append, List.find?_cons]
      -- the refused row comes after one with its key
      by_cases hk : key r = k
      · have hsome : (t.rows.find? fun r ↦ key r = k).isSome = true :=
          List.find?_isSome.mpr ⟨r', hr', by simp [hkey, hk]⟩
        obtain ⟨r'', hr''⟩ := Option.isSome_iff_exists.mp hsome
        rw [hr'', Option.some_or, Option.some_or]
      · simp [hk]
    · show (t'.insertAll rs).1.find k = _
      rw [ih, rows_insert ht, List.append_assoc, List.singleton_append]

theorem mem_rows_iff {t : Table key} {r : ρ} : r ∈ t.rows ↔ t.find (key r) = some r := by
  constructor
  · intro h
    obtain ⟨r', hr'⟩ := Option.isSome_iff_exists.mp
      (List.find?_isSome (p := fun r' ↦ key r' = key r).mpr ⟨r, h, by simp⟩)
    have hkey : key r' = key r := by simpa using List.find?_some hr'
    rw [find, hr', List.inj_on_of_nodup_map t.unique (List.mem_of_find?_eq_some hr') h hkey]
  · exact List.mem_of_find?_eq_some

/-- **Rows that can be told apart by their keys can be inserted any number of times**: all are
there, and nothing else is. -/
theorem mem_rows_insertAll_iff {t : Table key} {rs : List ρ}
    (hinj : ∀ r ∈ t.rows ++ rs, ∀ r' ∈ t.rows ++ rs, key r = key r' → r = r') {r : ρ} :
    r ∈ (t.insertAll rs).1.rows ↔ r ∈ t.rows ++ rs := by
  rw [mem_rows_iff, find_insertAll]
  constructor
  · exact List.mem_of_find?_eq_some
  · intro h
    obtain ⟨r', hr'⟩ := Option.isSome_iff_exists.mp
      (List.find?_isSome (p := fun r' ↦ key r' = key r).mpr ⟨r, h, by simp⟩)
    have hkey : key r' = key r := by simpa using List.find?_some hr'
    rw [hr', hinj r' (List.mem_of_find?_eq_some hr') r h hkey]

/-- Under the key of a row that was inserted there is a row. -/
theorem key_mem_insertAll (t : Table key) {rs : List ρ} {r : ρ} (h : r ∈ rs) :
    key r ∈ (t.insertAll rs).1.rows.map key := by
  have hfound : ((t.insertAll rs).1.find (key r)).isSome = true := by
    rw [find_insertAll]
    exact List.find?_isSome.mpr ⟨r, List.mem_append_right _ h, by simp⟩
  obtain ⟨r', hr'⟩ := Option.isSome_iff_exists.mp hfound
  exact List.mem_map.mpr ⟨r', List.mem_of_find?_eq_some hr', by simpa using List.find?_some hr'⟩

/-- A row is refused for one that is there. -/
theorem key_mem_of_refused {t : Table key} {rs : List ρ} {r : ρ} (h : r ∈ (t.insertAll rs).2) :
    r ∈ rs ∧ key r ∈ (t.insertAll rs).1.rows.map key := by
  have hmem : r ∈ rs := by
    induction rs generalizing t with
    | nil => exact absurd h List.not_mem_nil
    | cons r' rs ih =>
      rw [insertAll] at h
      rcases ht : t.insert r' with _ | t'
      · rw [ht] at h
        rcases List.mem_cons.mp h with rfl | h
        · exact List.mem_cons_self
        · exact List.mem_cons_of_mem _ (ih h)
      · rw [ht] at h
        exact List.mem_cons_of_mem _ (ih h)
  exact ⟨hmem, key_mem_insertAll t hmem⟩

/-! ## Other keys -/

section Other

variable {ρ' κ' : Type} [DecidableEq κ']

/-- **Rows may be written another way**, as long as the same ones have the same key. -/
theorem insertAll_map {key' : ρ' → κ'} {f : ρ → ρ'} {t : Table key} {t' : Table key'}
    {rs : List ρ}
    (hkey : ∀ r ∈ t.rows ++ rs, ∀ r' ∈ t.rows ++ rs, key' (f r) = key' (f r') ↔ key r = key r')
    (ht : t'.rows = t.rows.map f) :
    (t'.insertAll (rs.map f)).1.rows = (t.insertAll rs).1.rows.map f ∧
      (t'.insertAll (rs.map f)).2 = (t.insertAll rs).2.map f := by
  induction rs generalizing t t' with
  | nil => exact ⟨ht, rfl⟩
  | cons r rs ih =>
    have hnone : t'.insert (f r) = none ↔ t.insert r = none := by
      rw [insert_eq_none_iff, insert_eq_none_iff, ht, List.map_map, List.mem_map, List.mem_map]
      exact exists_congr fun r' ↦ and_congr_right fun hr' ↦
        hkey r' (List.mem_append_left _ hr') r (by simp)
    rw [List.map_cons, insertAll, insertAll]
    rcases hins : t.insert r with _ | u
    · rw [hnone.mpr hins]
      have hmem := ((List.sublist_cons_self r rs).append_left t.rows).subset
      obtain ⟨hrows, hrefused⟩ := ih (fun a ha b hb ↦ hkey a (hmem ha) b (hmem hb)) ht
      exact ⟨hrows, congrArg (f r :: ·) hrefused⟩
    · rcases hins' : t'.insert (f r) with _ | u'
      · exact absurd (hnone.mp hins') (by simp [hins])
      · refine ih ?_ ?_
        · rw [rows_insert hins, List.append_assoc]
          exact hkey
        · rw [rows_insert hins, rows_insert hins', ht, List.map_append, List.map_singleton]

variable {key' : ρ → κ'} (hcoarse : ∀ r r', key r = key r' → key' r = key' r')
include hcoarse

/-- **A key that tells fewer rows apart keeps fewer rows.** -/
theorem rows_insertAll_coarser {t : Table key} {t' : Table key'}
    (hsub : t'.rows.Sublist t.rows) (hall : ∀ r ∈ t.rows, key' r ∈ t'.rows.map key')
    (rs : List ρ) : (t'.insertAll rs).1.rows.Sublist (t.insertAll rs).1.rows := by
  induction rs generalizing t t' with
  | nil => exact hsub
  | cons r rs ih =>
    rw [insertAll, insertAll]
    rcases ht : t.insert r with _ | u
    · -- what the finer key refuses the coarser one refuses too
      obtain ⟨r', hr', hkey⟩ := List.mem_map.mp (insert_eq_none_iff.mp ht)
      have ht' : t'.insert r = none :=
        insert_eq_none_iff.mpr (hcoarse r' r hkey ▸ hall r' hr')
      rw [ht']
      exact ih hsub hall
    · have hrows := rows_insert ht
      rcases ht' : t'.insert r with _ | u'
      · refine ih ?_ ?_
        · exact hrows ▸ hsub.trans (List.sublist_append_left t.rows [r])
        · intro r' hr'
          rw [hrows, List.mem_append, List.mem_singleton] at hr'
          rcases hr' with hr' | rfl
          · exact hall r' hr'
          · exact insert_eq_none_iff.mp ht'
      · have hrows' := rows_insert ht'
        refine ih ?_ ?_
        · exact hrows ▸ hrows' ▸ hsub.append_right [r]
        · intro r' hr'
          rw [hrows, List.mem_append] at hr'
          rw [hrows', List.map_append, List.mem_append]
          exact hr'.imp (hall r') fun h ↦ List.mem_map_of_mem h

/-- **It keeps all of them exactly if it tells these rows apart.** -/
theorem rows_insertAll_coarser_iff (rs : List ρ) :
    ((empty : Table key').insertAll rs).1.rows = ((empty : Table key).insertAll rs).1.rows ↔
      ∀ r ∈ rs, ∀ r' ∈ rs, key' r = key' r' → key r = key r' := by
  constructor
  · intro h r hr r' hr' hkey
    obtain ⟨x, hx, hxr⟩ := List.mem_map.mp (key_mem_insertAll (empty : Table key) hr)
    obtain ⟨x', hx', hxr'⟩ := List.mem_map.mp (key_mem_insertAll (empty : Table key) hr')
    have hsame : key' x = key' x' := by
      rw [hcoarse x r hxr, hcoarse x' r' hxr', hkey]
    rw [← h] at hx hx'
    rw [← hxr, ← hxr', List.inj_on_of_nodup_map (Table.unique _) hx hx' hsame]
  · intro h
    have hmap := @insertAll_map ρ κ key _ ρ κ' _ key' id empty empty rs
      (fun r hr r' hr' ↦ ⟨h r hr r' hr', hcoarse r r'⟩) rfl
    simpa using hmap.1

end Other

end Table

/-! ## Writers -/

section Writers

variable {ι : Type} [DecidableEq ι]

/-- The rows of several writers, each with its writer, in an order that keeps the order of each. -/
def Interleaving (written : ι → List ρ) (rows : List (ι × ρ)) : Prop :=
  ∀ i, partOf i rows = written i

/-- **The keys are all different exactly if those of each writer are, and no two writers have one in
common.** -/
theorem nodup_keys_iff (rows : List (ι × ρ)) :
    (rows.map fun p ↦ key p.2).Nodup ↔
      (∀ i, ((partOf i rows).map key).Nodup) ∧
        ∀ i j, i ≠ j → ∀ r ∈ partOf i rows, ∀ r' ∈ partOf j rows, key r ≠ key r' := by
  constructor
  · intro h
    refine ⟨fun i ↦ ?_, fun i j hij r hr r' hr' hkey ↦ hij ?_⟩
    · rw [partOf, List.map_map]
      exact h.sublist (List.filter_sublist.map _)
    · exact congrArg Prod.fst
        (List.inj_on_of_nodup_map h (mem_partOf.mp hr) (mem_partOf.mp hr') hkey)
  · rintro ⟨hown, hother⟩
    induction rows with
    | nil => exact .nil
    | cons p rows ih =>
      obtain ⟨i, r⟩ := p
      have hsub := fun j ↦ partOf_cons_sublist j (i, r) rows
      rw [List.map_cons, List.nodup_cons]
      refine ⟨fun hmem ↦ ?_, ih (fun j ↦ (hown j).sublist ((hsub j).map key))
        fun j k hjk a ha b hb ↦ hother j k hjk a ((hsub j).subset ha) b ((hsub k).subset hb)⟩
      obtain ⟨⟨j, r'⟩, hp, hkey⟩ := List.mem_map.mp hmem
      have hr' := mem_partOf.mpr hp
      rcases eq_or_ne j i with rfl | hji
      · -- the writer has a row with that key already
        have hnodup := hown j
        rw [partOf_cons_self, List.map_cons, List.nodup_cons] at hnodup
        exact hnodup.1 (List.mem_map.mpr ⟨r', hr', hkey⟩)
      · exact hother j i hji r' ((hsub j).subset hr') r (mem_partOf.mpr List.mem_cons_self) hkey

end Writers

end UniqueKey
