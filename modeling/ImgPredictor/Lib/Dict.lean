import Mathlib.Data.List.Nodup
import Mathlib.Logic.Basic
import Std.Data.ExtTreeMap
import ImgPredictor.Lib.Bytes

/-!
# Maps keyed by byte strings

`Std.ExtTreeMap` iterates in key order, and two maps are equal when they have the same entries.
Here it is fixed to byte strings in byte order, with the look-up lemmas stated by equality of keys.
-/

set_option autoImplicit false

/-- A map keyed by byte strings, in byte order. -/
abbrev Dict (β : Type) := Std.ExtTreeMap Bytes β compare

namespace Dict

variable {β : Type}

theorem getElem?_insert (m : Dict β) (k a : Bytes) (v : β) :
    (m.insert k v)[a]? = if k = a then some v else m[a]? := by
  rw [Std.ExtTreeMap.getElem?_insert]
  simp only [Std.LawfulEqCmp.compare_eq_iff_eq]

theorem getD_insert (m : Dict β) (k a : Bytes) (v d : β) :
    (m.insert k v).getD a d = if k = a then v else m.getD a d := by
  rw [Std.ExtTreeMap.getD_insert]
  simp only [Std.LawfulEqCmp.compare_eq_iff_eq]

theorem mem_insert (m : Dict β) (k a : Bytes) (v : β) :
    a ∈ m.insert k v ↔ k = a ∨ a ∈ m := by
  rw [Std.ExtTreeMap.mem_insert]
  simp only [Std.LawfulEqCmp.compare_eq_iff_eq]

theorem nodup_toList (m : Dict β) : m.toList.Nodup :=
  m.distinct_keys_toList.imp fun h heq ↦ h (by rw [heq]; exact Std.ReflCmp.compare_self)

/-- **A new key is one more entry.** -/
theorem toList_insertIfNew_perm {m : Dict β} {k : Bytes} (hk : k ∉ m) (v : β) :
    (m.insertIfNew k v).toList.Perm ((k, v) :: m.toList) := by
  have hnew : (k, v) ∉ m.toList := by
    intro hmem
    have hget := Std.ExtTreeMap.mem_toList_iff_getElem?_eq_some.mp hmem
    exact hk (Std.ExtTreeMap.mem_iff_isSome_getElem?.mpr (by rw [hget]; rfl))
  refine (List.perm_ext_iff_of_nodup (nodup_toList _)
    (List.nodup_cons.mpr ⟨hnew, nodup_toList m⟩)).mpr fun ⟨a, w⟩ ↦ ?_
  rw [List.mem_cons, Std.ExtTreeMap.mem_toList_iff_getElem?_eq_some,
    Std.ExtTreeMap.mem_toList_iff_getElem?_eq_some, Std.ExtTreeMap.getElem?_insertIfNew]
  by_cases hka : k = a
  · subst hka
    simp [hk, eq_comm]
  · simp [hka, Std.LawfulEqCmp.compare_eq_iff_eq, Ne.symm hka]

/-- An old key is not. -/
theorem insertIfNew_of_mem {m : Dict β} {k : Bytes} (hk : k ∈ m) (v : β) :
    m.insertIfNew k v = m := by
  refine Std.ExtTreeMap.ext_getElem? fun a ↦ ?_
  rw [Std.ExtTreeMap.getElem?_insertIfNew, if_neg fun h ↦ h.2 hk]

theorem size_pos_iff (m : Dict β) : 0 < m.size ↔ ∃ k, k ∈ m := by
  rw [Nat.pos_iff_ne_zero, ne_eq, ← Std.ExtTreeMap.eq_empty_iff_size_eq_zero,
    Std.ExtTreeMap.eq_empty_iff_forall_not_mem, not_forall_not]

end Dict
