import Mathlib.Data.List.TakeWhile

/-!
# The words of a list

`wordsBy p s` cuts `s` at the elements `p` holds of and leaves out the empty pieces.

The two ways to come by the words of a list are `wordsBy_append_cons`, which splits it at a
separator, and `wordsBy_eq_cons`, which takes the first word off the front the way a reader does.
-/

set_option autoImplicit false

namespace Lists

variable {α : Type} {p : α → Bool}

/-- The maximal runs of elements `p` does not hold of. -/
def wordsBy (p : α → Bool) (s : List α) : List (List α) :=
  (s.splitOnP p).filter fun w ↦ !w.isEmpty

@[simp] theorem wordsBy_nil : wordsBy p [] = [] := by simp [wordsBy, List.splitOnP_nil]

/-- **Words split at a separator.** -/
theorem wordsBy_append_cons (s t : List α) {c : α} (hc : p c = true) :
    wordsBy p (s ++ c :: t) = wordsBy p s ++ wordsBy p t := by
  rw [wordsBy, List.splitOnP_append_cons s t hc, List.filter_append]
  rfl

theorem wordsBy_cons (s : List α) {c : α} (hc : p c = true) :
    wordsBy p (c :: s) = wordsBy p s := by
  simpa using wordsBy_append_cons [] s hc

theorem ne_nil_of_mem_wordsBy {s w : List α} (h : w ∈ wordsBy p s) : w ≠ [] := by
  simpa using (List.mem_filter.mp h).2

/-- A word has no separator in it. -/
theorem notSeparator_of_mem_wordsBy {s w : List α} (h : w ∈ wordsBy p s) :
    ∀ c ∈ w, p c = false := by
  have hpieces : ∀ w ∈ s.splitOnP p, ∀ c ∈ w, p c = false := by
    clear h
    induction s with
    | nil => simp [List.splitOnP_nil]
    | cons c s ih =>
      rw [List.splitOnP_cons_eq_if_modifyHead]
      split
      · rw [List.forall_mem_cons]
        exact ⟨fun _ hmem ↦ absurd hmem List.not_mem_nil, ih⟩
      · rename_i hc
        cases hpieces : s.splitOnP p with
        | nil => exact absurd hpieces (List.splitOnP_ne_nil p s)
        | cons piece pieces =>
          rw [hpieces, List.forall_mem_cons] at ih
          rw [List.modifyHead_cons, List.forall_mem_cons, List.forall_mem_cons]
          exact ⟨⟨by simpa using hc, ih.1⟩, ih.2⟩
  exact hpieces w (List.mem_filter.mp h).1

/-- Separators in front do not matter. -/
theorem wordsBy_dropWhile (s : List α) : wordsBy p (s.dropWhile p) = wordsBy p s := by
  induction s with
  | nil => rfl
  | cons c s ih =>
    rw [List.dropWhile_cons]
    split
    · rename_i hc
      rw [ih, wordsBy_cons s hc]
    · rfl

/-- A piece without separators is a word. -/
theorem wordsBy_eq_singleton {w : List α} (hne : w ≠ []) (h : ∀ c ∈ w, p c = false) :
    wordsBy p w = [w] := by
  rw [wordsBy, List.splitOnP_eq_singleton h]
  simp [hne]

/-- **The first word**, of a list that does not start with a separator. -/
theorem wordsBy_eq_cons {c : α} {s : List α} (hc : p c = false) :
    wordsBy p (c :: s) = (c :: s).takeWhile (fun x ↦ !p x) ::
      wordsBy p ((c :: s).dropWhile fun x ↦ !p x) := by
  have hword : ∀ x ∈ (c :: s).takeWhile (fun x ↦ !p x), p x = false := by
    intro x hx
    simpa using List.mem_takeWhile_imp hx
  have hne : (c :: s).takeWhile (fun x ↦ !p x) ≠ [] := by simp [hc]
  have hcut := List.takeWhile_append_dropWhile (p := fun x ↦ !p x) (l := c :: s)
  refine (congrArg (wordsBy p) hcut).symm.trans ?_
  cases hd : (c :: s).dropWhile fun x ↦ !p x with
  | nil => rw [List.append_nil, wordsBy_eq_singleton hne hword, wordsBy_nil]
  | cons d t =>
    have hsep : p d = true := by
      simpa [hd] using List.head?_dropWhile_not (fun x ↦ !p x) (c :: s)
    rw [wordsBy_append_cons _ _ hsep, wordsBy_eq_singleton hne hword, wordsBy_cons t hsep]
    rfl

/-- The words of lines joined by a separator are the words of the lines. -/
theorem wordsBy_intercalate {c : α} (hc : p c = true) (lines : List (List α)) :
    wordsBy p ([c].intercalate lines) = lines.flatMap (wordsBy p) := by
  induction lines with
  | nil => simp
  | cons l lines ih =>
    cases lines with
    | nil => simp
    | cons m ms =>
      rw [List.intercalate_cons_cons, List.append_assoc, List.singleton_append,
        wordsBy_append_cons _ _ hc, ih]
      rfl

/-- A line inserted among others puts its words among theirs. -/
theorem flatMap_insertIdx {β : Type} (f : α → List β) {l : List α} {i : ℕ} (hi : i ≤ l.length)
    (x : α) :
    (l.insertIdx i x).flatMap f = (l.take i).flatMap f ++ f x ++ (l.drop i).flatMap f := by
  induction i generalizing l with
  | zero => simp
  | succ i ih =>
    cases l with
    | nil => exact absurd hi (by simp)
    | cons y l => simp [List.insertIdx_succ_cons, ih (Nat.le_of_succ_le_succ hi)]

end Lists
