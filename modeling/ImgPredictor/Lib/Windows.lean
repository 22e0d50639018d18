import Mathlib.Data.List.Forall2
import Mathlib.Data.List.Range
import ImgPredictor.Lib.Lists

/-!
# Cutting a list into windows

`windows closes fin xs` cuts `xs` into consecutive windows.  A window begins at its head, and goes
on until an element `x` comes that *closes* it, which is asked of the head and of `x`; then `x` is
the head of the next.  What becomes of the window that is open when the list ends is up to `fin`:
`keep` keeps it, `keepIf` keeps it when it is worth it, `discard` drops it.

* `flatten_windows` — the windows make up the list.
* `steps` lists the questions that were asked, and `windows_sound` gives back the answers: inside a
  window nothing closed it, and the head of the next one did.
* `eraseIdx_windows` — an element that does not begin a window can be taken out, and no window but
  its own is touched.
* `windows_rearranged` — numbering the elements by their windows, and permuting those with the same
  number, permutes the windows inside.
-/

set_option autoImplicit false

namespace Lists

variable {α : Type} (closes : α → α → Bool) (fin : List α → List (List α))

/-- The windows from an open one on: its head, and what is in it. -/
def windowsFrom (head : α) (cur : List α) : List α → List (List α)
  | [] => fin cur
  | x :: xs =>
    if closes head x then cur :: windowsFrom x [x] xs else windowsFrom head (cur ++ [x]) xs

/-- The windows of a list. -/
def windows : List α → List (List α)
  | [] => []
  | x :: xs => windowsFrom closes fin x [x] xs

/-- The last window is kept. -/
def keep (w : List α) : List (List α) := [w]

/-- The last window is kept if `p` holds of it. -/
def keepIf (p : List α → Bool) (w : List α) : List (List α) := if p w then [w] else []

/-- The last window is dropped. -/
def discard (_ : List α) : List (List α) := []

/-- The head of the window that is open after some elements. -/
def headAfter (head : α) : List α → α
  | [] => head
  | x :: xs => headAfter (if closes head x then x else head) xs

/-- The window that is open after some elements. -/
def openAfter (head : α) (cur : List α) : List α → List α
  | [] => cur
  | x :: xs => if closes head x then openAfter x [x] xs else openAfter head (cur ++ [x]) xs

/-- The questions asked: the head of the open window, and the element that came. -/
def stepsFrom (head : α) : List α → List (α × α)
  | [] => []
  | x :: xs => (head, x) :: stepsFrom (if closes head x then x else head) xs

/-- The questions asked about a list. -/
def steps : List α → List (α × α)
  | [] => []
  | x :: xs => stepsFrom closes x xs

theorem mem_stepsFrom {head h x : α} {xs : List α} (hx : (h, x) ∈ stepsFrom closes head xs) :
    ∃ a b, xs = a ++ x :: b ∧ h = headAfter closes head a := by
  induction xs generalizing head with
  | nil => exact absurd hx (by simp [stepsFrom])
  | cons y xs ih =>
    rw [stepsFrom] at hx
    rcases List.mem_cons.mp hx with hx | hx
    · obtain ⟨rfl, rfl⟩ := Prod.mk.inj hx
      exact ⟨[], xs, rfl, rfl⟩
    · obtain ⟨a, b, rfl, rfl⟩ := ih hx
      exact ⟨y :: a, b, rfl, rfl⟩

/-- **Where a question was asked.** -/
theorem mem_steps {h x : α} {xs : List α} (hx : (h, x) ∈ steps closes xs) :
    ∃ x₀ a b, xs = x₀ :: a ++ x :: b ∧ h = headAfter closes x₀ a := by
  cases xs with
  | nil => exact absurd hx (by simp [steps])
  | cons x₀ xs =>
    obtain ⟨a, b, rfl, rfl⟩ := mem_stepsFrom closes hx
    exact ⟨x₀, a, b, rfl, rfl⟩

/-! ## The windows make up the list -/

/-- The windows are the ones that were closed, and what becomes of the open one. -/
theorem windowsFrom_eq (head : α) (cur xs : List α) :
    windowsFrom closes fin head cur xs
      = windowsFrom closes discard head cur xs ++ fin (openAfter closes head cur xs) := by
  induction xs generalizing head cur with
  | nil => rfl
  | cons x xs ih =>
    rw [windowsFrom, windowsFrom, openAfter]
    split
    · rw [ih, List.cons_append]
    · exact ih ..

theorem flatten_windowsFrom (head : α) (cur xs : List α) :
    (windowsFrom closes keep head cur xs).flatten = cur ++ xs := by
  induction xs generalizing head cur with
  | nil => simp [windowsFrom, keep]
  | cons x xs ih =>
    rw [windowsFrom]
    split <;> simp [ih]

/-- **The windows make up the list.** -/
theorem flatten_windows (xs : List α) : (windows closes keep xs).flatten = xs := by
  cases xs with
  | nil => rfl
  | cons x xs => exact flatten_windowsFrom closes x [x] xs

/-- Whatever becomes of the last window, the others are the same. -/
theorem windows_isPrefix {fin : List α → List (List α)} (hfin : ∀ w, fin w <+: [w]) (xs : List α) :
    windows closes fin xs <+: windows closes keep xs := by
  cases xs with
  | nil => exact List.nil_prefix
  | cons x xs =>
    rw [windows, windows, windowsFrom_eq, windowsFrom_eq closes keep]
    exact List.prefix_append_right_inj _ |>.mpr (hfin _)

theorem filter_windowsFrom (p : List α → Bool) (head : α) (cur xs : List α) :
    (windowsFrom closes (keepIf p) head cur xs).filter p
      = (windowsFrom closes keep head cur xs).filter p := by
  induction xs generalizing head cur with
  | nil =>
    simp only [windowsFrom, keepIf, keep]
    cases h : p cur <;> simp [h]
  | cons x xs ih =>
    rw [windowsFrom, windowsFrom]
    split
    · rw [List.filter_cons, List.filter_cons, ih]
    · exact ih ..

/-- Among the windows `p` holds of, nothing is lost by keeping the last one only if it does. -/
theorem filter_windows (p : List α → Bool) (xs : List α) :
    (windows closes (keepIf p) xs).filter p = (windows closes keep xs).filter p := by
  cases xs with
  | nil => rfl
  | cons x xs => exact filter_windowsFrom closes p x [x] xs

/-! ## Windows of a concatenation -/

theorem windowsFrom_append (head : α) (cur xs ys : List α) :
    windowsFrom closes fin head cur (xs ++ ys) = windowsFrom closes discard head cur xs
      ++ windowsFrom closes fin (headAfter closes head xs) (openAfter closes head cur xs) ys := by
  induction xs generalizing head cur with
  | nil => rfl
  | cons x xs ih =>
    rw [List.cons_append, windowsFrom, windowsFrom, headAfter, openAfter]
    split
    · rw [ih, List.cons_append]
    · exact ih ..

/-- The open window begins at its head. -/
theorem head?_openAfter {head : α} {cur : List α} (h : cur.head? = some head) (xs : List α) :
    (openAfter closes head cur xs).head? = some (headAfter closes head xs) := by
  induction xs generalizing head cur with
  | nil => exact h
  | cons x xs ih =>
    rw [openAfter, headAfter]
    split
    · exact ih rfl
    · exact ih (by rw [List.head?_append, h, Option.some_or])

/-- The first window is the open one and what does not close it. -/
theorem exists_windowsFrom_eq_cons (head : α) (cur xs : List α) :
    ∃ ext ws, windowsFrom closes keep head cur xs = (cur ++ ext) :: ws ∧
      ((∃ x ∈ xs.head?, closes head x = false) → ext ≠ []) := by
  induction xs generalizing head cur with
  | nil => exact ⟨[], [], by simp [windowsFrom, keep], by simp⟩
  | cons x xs ih =>
    rw [windowsFrom]
    cases hc : closes head x with
    | true => exact ⟨[], _, by rw [List.append_nil, if_pos rfl], by simp [hc]⟩
    | false =>
      obtain ⟨ext, ws, heq, -⟩ := ih head (cur ++ [x])
      exact ⟨x :: ext, ws, by simpa using heq, fun _ ↦ List.cons_ne_nil _ _⟩

/-! ## Windows of what is shown -/

/-- Cutting what `t` shows is cutting, if nothing else is asked about. -/
theorem map_windows {τ : Type} {t : α → τ} {c : τ → τ → Bool}
    (hc : ∀ x y, closes x y = c (t x) (t y)) (xs : List α) :
    (windows closes keep xs).map (List.map t) = windows c keep (xs.map t) := by
  have hfrom : ∀ (head : α) (cur xs : List α),
      (windowsFrom closes keep head cur xs).map (List.map t)
        = windowsFrom c keep (t head) (cur.map t) (xs.map t) := by
    intro head cur xs
    induction xs generalizing head cur with
    | nil => rfl
    | cons x xs ih =>
      rw [windowsFrom, List.map_cons, windowsFrom, ← hc]
      split
      · rw [List.map_cons, ih]
        rfl
      · rw [ih, List.map_append]
        rfl
  cases xs with
  | nil => rfl
  | cons x xs => exact hfrom x [x] xs

/-- A window that is worth it is kept. -/
theorem windows_keepIf {p : List α → Bool} {xs : List α}
    (h : ∀ w ∈ windows closes keep xs, p w = true) :
    windows closes (keepIf p) xs = windows closes keep xs := by
  cases xs with
  | nil => rfl
  | cons x xs =>
    rw [windows, windows, windowsFrom_eq, windowsFrom_eq closes keep, keepIf, if_pos]
    · rfl
    · refine h _ ?_
      rw [windows, windowsFrom_eq]
      exact List.mem_append_right _ (List.mem_singleton_self _)

/-! ## Inside a window and between two -/

/-- A window: a head, and elements that did not close it when they came. -/
def Open (asked : List (α × α)) (w : List α) : Prop :=
  ∃ head tail, w = head :: tail ∧ ∀ x ∈ tail, (head, x) ∈ asked ∧ closes head x = false

/-- Two windows in a row: the head of the second closed the first. -/
def Closed (asked : List (α × α)) (w w' : List α) : Prop :=
  ∃ head tail head' tail', w = head :: tail ∧ w' = head' :: tail' ∧
    (head, head') ∈ asked ∧ closes head head' = true

variable {closes}

theorem windowsFrom_sound (head : α) (tail xs : List α) (asked : List (α × α))
    (ht : ∀ x ∈ tail, (head, x) ∈ asked ∧ closes head x = false)
    (hsub : stepsFrom closes head xs ⊆ asked) :
    (∀ w ∈ windowsFrom closes keep head (head :: tail) xs, Open closes asked w) ∧
      (windowsFrom closes keep head (head :: tail) xs).IsChain (Closed closes asked) ∧
      ∃ w ws tail', windowsFrom closes keep head (head :: tail) xs = w :: ws ∧
        w = head :: tail' := by
  induction xs generalizing head tail with
  | nil =>
    refine ⟨fun w hw ↦ ?_, .singleton _, _, _, tail, rfl, rfl⟩
    rw [List.mem_singleton.mp hw]
    exact ⟨head, tail, rfl, ht⟩
  | cons x xs ih =>
    rw [stepsFrom, List.cons_subset] at hsub
    rw [windowsFrom]
    cases hc : closes head x with
    | true =>
      simp only [hc, if_true] at hsub ⊢
      obtain ⟨hopen, hchain, w, ws, tail', hws, rfl⟩ := ih x [] (by simp) hsub.2
      refine ⟨?_, ?_, _, _, tail, rfl, rfl⟩
      · intro w hw
        rcases List.mem_cons.mp hw with rfl | hw
        · exact ⟨head, tail, rfl, ht⟩
        · exact hopen w hw
      · rw [hws] at hchain ⊢
        exact .cons_cons ⟨head, tail, x, tail', rfl, rfl, hsub.1, hc⟩ hchain
    | false =>
      simp only [hc, Bool.false_eq_true, if_false] at hsub ⊢
      rw [List.cons_append]
      refine ih head (tail ++ [x]) ?_ hsub.2
      intro y hy
      rcases List.mem_append.mp hy with hy | hy
      · exact ht y hy
      · rw [List.mem_singleton.mp hy]
        exact ⟨hsub.1, hc⟩

/-- **What the windows tell of the answers.** -/
theorem windows_sound (xs : List α) :
    (∀ w ∈ windows closes keep xs, Open closes (steps closes xs) w) ∧
      (windows closes keep xs).IsChain (Closed closes (steps closes xs)) := by
  cases xs with
  | nil => exact ⟨by simp [windows], .nil⟩
  | cons x xs =>
    obtain ⟨hopen, hchain, -⟩ :=
      @windowsFrom_sound _ closes x [] xs (stepsFrom closes x xs) (by simp)
        (List.Subset.refl _)
    exact ⟨hopen, hchain⟩

theorem ne_nil_of_mem_windows {xs w : List α} (hw : w ∈ windows closes keep xs) : w ≠ [] := by
  obtain ⟨head, tail, rfl, -⟩ := (windows_sound xs).1 w hw
  simp

/-! ## Taking an element out -/

variable {fin}

/-- How many windows are closed by some elements. -/
def closings (closes : α → α → Bool) (head : α) : List α → ℕ
  | [] => 0
  | x :: xs =>
    if closes head x then closings closes x xs + 1 else closings closes head xs

theorem length_windowsFrom_discard (head : α) (cur xs : List α) :
    (windowsFrom closes discard head cur xs).length = closings closes head xs := by
  induction xs generalizing head cur with
  | nil => rfl
  | cons x xs ih =>
    rw [windowsFrom, closings]
    split
    · rw [List.length_cons, ih]
    · exact ih ..

/-- What is in the open window does not matter to the windows after it. -/
theorem tail_windowsFrom (hfin : ∀ w, (fin w).length ≤ 1) (head : α) (cur cur' xs : List α) :
    (windowsFrom closes fin head cur xs).tail = (windowsFrom closes fin head cur' xs).tail := by
  induction xs generalizing cur cur' with
  | nil =>
    have hnil : ∀ w, (fin w).tail = [] := fun w ↦
      List.eq_nil_of_length_eq_zero (by rw [List.length_tail]; have := hfin w; omega)
    rw [windowsFrom, windowsFrom, hnil, hnil]
  | cons x xs ih =>
    rw [windowsFrom, windowsFrom]
    split
    · rfl
    · exact ih _ _

theorem eraseIdx_windowsFrom (hfin : ∀ w, (fin w).length ≤ 1) {head : α} {a : List α} {x : α}
    (hx : closes (headAfter closes head a) x = false) (cur b : List α) :
    (windowsFrom closes fin head cur (a ++ x :: b)).eraseIdx (closings closes head a)
      = (windowsFrom closes fin head cur (a ++ b)).eraseIdx (closings closes head a) := by
  induction a generalizing head cur with
  | nil =>
    rw [headAfter] at hx
    simp only [List.nil_append, closings, List.eraseIdx_zero]
    rw [windowsFrom, hx, if_neg Bool.false_ne_true]
    exact tail_windowsFrom hfin head _ _ b
  | cons y a ih =>
    rw [headAfter] at hx
    simp only [List.cons_append, windowsFrom, closings]
    split
    · rename_i hc
      rw [if_pos hc] at hx
      rw [List.eraseIdx_cons_succ, List.eraseIdx_cons_succ, ih hx]
    · rename_i hc
      rw [if_neg hc] at hx
      exact ih hx _

/-- **An element that does not begin a window can be taken out**, and no window but its own is
touched. -/
theorem eraseIdx_windows (hfin : ∀ w, (fin w).length ≤ 1) {x₀ x : α} {a : List α}
    (hx : closes (headAfter closes x₀ a) x = false) (b : List α) :
    (windows closes fin (x₀ :: a ++ x :: b)).eraseIdx (closings closes x₀ a)
      = (windows closes fin (x₀ :: a ++ b)).eraseIdx (closings closes x₀ a) :=
  eraseIdx_windowsFrom hfin hx [x₀] b

/-! ## Numbering the windows -/

section Numbered

variable (closes)

/-- The elements, each with the number of its window; that of the open one is `k`. -/
def numberedFrom (head : α) (k : ℕ) : List α → List (ℕ × α)
  | [] => []
  | x :: xs =>
    if closes head x then (k + 1, x) :: numberedFrom x (k + 1) xs
    else (k, x) :: numberedFrom head k xs

/-- The elements of a list, each with the number of its window. -/
def numbered : List α → List (ℕ × α)
  | [] => []
  | x :: xs => (0, x) :: numberedFrom closes x 0 xs

/-- How many windows of a list are closed. -/
def closed : List α → ℕ
  | [] => 0
  | x :: xs => closings closes x xs

theorem length_windows_discard (xs : List α) :
    (windows closes discard xs).length = closed closes xs := by
  rcases xs with _ | ⟨x, xs⟩
  · rfl
  · exact length_windowsFrom_discard x [x] xs

theorem numberedFrom_succ (head : α) (k : ℕ) (xs : List α) :
    numberedFrom closes head (k + 1) xs
      = (numberedFrom closes head k xs).map (Prod.map Nat.succ id) := by
  induction xs generalizing head k with
  | nil => rfl
  | cons x xs ih =>
    rw [numberedFrom, numberedFrom]
    split <;> simp [ih]

/-- The number of an element is the number of windows closed by then. -/
theorem numberedFrom_concat (head : α) (k : ℕ) (xs : List α) (x : α) :
    numberedFrom closes head k (xs ++ [x])
      = numberedFrom closes head k xs ++ [(k + closings closes head (xs ++ [x]), x)] := by
  induction xs generalizing head k with
  | nil =>
    simp only [List.nil_append, numberedFrom, closings]
    split <;> simp
  | cons y xs ih =>
    simp only [List.cons_append, numberedFrom, closings]
    split
    · rw [ih, List.cons_append]
      congr 4
      omega
    · rw [ih, List.cons_append]

theorem numbered_concat (xs : List α) (x : α) :
    numbered closes (xs ++ [x]) = numbered closes xs ++ [(closed closes (xs ++ [x]), x)] := by
  rcases xs with _ | ⟨y, xs⟩
  · rfl
  · simp [numbered, closed, numberedFrom_concat]

/-- **The windows are the parts with the same number.** -/
theorem windowsFrom_eq_parts (head : α) (cur xs : List α) :
    let part j := (if j = 0 then cur else []) ++ partOf j (numberedFrom closes head 0 xs)
    windowsFrom closes fin head cur xs
      = (List.range (closings closes head xs)).map part
        ++ fin (part (closings closes head xs)) := by
  induction xs generalizing head cur with
  | nil => simp [windowsFrom, closings, numberedFrom, partOf]
  | cons x xs ih =>
    simp only [windowsFrom, closings, numberedFrom]
    split
    · have hzero : partOf 0 (numberedFrom closes x 1 xs) = [] := by
        rw [numberedFrom_succ]
        simp [partOf, List.filter_map, Function.comp_def]
      have hsucc : ∀ j, partOf (j + 1) ((1, x) :: numberedFrom closes x 1 xs)
          = (if j = 0 then [x] else []) ++ partOf j (numberedFrom closes x 0 xs) := by
        intro j
        rw [numberedFrom_succ, ← partOf_map_of_injective Nat.succ_injective j]
        rcases j with _ | j
        · exact partOf_cons_self ..
        · exact partOf_cons_of_ne (by omega) ..
      rw [ih, List.range_succ_eq_map, List.map_cons, List.map_map, List.cons_append]
      simp [hsucc, Function.comp_def, partOf_cons_of_ne, hzero]
    · have hcons : ∀ j,
          (if j = 0 then cur else []) ++ partOf j ((0, x) :: numberedFrom closes head 0 xs)
          = (if j = 0 then cur ++ [x] else []) ++ partOf j (numberedFrom closes head 0 xs) := by
        intro j
        rcases j with _ | j
        · simp [partOf_cons_self]
        · simp [partOf_cons_of_ne]
      simp only [hcons, ih]

theorem windows_eq_parts {xs : List α} (hne : xs ≠ []) :
    windows closes fin xs
      = (List.range (closed closes xs)).map (fun j ↦ partOf j (numbered closes xs))
        ++ fin (partOf (closed closes xs) (numbered closes xs)) := by
  rcases xs with _ | ⟨x, xs⟩
  · exact absurd rfl hne
  · have hpart : ∀ j, (if j = 0 then [x] else []) ++ partOf j (numberedFrom closes x 0 xs)
        = partOf j (numbered closes (x :: xs)) := by
      intro j
      rcases j with _ | j
      · exact (partOf_cons_self ..).symm
      · exact (partOf_cons_of_ne (by omega) ..).symm
    rw [windows, windowsFrom_eq_parts]
    simp only [hpart, closed]

end Numbered

/-! ## Elements that close nothing -/

theorem closings_append (head : α) (a b : List α) :
    closings closes head (a ++ b)
      = closings closes head a + closings closes (headAfter closes head a) b := by
  induction a generalizing head with
  | nil => simp [closings, headAfter]
  | cons x a ih =>
    rw [List.cons_append, closings, closings, headAfter]
    split
    · rw [ih]
      omega
    · exact ih head

theorem closings_eq_zero {head : α} {xs : List α} (h : ∀ x ∈ xs, closes head x = false) :
    closings closes head xs = 0 := by
  induction xs with
  | nil => rfl
  | cons x xs ih =>
    rw [closings, h x List.mem_cons_self, if_neg Bool.false_ne_true]
    exact ih fun y hy ↦ h y (List.mem_cons_of_mem _ hy)

/-- The window an element is in is not closed by it. -/
theorem closes_headAfter_concat {x : α} (hx : closes x x = false) (head : α) (a : List α) :
    closes (headAfter closes head (a ++ [x])) x = false := by
  induction a generalizing head with
  | nil =>
    rw [List.nil_append, headAfter, headAfter]
    split
    · exact hx
    · exact Bool.not_eq_true _ ▸ ‹¬ closes head x = true›
  | cons y a ih =>
    rw [List.cons_append, headAfter]
    exact ih _

/-- **Elements that close no more than the one before them** are in its window. -/
theorem closed_append_of_same {x : α} {b : List α} (hx : closes x x = false)
    (hsame : ∀ y ∈ b, ∀ head, closes head y = closes head x) (a : List α) :
    closed closes (a ++ x :: b) = closed closes (a ++ [x]) := by
  have hzero : ∀ head, closes head x = false → closings closes head b = 0 :=
    fun head h ↦ closings_eq_zero fun y hy ↦ (hsame y hy head).trans h
  rcases a with _ | ⟨x₀, a⟩
  · exact hzero x hx
  · have hcons : a ++ x :: b = (a ++ [x]) ++ b := by simp
    rw [List.cons_append, List.cons_append, closed, closed, hcons, closings_append,
      hzero _ (closes_headAfter_concat hx x₀ a), Nat.add_zero]

/-! ## Rearranging -/

/-- The same elements, in an order that shows no difference to `t`. -/
structure Rearranged {τ : Type} (t : α → τ) (w w' : List α) : Prop where
  /-- The elements are the same. -/
  perm : w.Perm w'
  /-- To `t`, so is the order. -/
  map : w.map t = w'.map t

/-- Windows that are cut by what `t` shows are cut alike. -/
theorem closed_map {τ : Type} {t : α → τ} {c : τ → τ → Bool}
    (hc : ∀ x y, closes x y = c (t x) (t y)) (xs : List α) :
    closed closes xs = closed c (xs.map t) := by
  have hclosings : ∀ (head : α) (xs : List α),
      closings closes head xs = closings c (t head) (xs.map t) := by
    intro head xs
    induction xs generalizing head with
    | nil => rfl
    | cons x xs ih => simp only [List.map_cons, closings, hc, ih]
  rcases xs with _ | ⟨x, xs⟩
  · rfl
  · exact hclosings x xs

theorem numbered_map {τ : Type} {t : α → τ} {c : τ → τ → Bool}
    (hc : ∀ x y, closes x y = c (t x) (t y)) (xs : List α) :
    (numbered closes xs).map (Prod.map id t) = numbered c (xs.map t) := by
  have hfrom : ∀ (head : α) (k : ℕ) (xs : List α),
      (numberedFrom closes head k xs).map (Prod.map id t)
        = numberedFrom c (t head) k (xs.map t) := by
    intro head k xs
    induction xs generalizing head k with
    | nil => rfl
    | cons x xs ih =>
      simp only [List.map_cons, numberedFrom, hc]
      split <;> simp [ih]
  rcases xs with _ | ⟨x, xs⟩
  · rfl
  · simp [numbered, hfrom]

/-- **Rearranging the elements within their windows** rearranges every window, and does nothing
else. -/
theorem windows_rearranged {τ : Type} {t : α → τ} {c : τ → τ → Bool}
    (hc : ∀ x y, closes x y = c (t x) (t y)) {xs ys : List α} (hmap : xs.map t = ys.map t)
    (hperm : (numbered closes xs).Perm (numbered closes ys))
    (hfin : ∀ w w', Rearranged t w w' → List.Forall₂ (Rearranged t) (fin w) (fin w')) :
    List.Forall₂ (Rearranged t) (windows closes fin xs) (windows closes fin ys) := by
  have hpart : ∀ j,
      Rearranged t (partOf j (numbered closes xs)) (partOf j (numbered closes ys)) := by
    intro j
    refine ⟨partOf_perm hperm j, ?_⟩
    rw [map_partOf, map_partOf, numbered_map hc, numbered_map hc, hmap]
  rcases eq_or_ne xs [] with rfl | hxs
  · obtain rfl := List.map_eq_nil_iff.mp hmap.symm
    exact .nil
  · have hys : ys ≠ [] := fun h ↦ hxs (List.map_eq_nil_iff.mp (by rw [hmap, h, List.map_nil]))
    rw [windows_eq_parts closes hxs, windows_eq_parts closes hys, closed_map hc xs, hmap,
      ← closed_map hc ys]
    refine List.rel_append ?_ (hfin _ _ (hpart _))
    rw [List.forall₂_map_left_iff, List.forall₂_map_right_iff, List.forall₂_same]
    exact fun j _ ↦ hpart j

end Lists
