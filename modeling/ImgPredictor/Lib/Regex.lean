import Mathlib.Data.List.Basic
import Mathlib.Tactic.Common

/-!
# A backtracking regular expression matcher

Perl-style engines do not compute "the" match of a pattern: they try the alternatives in a fixed
order and stop at the first one that lets the rest of the pattern succeed.  `Pat.hits` is that
order made into a list — every way the pattern can match a prefix of the text, best first — and
`Pat.first` is what the engine returns, the head of it.  Greedy repetition is where the order
matters: `splits p` offers the longest run first, and gives characters back one at a time.

Only single-character classes are repeated here, which is what keeps `hits` structural and is
enough for patterns made of wildcards and literals.

* `first_seq` turns a sequence into a search over the ways its first half can match.
* `captures_many_seq_cons` says what a wildcard does: **what it takes in is tried without it
  later**.
* `captures_plus_seq` says when a run takes all it can.
* `fits_seq` says when the order does not matter: **the first match is the only one** if what
  follows cannot start inside of what goes before.
-/

set_option autoImplicit false

namespace Regex

variable {α : Type}

/-- Patterns.  Groups are numbered, as the calls that read them back number them. -/
inductive Pat (α : Type) where
  /-- The empty pattern. -/
  | eps
  /-- One character of a class. -/
  | one (p : α → Bool)
  /-- As many characters of a class as possible. -/
  | many (p : α → Bool)
  /-- One pattern after another. -/
  | seq (a b : Pat α)
  /-- The first alternative if it leads to a match, else the second. -/
  | alt (a b : Pat α)
  /-- A group that captures what it matches. -/
  | group (n : ℕ) (a : Pat α)
  /-- A zero-width test of the text that is left, such as `$`. -/
  | ahead (p : List α → Bool)

/-- One way to match: what was consumed, what the groups captured, what is left. -/
structure Hit (α : Type) where
  /-- The text consumed. -/
  taken : List α
  /-- The captures, in the order the groups closed. -/
  caps : List (ℕ × List α)
  /-- The text left. -/
  rest : List α

/-- Two matches in a row. -/
def Hit.andThen (h k : Hit α) : Hit α := ⟨h.taken ++ k.taken, h.caps ++ k.caps, k.rest⟩

/-- The text captured by group `n`. -/
def Hit.cap (h : Hit α) (n : ℕ) : Option (List α) := h.caps.lookup n

/-- The ways to cut a run of `p` off the front of a text, longest run first. -/
def splits (p : α → Bool) : List α → List (List α × List α)
  | [] => [([], [])]
  | x :: xs =>
    if p x then (splits p xs).map (fun t ↦ (x :: t.1, t.2)) ++ [([], x :: xs)]
    else [([], x :: xs)]

/-- Every way a pattern matches a prefix of the text, in the order the engine tries them. -/
def Pat.hits : Pat α → List α → List (Hit α)
  | eps, s => [⟨[], [], s⟩]
  | one p, x :: xs => if p x then [⟨[x], [], xs⟩] else []
  | one _, [] => []
  | many p, s => (splits p s).map fun t ↦ ⟨t.1, [], t.2⟩
  | seq a b, s => (a.hits s).flatMap fun h ↦ (b.hits h.rest).map h.andThen
  | alt a b, s => a.hits s ++ b.hits s
  | group n a, s => (a.hits s).map fun h ↦ { h with caps := h.caps ++ [(n, h.taken)] }
  | ahead p, s => if p s then [⟨[], [], s⟩] else []

/-- The match the engine returns, if there is one. -/
def Pat.first (a : Pat α) (s : List α) : Option (Hit α) := (a.hits s).head?

/-- `p+` -/
def plus (p : α → Bool) : Pat α := .seq (.one p) (.many p)

/-- A literal. -/
def lit [BEq α] : List α → Pat α
  | [] => .eps
  | c :: cs => .seq (.one (· == c)) (lit cs)

/-! ## Sequences -/

theorem first_seq (a b : Pat α) (s : List α) :
    (Pat.seq a b).first s = (a.hits s).findSome? fun h ↦ (b.first h.rest).map h.andThen := by
  simp [Pat.first, Pat.hits, List.head?_flatMap]

/-! ## Literals -/

theorem hits_lit [BEq α] [LawfulBEq α] (c s : List α) :
    (lit c).hits (c ++ s) = [⟨c, [], s⟩] := by
  induction c with
  | nil => rfl
  | cons x c ih => simp [lit, Pat.hits, ih, Hit.andThen]

theorem hits_lit_of_not_prefix [BEq α] [LawfulBEq α] {c s : List α} (h : ¬ c <+: s) :
    (lit c).hits s = [] := by
  induction c generalizing s with
  | nil => exact absurd List.nil_prefix h
  | cons x c ih =>
    cases s with
    | nil => rfl
    | cons y s =>
      simp only [lit, Pat.hits]
      split
      · rename_i hy
        obtain rfl := eq_of_beq hy
        simp [ih fun hp ↦ h (List.cons_prefix_cons.mpr ⟨rfl, hp⟩)]
      · rfl

/-- A literal in front of a pattern. -/
theorem first_lit_seq [BEq α] [LawfulBEq α] (c s : List α) (b : Pat α) :
    (Pat.seq (lit c) b).first (c ++ s)
      = (b.first s).map fun h ↦ ⟨c ++ h.taken, h.caps, h.rest⟩ := by
  rw [first_seq, hits_lit]
  simp only [List.findSome?_singleton]
  rfl

theorem first_lit_seq_eq_none [BEq α] [LawfulBEq α] {c s : List α} (b : Pat α)
    (h : ¬ c <+: s) : (Pat.seq (lit c) b).first s = none := by
  rw [first_seq, hits_lit_of_not_prefix h]
  rfl

/-! ## Greedy runs -/

/-- `p*` followed by a pattern. -/
theorem first_many_seq (p : α → Bool) (b : Pat α) (s : List α) :
    (Pat.seq (.many p) b).first s =
      (splits p s).findSome? fun t ↦
        (b.first t.2).map fun h ↦ ⟨t.1 ++ h.taken, h.caps, h.rest⟩ := by
  rw [first_seq, Pat.hits, List.findSome?_map]
  rfl

/-! ## What the groups capture -/

/-- The captures of the match. -/
def Pat.captures (a : Pat α) (s : List α) : Option (List (ℕ × List α)) :=
  (a.first s).map Hit.caps

theorem captures_lit_seq [BEq α] [LawfulBEq α] (c s : List α) (b : Pat α) :
    (Pat.seq (lit c) b).captures (c ++ s) = b.captures s := by
  rw [Pat.captures, first_lit_seq, Option.map_map]
  rfl

theorem captures_lit_seq_eq_none [BEq α] [LawfulBEq α] {c s : List α} (b : Pat α)
    (h : ¬ c <+: s) : (Pat.seq (lit c) b).captures s = none := by
  rw [Pat.captures, first_lit_seq_eq_none b h]
  rfl

theorem captures_many_seq (p : α → Bool) (b : Pat α) (s : List α) :
    (Pat.seq (.many p) b).captures s = (splits p s).findSome? fun t ↦ b.captures t.2 := by
  rw [Pat.captures, first_many_seq, List.map_findSome?]
  simp [Function.comp_def, Pat.captures]

theorem captures_many_seq_nil (p : α → Bool) (b : Pat α) :
    (Pat.seq (.many p) b).captures [] = b.captures [] := by
  simp [captures_many_seq, splits]

/-- **A greedy run prefers what comes later**: the rest is tried further on first. -/
theorem captures_many_seq_cons {p : α → Bool} (b : Pat α) {x : α} (hx : p x = true) (s : List α) :
    (Pat.seq (.many p) b).captures (x :: s)
      = ((Pat.seq (.many p) b).captures s).or (b.captures (x :: s)) := by
  rw [captures_many_seq, captures_many_seq, splits, if_pos hx, List.findSome?_append,
    List.findSome?_map, List.findSome?_singleton]
  rfl

/-- The first split takes all of the run; the others give characters of it back. -/
theorem splits_eq_cons (p : α → Bool) (s : List α) :
    ∃ others, splits p s = (s.takeWhile p, s.dropWhile p) :: others ∧
      ∀ t ∈ others, ∃ x b, t.2 = x :: b ∧ p x = true := by
  induction s with
  | nil => exact ⟨[], rfl, by simp⟩
  | cons x s ih =>
    rw [splits, List.takeWhile_cons, List.dropWhile_cons]
    cases hx : p x with
    | false => exact ⟨[], rfl, by simp⟩
    | true =>
      obtain ⟨others, hs, hothers⟩ := ih
      refine ⟨others.map (fun t ↦ (x :: t.1, t.2)) ++ [([], x :: s)], by simp [hs], fun t ht ↦ ?_⟩
      rcases List.mem_append.mp ht with ht | ht
      · obtain ⟨u, hu, rfl⟩ := List.mem_map.mp ht
        exact hothers u hu
      · rw [List.mem_singleton.mp ht]
        exact ⟨x, s, rfl, hx⟩

/-- What can follow all of the run, or nothing of what a shorter run leaves, settles the run. -/
def Settled (p : α → Bool) (b : Pat α) (s : List α) : Prop :=
  (b.captures (s.dropWhile p)).isSome = true ∨ ∀ x t, p x = true → b.captures (x :: t) = none

theorem hits_plus_cons (p : α → Bool) (x : α) (s : List α) :
    (plus p).hits (x :: s)
      = if p x then (splits p s).map fun t ↦ ⟨x :: t.1, [], t.2⟩ else [] := by
  rw [plus, Pat.hits, Pat.hits]
  split <;> simp [Pat.hits, Hit.andThen]

/-- The ways to capture a run and go on. -/
theorem captures_plus_seq_cons (p : α → Bool) (b : Pat α) (n : ℕ) {x : α} (hx : p x = true)
    (s : List α) :
    (Pat.seq (.group n (plus p)) b).captures (x :: s) = (splits p s).findSome? fun t ↦
      (b.captures t.2).map ((n, x :: t.1) :: ·) := by
  rw [Pat.captures, first_seq, Pat.hits, hits_plus_cons, if_pos hx, List.map_map,
    List.findSome?_map, List.map_findSome?]
  congr 1
  funext t
  simp only [Function.comp, Option.map_map, Pat.captures]
  rfl

/-- **A captured run that is settled** takes all it can. -/
theorem captures_plus_seq {p : α → Bool} {b : Pat α} {s : List α} (n : ℕ)
    (h : Settled p b s) :
    (Pat.seq (.group n (plus p)) b).captures s =
      if s.takeWhile p = [] then none
      else (b.captures (s.dropWhile p)).map ((n, s.takeWhile p) :: ·) := by
  cases s with
  | nil => simp [Pat.captures, first_seq, Pat.hits, plus]
  | cons x s =>
    cases hx : p x with
    | false => simp [Pat.captures, first_seq, Pat.hits, plus, hx]
    | true =>
      obtain ⟨others, hs, hothers⟩ := splits_eq_cons p s
      rw [Settled, List.dropWhile_cons_of_pos hx] at h
      rw [captures_plus_seq_cons p b n hx, hs, List.takeWhile_cons_of_pos hx,
        List.dropWhile_cons_of_pos hx, if_neg (List.cons_ne_nil _ _), List.findSome?_cons]
      cases hb : b.captures (s.dropWhile p) with
      | some caps => rfl
      | none =>
        -- a shorter run leaves a character of the run, and nothing can follow that
        rcases h with h | h
        · exact absurd h (by simp [hb])
        · refine List.findSome?_eq_none_iff.mpr fun t ht ↦ ?_
          obtain ⟨y, u, hu, hy⟩ := hothers t ht
          rw [hu, h y u hy]
          rfl

/-! ## What a pattern matches -/

/-- The texts a pattern matches, whatever the order they are tried in and whatever its tests say. -/
def Pat.Lang : Pat α → List α → Prop
  | eps, w => w = []
  | one p, w => ∃ x, w = [x] ∧ p x = true
  | many p, w => ∀ x ∈ w, p x = true
  | seq a b, w => ∃ u v, w = u ++ v ∧ a.Lang u ∧ b.Lang v
  | alt a b, w => a.Lang w ∨ b.Lang w
  | group _ a, w => a.Lang w
  | ahead _, w => w = []

theorem lang_one {p : α → Bool} {w : List α} :
    (Pat.one p).Lang w ↔ ∃ a, w = [a] ∧ p a = true := Iff.rfl

theorem lang_alt {a b : Pat α} {w : List α} : (Pat.alt a b).Lang w ↔ a.Lang w ∨ b.Lang w := Iff.rfl

theorem lang_two {p q : α → Bool} {w : List α} :
    (Pat.seq (.one p) (.one q)).Lang w ↔ ∃ a b, w = [a, b] ∧ p a = true ∧ q b = true := by
  constructor
  · rintro ⟨_, _, rfl, ⟨a, rfl, ha⟩, b, rfl, hb⟩
    exact ⟨a, b, rfl, ha, hb⟩
  · rintro ⟨a, b, rfl, ha, hb⟩
    exact ⟨[a], [b], rfl, ⟨a, rfl, ha⟩, b, rfl, hb⟩

theorem lang_lit [BEq α] [LawfulBEq α] {c w : List α} : (lit c).Lang w ↔ w = c := by
  induction c generalizing w with
  | nil => rfl
  | cons x c ih =>
    simp only [lit, Pat.Lang, ih]
    constructor
    · rintro ⟨_, _, rfl, ⟨y, rfl, hy⟩, rfl⟩
      rw [eq_of_beq hy, List.singleton_append]
    · rintro rfl
      exact ⟨[x], c, rfl, ⟨x, rfl, by simp⟩, rfl⟩

theorem lang_plus {p : α → Bool} {w : List α} :
    (plus p).Lang w ↔ w ≠ [] ∧ ∀ x ∈ w, p x = true := by
  constructor
  · rintro ⟨_, v, rfl, ⟨x, rfl, hx⟩, hv⟩
    exact ⟨by simp, List.forall_mem_cons.mpr ⟨hx, hv⟩⟩
  · rintro ⟨hne, h⟩
    obtain ⟨x, v, rfl⟩ := List.exists_cons_of_ne_nil hne
    exact ⟨[x], v, rfl, ⟨x, rfl, h x List.mem_cons_self⟩, (List.forall_mem_cons.mp h).2⟩

/-- There is no test in the pattern. -/
def Pat.testless : Pat α → Bool
  | seq a b => a.testless && b.testless
  | alt a b => a.testless && b.testless
  | group _ a => a.testless
  | ahead _ => false
  | _ => true

/-- There is no group in the pattern. -/
def Pat.groupless : Pat α → Bool
  | seq a b => a.groupless && b.groupless
  | alt a b => a.groupless && b.groupless
  | group _ _ => false
  | _ => true

theorem mem_splits_iff {p : α → Bool} {s : List α} {t : List α × List α} :
    t ∈ splits p s ↔ s = t.1 ++ t.2 ∧ ∀ x ∈ t.1, p x = true := by
  obtain ⟨u, v⟩ := t
  induction s generalizing u with
  | nil =>
    simp only [splits, List.mem_singleton, Prod.mk.injEq]
    constructor
    · rintro ⟨rfl, rfl⟩
      exact ⟨rfl, by simp⟩
    · rintro ⟨h, -⟩
      exact List.append_eq_nil_iff.mp h.symm
  | cons y s ih =>
    cases hy : p y with
    | false =>
      simp only [splits, hy, Bool.false_eq_true, if_false, List.mem_singleton, Prod.mk.injEq]
      constructor
      · rintro ⟨rfl, rfl⟩
        exact ⟨rfl, by simp⟩
      · rintro ⟨h, hu⟩
        cases u with
        | nil => exact ⟨rfl, h.symm⟩
        | cons x u =>
          obtain ⟨rfl, -⟩ := List.cons.inj h
          exact absurd (hy.symm.trans (hu y List.mem_cons_self)) Bool.false_ne_true
    | true =>
      simp only [splits, hy, if_true, List.mem_append, List.mem_map, List.mem_singleton,
        Prod.mk.injEq]
      constructor
      · rintro (⟨⟨u', v'⟩, ht, rfl, rfl⟩ | ⟨rfl, rfl⟩)
        · obtain ⟨rfl, hu⟩ := (ih _).mp ht
          exact ⟨rfl, by simpa [hy] using hu⟩
        · exact ⟨rfl, by simp⟩
      · rintro ⟨h, hu⟩
        cases u with
        | nil => exact .inr ⟨rfl, h.symm⟩
        | cons x u =>
          obtain ⟨rfl, rfl⟩ := List.cons.inj h
          have hu' : ∀ z ∈ u, p z = true := fun z hz ↦ hu z (List.mem_cons_of_mem _ hz)
          exact .inl ⟨(u, v), (ih _).mpr ⟨rfl, hu'⟩, rfl, rfl⟩

/-- **A hit is a text of the pattern** at the front of the text. -/
theorem lang_of_mem_hits {a : Pat α} {s : List α} {h : Hit α} (hh : h ∈ a.hits s) :
    s = h.taken ++ h.rest ∧ a.Lang h.taken := by
  induction a generalizing s h with
  | eps =>
    obtain rfl := List.mem_singleton.mp hh
    exact ⟨rfl, rfl⟩
  | one p =>
    cases s with
    | nil => exact absurd hh List.not_mem_nil
    | cons x s =>
      rw [Pat.hits] at hh
      split at hh
      · rename_i hx
        obtain rfl := List.mem_singleton.mp hh
        exact ⟨rfl, x, rfl, hx⟩
      · exact absurd hh List.not_mem_nil
  | many p =>
    obtain ⟨t, ht, rfl⟩ := List.mem_map.mp hh
    exact mem_splits_iff.mp ht
  | seq a b iha ihb =>
    obtain ⟨k, hk, hh⟩ := List.mem_flatMap.mp hh
    obtain ⟨l, hl, rfl⟩ := List.mem_map.mp hh
    obtain ⟨hs, ha⟩ := iha hk
    obtain ⟨hrest, hb⟩ := ihb hl
    exact ⟨by rw [Hit.andThen, List.append_assoc, ← hrest, ← hs], _, _, rfl, ha, hb⟩
  | alt a b iha ihb =>
    rcases List.mem_append.mp hh with hh | hh
    · exact ⟨(iha hh).1, .inl (iha hh).2⟩
    · exact ⟨(ihb hh).1, .inr (ihb hh).2⟩
  | group n a ih =>
    obtain ⟨k, hk, rfl⟩ := List.mem_map.mp hh
    exact ih (h := k) hk
  | ahead p =>
    rw [Pat.hits] at hh
    split at hh
    · obtain rfl := List.mem_singleton.mp hh
      exact ⟨rfl, rfl⟩
    · exact absurd hh List.not_mem_nil

/-- **A text of the pattern is tried**, whatever follows it. -/
theorem exists_mem_hits {a : Pat α} (ha : a.testless = true) {w : List α} (hw : a.Lang w)
    (t : List α) :
    ∃ h ∈ a.hits (w ++ t), h.taken = w ∧ h.rest = t := by
  induction a generalizing w t with
  | eps =>
    obtain rfl := hw
    exact ⟨_, List.mem_singleton_self _, rfl, rfl⟩
  | one p =>
    obtain ⟨x, rfl, hx⟩ := hw
    exact ⟨⟨[x], [], t⟩, by simp [Pat.hits, hx], rfl, rfl⟩
  | many p =>
    exact ⟨_, List.mem_map_of_mem (mem_splits_iff (t := (w, t)).mpr ⟨rfl, hw⟩), rfl, rfl⟩
  | seq a b iha ihb =>
    obtain ⟨u, v, rfl, hu, hv⟩ := hw
    obtain ⟨hatests, hbtests⟩ := Bool.and_eq_true_iff.mp ha
    obtain ⟨h, hh, htaken, hrest⟩ := iha hatests hu (v ++ t)
    obtain ⟨k, hk, hktaken, hkrest⟩ := ihb hbtests hv t
    refine ⟨h.andThen k, ?_, by rw [Hit.andThen, htaken, hktaken], hkrest⟩
    rw [List.append_assoc]
    exact List.mem_flatMap.mpr ⟨h, hh, List.mem_map_of_mem (hrest ▸ hk)⟩
  | alt a b iha ihb =>
    obtain ⟨hatests, hbtests⟩ := Bool.and_eq_true_iff.mp ha
    rcases hw with hw | hw
    · obtain ⟨h, hh, hhit⟩ := iha hatests hw t
      exact ⟨h, List.mem_append_left _ hh, hhit⟩
    · obtain ⟨h, hh, hhit⟩ := ihb hbtests hw t
      exact ⟨h, List.mem_append_right _ hh, hhit⟩
  | group n a ih =>
    obtain ⟨h, hh, hhit⟩ := ih ha hw t
    exact ⟨_, List.mem_map_of_mem hh, hhit⟩
  | ahead p => exact absurd ha Bool.false_ne_true

theorem caps_of_groupless {a : Pat α} (ha : a.groupless = true) {s : List α} {h : Hit α}
    (hh : h ∈ a.hits s) : h.caps = [] := by
  induction a generalizing s h with
  | eps => rw [List.mem_singleton.mp hh]
  | one p =>
    cases s with
    | nil => exact absurd hh List.not_mem_nil
    | cons x s =>
      rw [Pat.hits] at hh
      split at hh
      · rw [List.mem_singleton.mp hh]
      · exact absurd hh List.not_mem_nil
  | many p =>
    obtain ⟨t, -, rfl⟩ := List.mem_map.mp hh
    rfl
  | seq a b iha ihb =>
    obtain ⟨hagroups, hbgroups⟩ := Bool.and_eq_true_iff.mp ha
    obtain ⟨k, hk, hh⟩ := List.mem_flatMap.mp hh
    obtain ⟨l, hl, rfl⟩ := List.mem_map.mp hh
    rw [Hit.andThen, iha hagroups hk, ihb hbgroups hl, List.nil_append]
  | alt a b iha ihb =>
    obtain ⟨hagroups, hbgroups⟩ := Bool.and_eq_true_iff.mp ha
    exact (List.mem_append.mp hh).elim (iha hagroups) (ihb hbgroups)
  | group n a => exact absurd ha Bool.false_ne_true
  | ahead p =>
    rw [Pat.hits] at hh
    split at hh
    · rw [List.mem_singleton.mp hh]
    · exact absurd hh List.not_mem_nil

/-- A cut that is not followed by a character of the run leaves no longer one. -/
theorem length_le_of_cut {p : α → Bool} {w t w' t' : List α} (h : w ++ t = w' ++ t')
    (hne : w ≠ []) (htail : ∀ x ∈ w'.tail, p x = true) (ht : ∀ x u, t = x :: u → p x = false) :
    w'.length ≤ w.length := by
  rcases List.append_eq_append_iff.mp h with ⟨c, rfl, rfl⟩ | ⟨c, rfl, -⟩
  · cases c with
    | nil => simp
    | cons z c =>
      have hz : z ∈ (w ++ z :: c).tail := by
        rw [List.tail_append_of_ne_nil hne]
        simp
      exact absurd ((ht z _ rfl).symm.trans (htail z hz)) Bool.false_ne_true
  · simp

/-- **Where what follows cannot start inside of what goes before**, there is one way to cut the text
and the order of the alternatives does not matter. -/
theorem first_seq_eq_some_iff {a b : Pat α} {p : α → Bool} {g : List α → List (ℕ × List α)}
    (htests : a.testless = true) (hcaps : ∀ s, ∀ h ∈ a.hits s, h.caps = g h.taken)
    (htail : ∀ w, a.Lang w → w ≠ [] ∧ ∀ x ∈ w.tail, p x = true)
    (hb : ∀ x t, p x = true → b.first (x :: t) = none) {s : List α} {r : Hit α} :
    (Pat.seq a b).first s = some r ↔ ∃ w t k, s = w ++ t ∧ a.Lang w ∧ b.first t = some k ∧
      r = ⟨w ++ k.taken, g w ++ k.caps, k.rest⟩ := by
  rw [first_seq]
  constructor
  · intro h
    obtain ⟨x, hx, hr⟩ := List.exists_of_findSome?_eq_some h
    obtain ⟨k, hk, rfl⟩ := Option.map_eq_some_iff.mp hr
    obtain ⟨hs, hlang⟩ := lang_of_mem_hits hx
    exact ⟨x.taken, x.rest, k, hs, hlang, hk, by rw [Hit.andThen, hcaps _ _ hx]⟩
  · rintro ⟨w, t, k, rfl, hw, hk, rfl⟩
    obtain ⟨x, hx, rfl, rfl⟩ := exists_mem_hits htests hw t
    have hstart : ∀ {t : List α} {l : Hit α}, b.first t = some l → ∀ y u, t = y :: u →
        p y = false := by
      rintro t l hl y u rfl
      by_contra hy
      exact absurd (hl.symm.trans (hb y u (by simpa using hy))) (Option.some_ne_none l)
    -- the hits that lead to a match all cut the text at one place
    have hsame : ∀ y ∈ a.hits (x.taken ++ x.rest), ∀ l, b.first y.rest = some l →
        y.taken = x.taken ∧ y.rest = x.rest := by
      intro y hy l hl
      obtain ⟨hs, hlang⟩ := lang_of_mem_hits hy
      refine List.append_inj hs.symm (Nat.le_antisymm ?_ ?_)
      · exact length_le_of_cut hs (htail _ hw).1 (htail _ hlang).2 (hstart hk)
      · exact length_le_of_cut hs.symm (htail _ hlang).1 (htail _ hw).2 (hstart hl)
    obtain ⟨r, hr⟩ : ∃ r, (a.hits (x.taken ++ x.rest)).findSome?
        (fun h ↦ (b.first h.rest).map h.andThen) = some r := by
      rw [← Option.isSome_iff_exists, List.findSome?_isSome_iff]
      exact ⟨x, hx, by simp [hk]⟩
    obtain ⟨y, hy, hyr⟩ := List.exists_of_findSome?_eq_some hr
    obtain ⟨l, hl, rfl⟩ := Option.map_eq_some_iff.mp hyr
    obtain ⟨htaken, hrest⟩ := hsame y hy l hl
    obtain rfl := Option.some.inj ((hrest ▸ hl).symm.trans hk)
    rw [hr, Hit.andThen, hcaps _ _ hy, htaken]

/-- A pattern that cannot start with a character does not match where the text does. -/
theorem first_seq_cons_eq_none {a b : Pat α} {x : α}
    (ha : ∀ w, a.Lang w → ∃ y u, w = y :: u ∧ y ≠ x) (t : List α) :
    (Pat.seq a b).first (x :: t) = none := by
  rw [first_seq, List.findSome?_eq_none_iff]
  intro h hh
  obtain ⟨hs, hlang⟩ := lang_of_mem_hits hh
  obtain ⟨y, u, hw, hne⟩ := ha _ hlang
  rw [hw] at hs
  exact absurd (List.cons.inj hs).1.symm hne

/-! ## Matching a text to its end -/

/-- The match takes all of the text, and the groups capture this. -/
def Pat.Fits (a : Pat α) (s : List α) (caps : List (ℕ × List α)) : Prop :=
  ∃ taken, a.first s = some ⟨taken, caps, []⟩

theorem fits_lit_seq [BEq α] [LawfulBEq α] {c s : List α} {b : Pat α}
    {caps : List (ℕ × List α)} :
    (Pat.seq (lit c) b).Fits s caps ↔ ∃ t, s = c ++ t ∧ b.Fits t caps := by
  constructor
  · rintro ⟨taken, h⟩
    by_cases hc : c <+: s
    · obtain ⟨t, rfl⟩ := hc
      rw [first_lit_seq] at h
      obtain ⟨k, hk, heq⟩ := Option.map_eq_some_iff.mp h
      obtain ⟨-, rfl, hrest⟩ := Hit.mk.inj heq
      exact ⟨t, rfl, k.taken, by rw [hk, ← hrest]⟩
    · rw [first_lit_seq_eq_none b hc] at h
      exact absurd h (by simp)
  · rintro ⟨t, rfl, taken, h⟩
    exact ⟨c ++ taken, by rw [first_lit_seq, h]; rfl⟩

/-- A pattern without groups, in front of what cannot start inside of it. -/
theorem fits_seq {a b : Pat α} {p : α → Bool} (htests : a.testless = true)
    (hgroups : a.groupless = true) (htail : ∀ w, a.Lang w → w ≠ [] ∧ ∀ x ∈ w.tail, p x = true)
    (hb : ∀ x t, p x = true → b.first (x :: t) = none) {s : List α}
    {caps : List (ℕ × List α)} :
    (Pat.seq a b).Fits s caps ↔ ∃ w t, s = w ++ t ∧ a.Lang w ∧ b.Fits t caps := by
  have hfirst {r : Hit α} := first_seq_eq_some_iff (g := fun _ ↦ []) (s := s) (r := r) htests
    (fun _ _ hh ↦ caps_of_groupless hgroups hh) htail hb
  constructor
  · rintro ⟨taken, h⟩
    obtain ⟨w, t, k, hs, hw, hk, heq⟩ := hfirst.mp h
    obtain ⟨-, rfl, hrest⟩ := Hit.mk.inj heq
    exact ⟨w, t, hs, hw, k.taken, by rw [hk, hrest]; rfl⟩
  · rintro ⟨w, t, hs, hw, taken, hk⟩
    exact ⟨w ++ taken, hfirst.mpr ⟨w, t, _, hs, hw, hk, rfl⟩⟩

/-- The same, captured. -/
theorem fits_group_seq {a b : Pat α} {p : α → Bool} (n : ℕ) (htests : a.testless = true)
    (hgroups : a.groupless = true) (htail : ∀ w, a.Lang w → w ≠ [] ∧ ∀ x ∈ w.tail, p x = true)
    (hb : ∀ x t, p x = true → b.first (x :: t) = none) {s : List α}
    {caps : List (ℕ × List α)} :
    (Pat.seq (.group n a) b).Fits s caps ↔
      ∃ w t caps', s = w ++ t ∧ a.Lang w ∧ b.Fits t caps' ∧ caps = (n, w) :: caps' := by
  have hcaps : ∀ s, ∀ h ∈ (Pat.group n a).hits s, h.caps = [(n, h.taken)] := by
    intro s h hh
    obtain ⟨k, hk, rfl⟩ := List.mem_map.mp hh
    rw [caps_of_groupless hgroups hk]
    rfl
  have hfirst {r : Hit α} := first_seq_eq_some_iff (a := .group n a) (g := fun w ↦ [(n, w)])
    (s := s) (r := r) htests hcaps htail hb
  constructor
  · rintro ⟨taken, h⟩
    obtain ⟨w, t, k, hs, hw, hk, heq⟩ := hfirst.mp h
    obtain ⟨-, rfl, hrest⟩ := Hit.mk.inj heq
    exact ⟨w, t, k.caps, hs, hw, ⟨k.taken, by rw [hk, hrest]⟩, rfl⟩
  · rintro ⟨w, t, caps', hs, hw, ⟨taken, hk⟩, rfl⟩
    exact ⟨w ++ taken, hfirst.mpr ⟨w, t, _, hs, hw, hk, rfl⟩⟩

end Regex
