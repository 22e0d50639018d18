import ImgPredictor.Lib.Lists
import ImgPredictor.Lib.Regex

/-!
# Chains of wildcards

A pattern such as `(.+)a(.+)b(.+)$` reads a text as pieces with delimiters between them.  There may
be many ways to do that, and a greedy engine takes the one that is last everywhere:
`captures_chain_iff`.

* `weave` puts a text together, and a `Reading` takes it apart.
* `IsLast` says of a reading that no delimiter occurs once more in the piece after it.
* `length_head_le` — no reading has a longer first piece than one that is last, which makes it the
  only one of its kind, and `exists_last` says that there is one if there is any.
-/

set_option autoImplicit false

namespace Regex

variable {α : Type}

/-! ## Readings -/

/-- A piece, and then delimiters and pieces in turn. -/
def weave (g : List α) : List (List α × List α) → List α
  | [] => g
  | (d, h) :: rest => g ++ d ++ weave h rest

/-- A text read as pieces, none of which is empty, with these delimiters between them. -/
structure Reading (ds : List (List α)) (t : List α) where
  /-- The first piece. -/
  head : List α
  /-- The delimiters, and the pieces after them. -/
  rest : List (List α × List α)
  /-- The delimiters are the ones given. -/
  delims : rest.map Prod.fst = ds
  /-- They make up the text. -/
  text : weave head rest = t
  /-- The first piece is not empty. -/
  head_ne : head ≠ []
  /-- Nor are the others. -/
  rest_ne : ∀ p ∈ rest, p.2 ≠ []

/-- After the delimiter, and before the last element of the piece, there is not another one. -/
def LastIn (d h : List α) : Prop := ∀ a b, d ++ h = a ++ d ++ b → b ≠ [] → a = []

/-- No delimiter can be found later. -/
def Reading.IsLast {ds : List (List α)} {t : List α} (r : Reading ds t) : Prop :=
  ∀ p ∈ r.rest, LastIn p.1 p.2

theorem append_weave (k g : List α) (rest : List (List α × List α)) :
    k ++ weave g rest = weave (k ++ g) rest := by
  rcases rest with _ | ⟨⟨d, h⟩, rest⟩
  · rfl
  · simp [weave]

theorem weave_eq (g : List α) (rest : List (List α × List α)) :
    weave g rest = g ++ weave [] rest := by
  rw [append_weave, List.append_nil]

theorem prefix_weave (g : List α) (rest : List (List α × List α)) : g <+: weave g rest := by
  rcases rest with _ | ⟨⟨d, h⟩, rest⟩
  · exact List.prefix_rfl
  · rw [weave, List.append_assoc]
    exact List.prefix_append ..

/-- Of two occurrences of a delimiter, what is after the second is after the first as well, and
the text between moves past the delimiter. -/
theorem exists_shift {d m u v : List α} (h : d ++ u = m ++ (d ++ v)) :
    ∃ k, u = k ++ v ∧ d ++ k = m ++ d := by
  obtain ⟨k, rfl⟩ : v <:+ u := by
    have hv : v <:+ d ++ u := by
      rw [h, ← List.append_assoc]
      exact List.suffix_append ..
    refine List.suffix_of_suffix_length_le hv (List.suffix_append ..) ?_
    have hlength := congrArg List.length h
    simp only [List.length_append] at hlength
    omega
  rw [← List.append_assoc, ← List.append_assoc] at h
  exact ⟨k, rfl, List.append_cancel_right h⟩

/-- **No first piece is longer** than that of a reading that is last. -/
theorem length_head_le {g h : List α} {rest rest' : List (List α × List α)}
    (hdelims : rest.map Prod.fst = rest'.map Prod.fst) (htext : weave g rest = weave h rest')
    (hne : ∀ p ∈ rest, p.2 ≠ []) (hlast : ∀ p ∈ rest', LastIn p.1 p.2) :
    g.length ≤ h.length := by
  induction rest' generalizing g h rest with
  | nil =>
    rw [List.map_nil, List.map_eq_nil_iff] at hdelims
    subst hdelims
    exact Nat.le_of_eq (congrArg List.length htext)
  | cons p rest' ih =>
    obtain ⟨d, h₁⟩ := p
    rcases rest with _ | ⟨⟨d', g₁⟩, rest⟩
    · exact absurd hdelims (by simp)
    · obtain ⟨hd, htail⟩ := List.cons.inj hdelims
      obtain rfl : d' = d := hd
      by_contra hlt
      rw [Nat.not_le] at hlt
      simp only [weave, List.append_assoc] at htext
      obtain ⟨m, rfl⟩ : h <+: g := by
        refine List.prefix_of_prefix_length_le (List.prefix_append h (d' ++ weave h₁ rest')) ?_
          (Nat.le_of_lt hlt)
        rw [← htext]
        exact List.prefix_append ..
      -- the delimiter after `g` is `m` later than the one after `h`
      rw [List.append_assoc, List.append_cancel_left_eq] at htext
      obtain ⟨k, hk, hdm⟩ := exists_shift htext.symm
      have hle := ih htail ((append_weave k g₁ rest).symm.trans hk.symm)
        (fun p hp ↦ hne p (List.mem_cons_of_mem _ hp))
        (fun p hp ↦ hlast p (List.mem_cons_of_mem _ hp))
      -- and all of it, with some of its piece, lies in `h₁`
      obtain ⟨z, rfl⟩ : k ++ g₁ <+: h₁ := by
        refine List.prefix_of_prefix_length_le ?_ (prefix_weave h₁ rest') hle
        rw [hk, append_weave]
        exact prefix_weave ..
      have hm : m = [] := by
        refine hlast (d', k ++ g₁ ++ z) List.mem_cons_self m (g₁ ++ z) ?_ ?_
        · rw [List.append_assoc k, ← List.append_assoc, hdm]
        · exact fun h ↦ hne (d', g₁) List.mem_cons_self (List.append_eq_nil_iff.mp h).1
      rw [hm, List.append_nil] at hlt
      exact Nat.lt_irrefl _ hlt

namespace Reading

variable {ds : List (List α)} {t : List α}

/-- A reading of a text, after one more piece and a delimiter. -/
def cons {g : List α} (hg : g ≠ []) (d : List α) (r : Reading ds t) :
    Reading (d :: ds) (g ++ d ++ t) where
  head := g
  rest := (d, r.head) :: r.rest
  delims := by rw [List.map_cons, r.delims]
  text := by rw [weave, r.text]
  head_ne := hg
  rest_ne := List.forall_mem_cons.mpr ⟨r.head_ne, r.rest_ne⟩

/-- A reading without its first piece and delimiter. -/
theorem exists_cons {d : List α} (r : Reading (d :: ds) t) :
    ∃ v, ∃ s : Reading ds v, t = r.head ++ d ++ v ∧ r.rest = (d, s.head) :: s.rest := by
  obtain ⟨g, rest, hdelims, htext, hg, hne⟩ := r
  rcases rest with _ | ⟨⟨d', h⟩, rest⟩
  · exact absurd hdelims (by simp)
  · obtain ⟨hd, htail⟩ := List.cons.inj hdelims
    obtain rfl : d' = d := hd
    obtain ⟨hh, hrest⟩ := List.forall_mem_cons.mp hne
    exact ⟨weave h rest, ⟨h, rest, htail, rfl, hh, hrest⟩, htext.symm, rfl⟩

/-- Moving the first delimiter back as far as it goes. -/
theorem exists_last_cons (ih : ∀ {v : List α}, Reading ds v → ∃ s : Reading ds v, s.IsLast)
    {g d v : List α} (hg : g ≠ []) (s : Reading ds v) :
    ∃ r : Reading (d :: ds) (g ++ d ++ v), r.IsLast := by
  -- the later the delimiter, the shorter the text after it
  induction hn : v.length using Nat.strongRecOn generalizing g v with
  | _ n ihn =>
    obtain ⟨⟨h, rest, hdelims, rfl, hh, hrest⟩, hs⟩ := ih s
    by_cases hlast : LastIn d h
    · exact ⟨cons hg d ⟨h, rest, hdelims, rfl, hh, hrest⟩, List.forall_mem_cons.mpr ⟨hlast, hs⟩⟩
    · rw [LastIn] at hlast
      push Not at hlast
      obtain ⟨a, b, hab, hb, ha⟩ := hlast
      have hlt : (weave b rest).length < n := by
        have hlen := congrArg List.length hab
        have hpos := List.length_pos_of_ne_nil ha
        rw [← hn, weave_eq b, weave_eq h]
        simp only [List.length_append] at hlen ⊢
        omega
      have htext : g ++ d ++ weave h rest = g ++ a ++ d ++ weave b rest := by
        calc g ++ d ++ weave h rest = g ++ (d ++ h) ++ weave [] rest := by
              rw [weave_eq h]
              simp only [List.append_assoc]
          _ = g ++ a ++ d ++ weave b rest := by
              rw [hab, weave_eq b]
              simp only [List.append_assoc]
      rw [htext]
      exact ihn _ hlt (by simp [hg]) ⟨b, rest, hdelims, rfl, hb, hrest⟩ rfl

/-- **There is a reading that is last**, if there is any. -/
theorem exists_last (r : Reading ds t) : ∃ r' : Reading ds t, r'.IsLast := by
  induction ds generalizing t with
  | nil =>
    refine ⟨r, fun p hp ↦ ?_⟩
    rw [List.map_eq_nil_iff.mp r.delims] at hp
    exact absurd hp (by simp)
  | cons d ds ih =>
    obtain ⟨v, s, ht, -⟩ := r.exists_cons
    have hlast := exists_last_cons (d := d) ih r.head_ne s
    rwa [← ht] at hlast

end Reading

/-! ## Delimiters that begin with a separator -/

/-- The delimiter begins with the separator, and that is the only one in it. -/
def Begins (c : α) (d : List α) : Prop := ∃ e, d = c :: e ∧ c ∉ e

section Begins

variable {c : α} {d d' x y x' y' : List α}

/-- Of two delimiters, the one that comes later begins after the other one ends. -/
theorem exists_between (hd : Begins c d) (hd' : Begins c d') {a : List α} (ha : a ≠ [])
    (h : d ++ y = a ++ (d' ++ y')) : ∃ k, a = d ++ k ∧ y = k ++ (d' ++ y') := by
  obtain ⟨e, rfl, he⟩ := hd
  obtain ⟨e', rfl, -⟩ := hd'
  rcases List.append_eq_append_iff.mp h with ⟨k, hk, hy⟩ | ⟨k, hk, hy⟩
  · exact ⟨k, hk, hy⟩
  · rcases k with _ | ⟨z, k⟩
    · exact ⟨[], by simpa using hk.symm, by simpa using hy.symm⟩
    · -- the separator of the later one would be a second one in the other
      obtain ⟨b, rfl⟩ : ∃ b, a = c :: b := by
        rcases a with _ | ⟨b, a⟩
        · exact absurd rfl ha
        · exact ⟨a, by rw [(List.cons.inj hk).1]⟩
      have hz : z = c := (List.cons.inj hy).1.symm
      refine absurd ?_ he
      rw [(List.cons.inj hk).2, hz]
      simp

/-- **Two delimiters in one text do not overlap.** -/
theorem cut (hd : Begins c d) (hd' : Begins c d') (h : x ++ d ++ y = x' ++ d' ++ y') :
    (x = x' ∧ d ++ y = d' ++ y') ∨ (∃ k, x = x' ++ d' ++ k ∧ y' = k ++ d ++ y) ∨
      ∃ k, x' = x ++ d ++ k ∧ y = k ++ d' ++ y' := by
  rw [List.append_assoc, List.append_assoc] at h
  rcases List.append_eq_append_iff.mp h with ⟨a, rfl, heq⟩ | ⟨a, rfl, heq⟩
  · rcases eq_or_ne a [] with rfl | ha
    · exact .inl ⟨by simp, heq⟩
    · obtain ⟨k, rfl, rfl⟩ := exists_between hd hd' ha heq
      exact .inr (.inr ⟨k, by simp, by simp⟩)
  · rcases eq_or_ne a [] with rfl | ha
    · exact .inl ⟨by simp, heq.symm⟩
    · obtain ⟨k, rfl, rfl⟩ := exists_between hd' hd ha heq
      exact .inr (.inl ⟨k, by simp, by simp⟩)

/-- A delimiter that is not in a piece comes after the delimiter that ends it. -/
theorem skip (hd : Begins c d) (hd' : Begins c d') (hne : ∀ y y', d ++ y ≠ d' ++ y')
    (hx : ¬ d' <:+: x) (h : x ++ d ++ y = x' ++ d' ++ y') :
    ∃ k, x' = x ++ d ++ k ∧ y = k ++ d' ++ y' := by
  rcases cut hd hd' h with ⟨-, heq⟩ | ⟨k, rfl, -⟩ | hk
  · exact absurd heq (hne y y')
  · exact absurd ⟨x', k, rfl⟩ hx
  · exact hk

/-- The one that is last comes no earlier than any other. -/
theorem LastIn.later (hy : LastIn d y) (hd : Begins c d) (hy' : y' ≠ [])
    (h : x ++ d ++ y = x' ++ d ++ y') :
    (x = x' ∧ y = y') ∨ ∃ k, x = x' ++ d ++ k ∧ y' = k ++ d ++ y := by
  rcases cut hd hd h with ⟨rfl, heq⟩ | hk | ⟨k, rfl, rfl⟩
  · exact .inl ⟨rfl, List.append_cancel_left heq⟩
  · exact .inr hk
  · have hnil := hy (d ++ k) y' (by simp) hy'
    obtain ⟨e, rfl, -⟩ := hd
    exact absurd hnil (by simp)

/-- There is one that is last. -/
theorem LastIn.unique (hy : LastIn d y) (hy' : LastIn d y') (hd : Begins c d) (hne : y ≠ [])
    (hne' : y' ≠ []) (h : x ++ d ++ y = x' ++ d ++ y') : x = x' ∧ y = y' := by
  rcases hy.later hd hne' h with heq | ⟨k, rfl, rfl⟩
  · exact heq
  · have hnil := hy' (d ++ k) y (by simp) hne
    obtain ⟨e, rfl, -⟩ := hd
    exact absurd hnil (by simp)

theorem lastIn_of_absent (hd : Begins c d) (h : ¬ d <:+: y) : LastIn d y := by
  intro a b heq hb
  have hcut := cut (x := []) hd hd heq
  rcases hcut with ⟨rfl, -⟩ | ⟨k, hk, -⟩ | ⟨k, -, rfl⟩
  · rfl
  · obtain ⟨e, rfl, -⟩ := hd
    exact absurd hk (by simp)
  · exact absurd ⟨k, b, rfl⟩ h

/-- A delimiter that is not in the rest is the last one. -/
theorem LastIn.unique_of_absent (hy : LastIn d y) (hd : Begins c d) (h' : ¬ d <:+: y')
    (hne : y ≠ []) (hne' : y' ≠ []) (h : x ++ d ++ y = x' ++ d ++ y') : x = x' ∧ y = y' :=
  hy.unique (lastIn_of_absent hd h') hd hne hne' h

/-- A delimiter in a text is in one of the pieces. -/
theorem infix_append_iff (hd : Begins c d) (hd' : Begins c d') (hne : ∀ y y', d ++ y ≠ d' ++ y') :
    d' <:+: x ++ d ++ y ↔ d' <:+: x ∨ d' <:+: y := by
  constructor
  · rintro ⟨a, b, heq⟩
    by_cases hx : d' <:+: x
    · exact .inl hx
    · obtain ⟨k, -, rfl⟩ := skip hd hd' hne hx heq.symm
      exact .inr ⟨k, b, rfl⟩
  · rintro (⟨a, b, rfl⟩ | ⟨a, b, rfl⟩)
    · exact ⟨a, b ++ d ++ y, by simp⟩
    · exact ⟨x ++ d ++ a, b, by simp⟩

/-- A delimiter is in a text without an element it does not have. -/
theorem infix_append_cons_iff {z : α} (hz : z ∉ d) :
    d <:+: x ++ z :: y ↔ d <:+: x ∨ d <:+: y := by
  constructor
  · rintro ⟨a, b, heq⟩
    rcases List.append_eq_append_iff.mp heq with ⟨k, rfl, -⟩ | ⟨k, hk, hb⟩
    · exact .inl ⟨a, k, rfl⟩
    · rcases k with _ | ⟨z', k⟩
      · exact .inl ⟨a, [], by simpa using hk⟩
      · obtain ⟨rfl, rfl⟩ := List.cons.inj hb
        rcases List.append_eq_append_iff.mp hk with ⟨m, rfl, hm⟩ | ⟨m, rfl, hm⟩
        · exact absurd (hm ▸ by simp) hz
        · rcases m with _ | ⟨z', m⟩
          · exact absurd (by rw [← show z :: k = d by simpa using hm]; simp) hz
          · obtain ⟨-, rfl⟩ := List.cons.inj hm
            exact .inr ⟨m, b, rfl⟩
  · rintro (⟨a, b, rfl⟩ | ⟨a, b, rfl⟩)
    · exact ⟨a, b ++ z :: y, by simp⟩
    · exact ⟨x ++ z :: a, b, by simp⟩

/-- Of a piece that ends in an element the delimiter does not have, the delimiter is last if it is
not in the piece. -/
theorem lastIn_concat_iff {z : α} (hd : Begins c d) (hz : z ∉ d) :
    LastIn d (y ++ [z]) ↔ ¬ d <:+: y ++ [z] := by
  refine ⟨fun h ↦ ?_, lastIn_of_absent hd⟩
  obtain ⟨e, rfl, -⟩ := hd
  rintro ⟨a, b, heq⟩
  rcases eq_or_ne b [] with rfl | hb
  · refine hz ?_
    have hlast := congrArg List.getLast? heq
    rw [List.append_nil, List.getLast?_append, List.getLast?_concat] at hlast
    exact List.mem_of_getLast? (by simpa using hlast)
  · exact absurd (h (c :: e ++ a) b (by simp [← heq]) hb) (by simp)

end Begins

/-! ## Runs -/

section Runs

variable {p : α → Bool}

theorem mem_splits {s w r : List α} :
    (w, r) ∈ splits p s ↔ s = w ++ r ∧ ∀ x ∈ w, p x = true := by
  induction s generalizing w with
  | nil =>
    rw [splits, List.mem_singleton, Prod.mk.injEq]
    constructor
    · rintro ⟨rfl, rfl⟩
      simp
    · rintro ⟨h, -⟩
      exact List.append_eq_nil_iff.mp h.symm
  | cons x s ih =>
    rw [splits]
    rcases w with _ | ⟨y, w⟩
    · split <;> simp <;> exact eq_comm
    · split <;> simp [ih]
      · grind
      · grind

/-- What a search finds at the longest run it succeeds after. -/
theorem findSome?_splits {β : Type} {f : List α × List α → Option β} {w r : List α} {v : β}
    (hw : ∀ x ∈ w, p x = true) (hv : f (w, r) = some v)
    (hlong : ∀ w' r', w ++ r = w' ++ r' → w.length < w'.length → (∀ x ∈ w', p x = true) →
      f (w', r') = none) : (splits p (w ++ r)).findSome? f = some v := by
  induction w generalizing f with
  | nil =>
    rcases r with _ | ⟨x, r⟩
    · simpa [splits] using hv
    · rw [List.nil_append, splits]
      split
      · rw [List.findSome?_append, List.findSome?_singleton, hv, Option.or_eq_some_iff]
        refine .inr ⟨List.findSome?_eq_none_iff.mpr fun a ha ↦ ?_, rfl⟩
        obtain ⟨⟨w', r'⟩, hmem, rfl⟩ := List.mem_map.mp ha
        obtain ⟨rfl, hp⟩ := mem_splits.mp hmem
        exact hlong (x :: w') r' rfl (by simp) (List.forall_mem_cons.mpr ⟨‹_›, hp⟩)
      · simpa using hv
  | cons x w ih =>
    obtain ⟨hx, hw⟩ := List.forall_mem_cons.mp hw
    rw [List.cons_append, splits, if_pos hx, List.findSome?_append, List.findSome?_map,
      ih (f := f ∘ fun t ↦ (x :: t.1, t.2)) hw hv ?_]
    · rfl
    · intro w' r' heq hlt hp
      exact hlong (x :: w') r' (congrArg (x :: ·) heq) (Nat.succ_lt_succ hlt)
        (List.forall_mem_cons.mpr ⟨hx, hp⟩)

variable {b : Pat α}

/-- **A captured run is the longest one the rest can follow.** -/
theorem captures_plus_seq_of_longest (n : ℕ) {w r : List α} {caps : List (ℕ × List α)}
    (hne : w ≠ []) (hw : ∀ x ∈ w, p x = true) (hb : b.captures r = some caps)
    (hlong : ∀ w' r', w ++ r = w' ++ r' → w.length < w'.length → (∀ x ∈ w', p x = true) →
      b.captures r' = none) :
    (Pat.seq (.group n (plus p)) b).captures (w ++ r) = some ((n, w) :: caps) := by
  rcases w with _ | ⟨x, w⟩
  · exact absurd rfl hne
  · obtain ⟨hx, hw⟩ := List.forall_mem_cons.mp hw
    rw [List.cons_append, captures_plus_seq_cons p b n hx]
    refine findSome?_splits hw (by simp [hb]) fun w' r' heq hlt hp ↦ ?_
    rw [hlong (x :: w') r' (congrArg (x :: ·) heq) (Nat.succ_lt_succ hlt)
      (List.forall_mem_cons.mpr ⟨hx, hp⟩)]
    rfl

/-- A captured run has something in it, and the rest follows. -/
theorem exists_of_captures_plus_seq {n : ℕ} {s : List α} {caps : List (ℕ × List α)}
    (h : (Pat.seq (.group n (plus p)) b).captures s = some caps) :
    ∃ w r caps', s = w ++ r ∧ w ≠ [] ∧ (∀ x ∈ w, p x = true) ∧ b.captures r = some caps' := by
  rcases s with _ | ⟨x, s⟩
  · exact absurd h (by simp [Pat.captures, first_seq, Pat.hits, plus])
  · cases hx : p x with
    | false => exact absurd h (by simp [Pat.captures, first_seq, Pat.hits, plus, hx])
    | true =>
      rw [captures_plus_seq_cons p b n hx] at h
      obtain ⟨⟨w, r⟩, hmem, hr⟩ := List.exists_of_findSome?_eq_some h
      obtain ⟨rfl, hw⟩ := mem_splits.mp hmem
      obtain ⟨caps', hcaps, -⟩ := Option.map_eq_some_iff.mp hr
      exact ⟨x :: w, r, caps', rfl, List.cons_ne_nil _ _, List.forall_mem_cons.mpr ⟨hx, hw⟩, hcaps⟩

/-! The end of the text is a test that nothing of the class passes. -/

variable {q : List α → Bool}

theorem captures_ahead (s : List α) :
    (Pat.ahead q).captures s = if q s then some [] else none := by
  rw [Pat.captures, Pat.first, Pat.hits]
  split <;> rfl

/-- A text of the class, and what stops it, are told apart. -/
theorem append_inj_of_class (hq : ∀ x t, p x = true → q (x :: t) = false) {t t' e e' : List α}
    (h : t ++ e = t' ++ e') (ht : ∀ x ∈ t, p x = true) (ht' : ∀ x ∈ t', p x = true)
    (he : q e = true) (he' : q e' = true) : t = t' ∧ e = e' := by
  have hstop : ∀ e, q e = true → ∀ x ∈ e.head?, p x = false := by
    intro e he x hx
    obtain ⟨y, rfl⟩ := List.head?_eq_some_iff.mp hx
    cases hpx : p x with
    | false => rfl
    | true => exact absurd he (by simp [hq x y hpx])
  obtain ⟨h₁, h₂⟩ := Lists.takeWhile_append_of_boundary ht (hstop e he)
  obtain ⟨h₁', h₂'⟩ := Lists.takeWhile_append_of_boundary ht' (hstop e' he')
  exact ⟨by rw [← h₁, h, h₁'], by rw [← h₂, h, h₂']⟩

end Runs

/-! ## The pattern -/

section Chain

variable [BEq α] (p : α → Bool) (q : List α → Bool)

/-- `(p+)`, the first delimiter, `(p+)`, the second and so on, and a test of what is left.  The
groups are numbered from `n` on. -/
def chain (n : ℕ) : List (List α) → Pat α
  | [] => .seq (.group n (plus p)) (.ahead q)
  | d :: ds => .seq (.group n (plus p)) (.seq (lit d) (chain (n + 1) ds))

/-- Groups, numbered from `n` on. -/
def number (n : ℕ) : List (List α) → List (ℕ × List α)
  | [] => []
  | g :: gs => (n, g) :: number (n + 1) gs

/-- The pieces of a reading. -/
def Reading.pieces {ds : List (List α)} {t : List α} (r : Reading ds t) : List (List α) :=
  r.head :: r.rest.map Prod.snd

variable {p q} [LawfulBEq α]

/-- What a delimiter is followed by. -/
theorem captures_lit_seq_eq_some {d s : List α} {b : Pat α} {caps : List (ℕ × List α)}
    (h : (Pat.seq (lit d) b).captures s = some caps) :
    ∃ r, s = d ++ r ∧ b.captures r = some caps := by
  by_cases hd : d <+: s
  · obtain ⟨r, rfl⟩ := hd
    exact ⟨r, rfl, by rwa [captures_lit_seq] at h⟩
  · exact absurd h (by simp [captures_lit_seq_eq_none b hd])

/-- A match of the chain reads what it takes in. -/
theorem exists_reading {ds : List (List α)} (hds : ∀ d ∈ ds, ∀ x ∈ d, p x = true) {n : ℕ}
    {s : List α} {caps : List (ℕ × List α)} (h : (chain p q n ds).captures s = some caps) :
    ∃ t e, s = t ++ e ∧ Nonempty (Reading ds t) ∧ (∀ x ∈ t, p x = true) ∧ q e = true := by
  induction ds generalizing n s caps with
  | nil =>
    obtain ⟨w, r, caps', rfl, hne, hw, hr⟩ := exists_of_captures_plus_seq h
    rw [captures_ahead] at hr
    split at hr
    · exact ⟨w, r, rfl, ⟨⟨w, [], rfl, rfl, hne, by simp⟩⟩, hw, ‹_›⟩
    · exact absurd hr (by simp)
  | cons d ds ih =>
    obtain ⟨hd, hds⟩ := List.forall_mem_cons.mp hds
    obtain ⟨w, r, caps', rfl, hne, hw, hr⟩ := exists_of_captures_plus_seq h
    obtain ⟨r, rfl, hrest⟩ := captures_lit_seq_eq_some hr
    obtain ⟨t, e, rfl, ⟨reading⟩, ht, he⟩ := ih hds hrest
    refine ⟨w ++ d ++ t, e, by simp, ⟨reading.cons hne d⟩, ?_, he⟩
    simp only [List.forall_mem_append]
    exact ⟨⟨hw, hd⟩, ht⟩

/-- The reading that is last is what the pattern captures. -/
theorem captures_chain_of_isLast (hq : ∀ x t, p x = true → q (x :: t) = false)
    {ds : List (List α)} (hds : ∀ d ∈ ds, ∀ x ∈ d, p x = true) {t e : List α}
    (ht : ∀ x ∈ t, p x = true) (he : q e = true) (n : ℕ) {r : Reading ds t} (hr : r.IsLast) :
    (chain p q n ds).captures (t ++ e) = some (number n r.pieces) := by
  induction ds generalizing n t with
  | nil =>
    obtain ⟨g, rest, hdelims, rfl, hg, -⟩ := r
    obtain rfl := List.map_eq_nil_iff.mp hdelims
    refine captures_plus_seq_of_longest n hg ht (by rw [captures_ahead, if_pos he]; rfl) ?_
    intro w' r' heq hlt hw'
    rw [captures_ahead, if_neg]
    intro hr'
    have hsame := (append_inj_of_class hq heq ht hw' he hr').1
    exact Nat.lt_irrefl _ (hsame ▸ hlt)
  | cons d ds ih =>
    obtain ⟨hd, hds'⟩ := List.forall_mem_cons.mp hds
    obtain ⟨v, s, hv, hrest⟩ := r.exists_cons
    have hlast := hr
    rw [Reading.IsLast, hrest, List.forall_mem_cons] at hlast
    have hg : ∀ x ∈ r.head, p x = true := fun x hx ↦ ht x (by simp [hv, hx])
    have hvp : ∀ x ∈ v, p x = true := fun x hx ↦ ht x (by simp [hv, hx])
    have hpieces : r.pieces = r.head :: s.pieces := by rw [Reading.pieces, hrest]; rfl
    have htext : t ++ e = r.head ++ (d ++ (v ++ e)) := by simp [hv]
    rw [hpieces, htext]
    refine captures_plus_seq_of_longest n r.head_ne hg ?_ fun w' r' heq hlt hw' ↦ ?_
    · rw [captures_lit_seq]
      exact ih hds' hvp (n + 1) hlast.2
    · -- a match after a longer run would be a reading with a longer first piece
      rcases hcaps : (Pat.seq (lit d) (chain p q (n + 1) ds)).captures r' with _ | caps
      · rfl
      · obtain ⟨r', rfl, hr'⟩ := captures_lit_seq_eq_some hcaps
        obtain ⟨t', e', rfl, ⟨s'⟩, ht', he'⟩ := exists_reading hds' hr'
        have heq' : t ++ e = (w' ++ d ++ t') ++ e' := by
          rw [htext, heq]
          simp only [List.append_assoc]
        obtain ⟨hsame, -⟩ := append_inj_of_class hq heq' ht
          (by simpa only [List.forall_mem_append] using ⟨⟨hw', hd⟩, ht'⟩) he he'
        have hne : w' ≠ [] := List.ne_nil_of_length_pos (Nat.zero_lt_of_lt hlt)
        have hle : (s'.cons hne d).head.length ≤ r.head.length :=
          length_head_le ((s'.cons hne d).delims.trans r.delims.symm)
            ((s'.cons hne d).text.trans (hsame.symm.trans r.text.symm)) (s'.cons hne d).rest_ne hr
        exact absurd hle (Nat.not_le_of_lt hlt)

/-- **A chain of greedy wildcards reads the text from the right**: it captures the pieces of the
reading that is last. -/
theorem captures_chain_iff (hq : ∀ x t, p x = true → q (x :: t) = false)
    {ds : List (List α)} (hds : ∀ d ∈ ds, ∀ x ∈ d, p x = true) {t e : List α}
    (ht : ∀ x ∈ t, p x = true) (he : q e = true) {n : ℕ} {caps : List (ℕ × List α)} :
    (chain p q n ds).captures (t ++ e) = some caps ↔
      ∃ r : Reading ds t, r.IsLast ∧ caps = number n r.pieces := by
  constructor
  · intro h
    obtain ⟨t', e', heq, ⟨r⟩, ht', he'⟩ := exists_reading hds h
    obtain ⟨rfl, rfl⟩ := append_inj_of_class hq heq ht ht' he he'
    obtain ⟨r', hr'⟩ := r.exists_last
    rw [captures_chain_of_isLast hq hds ht he n hr'] at h
    exact ⟨r', hr', (Option.some.inj h).symm⟩
  · rintro ⟨r, hr, rfl⟩
    exact captures_chain_of_isLast hq hds ht he n hr

end Chain

end Regex
