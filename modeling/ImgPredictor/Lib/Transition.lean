import Mathlib.Data.List.Forall2
import Mathlib.Tactic.Common

/-!
# Systems that take steps

A system here is a partial function `step : σ → α → Option σ`; a run is a list of actions, each of
which has to be possible when its turn comes.

* `run_invariant` is the rule for what holds of every state of every run.
* `Unwinds` is the rule for what one observer can tell: the actions that are not its own do not
  change its view, and its own actions do to its view what they would do to an equal view.
  `Unwinds.purge` concludes that a run looks to the observer like the run of its own actions alone.
* `Commuting` is the rule for runs in another order: actions that use nothing in common can be
  swapped.  `Commuting.run_reordered` concludes that a run may be taken in any order that keeps,
  for each thing that is used, the order of the actions that use it.
-/

set_option autoImplicit false

namespace Transition

variable {σ α ν : Type}

/-- A run: the state it ends in, if every action is possible. -/
def run (step : σ → α → Option σ) (s : σ) (actions : List α) : Option σ := actions.foldlM step s

section

variable (step : σ → α → Option σ)

@[simp] theorem run_nil (s : σ) : run step s [] = some s := rfl

theorem run_cons (s : σ) (a : α) (actions : List α) :
    run step s (a :: actions) = (step s a).bind fun s₁ ↦ run step s₁ actions := rfl

theorem run_cons_eq_some {s s' : σ} {a : α} {actions : List α} :
    run step s (a :: actions) = some s' ↔
      ∃ s₁, step s a = some s₁ ∧ run step s₁ actions = some s' := by
  rw [run_cons, Option.bind_eq_some_iff]

/-- **What holds at the start and is kept by every step holds at the end of every run.** -/
theorem run_invariant {step} {P : σ → Prop} (hstep : ∀ s a s₁, P s → step s a = some s₁ → P s₁)
    {s s' : σ} {actions : List α} (hs : P s) (hrun : run step s actions = some s') : P s' := by
  induction actions generalizing s with
  | nil => exact Option.some.inj hrun ▸ hs
  | cons a actions ih =>
    obtain ⟨s₁, h₁, hrest⟩ := (run_cons_eq_some step).mp hrun
    exact ih (hstep s a s₁ hs h₁) hrest

/-- The conditions on a single step under which the observer, whose actions are those `mine` holds
of, sees nothing of the others.  They may rest on an invariant `P`, and the observer's own actions
need only be `alike` in the two runs. -/
structure Unwinds (P : σ → Prop) (mine : α → Bool) (alike : α → α → Prop) (view : σ → ν) :
    Prop where
  /-- The invariant is kept. -/
  keeps : ∀ s a s₁, P s → step s a = some s₁ → P s₁
  /-- An action of another is not seen. -/
  silent : ∀ s a s₁, P s → step s a = some s₁ → mine a = false → view s₁ = view s
  /-- An action of its own depends on what it sees. -/
  consistent : ∀ s s' a a' s₁, P s → P s' → view s = view s' → mine a = true → alike a a' →
    step s a = some s₁ → ∃ s₁', step s' a' = some s₁' ∧ view s₁ = view s₁'

/-- **A run looks like the run of the observer's own actions alone.** -/
theorem Unwinds.purge {step} {P : σ → Prop} {mine : α → Bool} {alike : α → α → Prop}
    {view : σ → ν} (h : Unwinds step P mine alike view) {s s' s₁ : σ} {actions actions' : List α}
    (hs : P s) (hs' : P s') (hview : view s = view s') (hrun : run step s actions = some s₁)
    (halike : List.Forall₂ alike (actions.filter mine) actions') :
    ∃ s₁', run step s' actions' = some s₁' ∧ view s₁ = view s₁' := by
  induction actions generalizing s s' actions' with
  | nil =>
    obtain rfl := Option.some.inj hrun
    rw [List.filter_nil, List.forall₂_nil_left_iff] at halike
    exact ⟨s', by rw [halike, run_nil], hview⟩
  | cons a actions ih =>
    obtain ⟨s₂, h₂, hrest⟩ := (run_cons_eq_some step).mp hrun
    have hs₂ := h.keeps s a s₂ hs h₂
    rcases hmine : mine a with _ | _
    · rw [List.filter_cons_of_neg (by simp [hmine])] at halike
      exact ih hs₂ hs' ((h.silent s a s₂ hs h₂ hmine).trans hview) hrest halike
    · rw [List.filter_cons_of_pos hmine, List.forall₂_cons_left_iff] at halike
      obtain ⟨a', rest, ha, halike, rfl⟩ := halike
      obtain ⟨s₂', h₂', hview₂⟩ := h.consistent s s' a a' s₂ hs hs' hview hmine ha h₂
      obtain ⟨s₁', h₁', hview₁⟩ := ih hs₂ (h.keeps s' a' s₂' hs' h₂') hview₂ hrest halike
      exact ⟨s₁', (run_cons_eq_some step).mpr ⟨s₂', h₂', h₁'⟩, hview₁⟩

/-! ## Another order -/

variable {ρ : Type} {uses : ρ → α → Bool}

/-- Two actions use nothing in common. -/
def Apart (uses : ρ → α → Bool) (a b : α) : Prop := ∀ r, uses r a = true → uses r b = false

/-- What uses nothing in common can be done in either order. -/
structure Commuting (uses : ρ → α → Bool) : Prop where
  /-- Every action uses something. -/
  uses_some : ∀ a, ∃ r, uses r a = true
  /-- Two actions are swapped. -/
  swap : ∀ a b s s', Apart uses a b → run step s [b, a] = some s' → run step s [a, b] = some s'

variable {step}

/-- An action is brought before all that it has nothing in common with. -/
theorem Commuting.run_earlier (h : Commuting step uses) {a : α} {before after : List α}
    (hapart : ∀ b ∈ before, Apart uses a b) {s s' : σ}
    (hrun : run step s (before ++ a :: after) = some s') :
    run step s (a :: (before ++ after)) = some s' := by
  induction before generalizing s with
  | nil => exact hrun
  | cons b before ih =>
    obtain ⟨s₁, hb, hrest⟩ := (run_cons_eq_some step).mp hrun
    obtain ⟨s₂, ha, hrest⟩ := (run_cons_eq_some step).mp
      (ih (fun c hc ↦ hapart c (List.mem_cons_of_mem _ hc)) hrest)
    have hba : run step s [b, a] = some s₂ := by
      simp [run_cons, hb, ha]
    obtain ⟨s₃, ha', hrun'⟩ := (run_cons_eq_some step).mp
      (h.swap a b s s₂ (hapart b List.mem_cons_self) hba)
    obtain ⟨s₄, hb', hend⟩ := (run_cons_eq_some step).mp hrun'
    obtain rfl := Option.some.inj hend
    exact (run_cons_eq_some step).mpr ⟨s₃, ha', (run_cons_eq_some step).mpr ⟨s₄, hb', hrest⟩⟩

/-- What comes before the first action of an order that is to come first has nothing in common
with it. -/
theorem apart_of_filter_eq {a : α} {before after actions : List α} (ha : a ∉ before)
    (h : ∀ r, (before ++ a :: after).filter (uses r) = (a :: actions).filter (uses r)) :
    ∀ b ∈ before, Apart uses a b := by
  intro b hb r hr
  have hfilter := h r
  rw [List.filter_append, List.filter_cons_of_pos hr, List.filter_cons_of_pos hr] at hfilter
  by_contra hbr
  have hmem : b ∈ before.filter (uses r) := List.mem_filter.mpr ⟨hb, by simpa using hbr⟩
  cases hbefore : before.filter (uses r) with
  | nil => exact absurd (hbefore ▸ hmem) List.not_mem_nil
  | cons c rest =>
    rw [hbefore, List.cons_append] at hfilter
    have hc : c ∈ before.filter (uses r) := hbefore ▸ List.mem_cons_self
    exact ha ((List.cons.inj hfilter).1 ▸ (List.mem_filter.mp hc).1)

/-- **A run may be taken in any order** in which, for each thing that is used, the actions that use
it come in the same order. -/
theorem Commuting.run_reordered (h : Commuting step uses) {actions actions' : List α}
    (horder : ∀ r, actions.filter (uses r) = actions'.filter (uses r)) {s s' : σ}
    (hrun : run step s actions = some s') : run step s actions' = some s' := by
  induction actions' generalizing s actions with
  | nil =>
    cases actions with
    | nil => exact hrun
    | cons a actions =>
      obtain ⟨r, hr⟩ := h.uses_some a
      have := horder r
      rw [List.filter_cons_of_pos hr] at this
      exact absurd this (List.cons_ne_nil _ _)
  | cons a actions' ih =>
    obtain ⟨r, hr⟩ := h.uses_some a
    have hmem : a ∈ actions.filter (uses r) := by
      rw [horder r, List.filter_cons_of_pos hr]
      exact List.mem_cons_self
    obtain ⟨before, after, rfl, ha⟩ :=
      List.eq_append_cons_of_mem (List.mem_filter.mp hmem).1
    have hapart := apart_of_filter_eq ha horder
    obtain ⟨s₁, h₁, hrest⟩ := (run_cons_eq_some step).mp (h.run_earlier hapart hrun)
    refine (run_cons_eq_some step).mpr ⟨s₁, h₁, ih (fun r ↦ ?_) hrest⟩
    have hfilter := horder r
    rw [List.filter_append] at hfilter ⊢
    cases hr : uses r a with
    | false =>
      rwa [List.filter_cons_of_neg (by simp [hr]), List.filter_cons_of_neg (by simp [hr])]
        at hfilter
    | true =>
      have hbefore : before.filter (uses r) = [] :=
        List.filter_eq_nil_iff.mpr fun b hb ↦ by simp [hapart b hb r hr]
      rw [hbefore, List.filter_cons_of_pos hr, List.filter_cons_of_pos hr] at hfilter
      rw [hbefore]
      exact (List.cons.inj hfilter).2

end

end Transition
