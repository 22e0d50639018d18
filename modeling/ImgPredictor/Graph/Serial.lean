import Mathlib.Data.List.Dedup
import ImgPredictor.Graph.Served

/-!
# One request at a time

The worker goes back and forth between the requests of a location.  How far a request has come is
its own.  What the requests share, the configuration and the error log, is touched by the callbacks,
each of which is run to its end, and by the handlers that log why they refuse a request.  A request
has one such event at most.

`serializable`: **every run is as good as one that takes up the requests one after the other**, each
from its handler to its response, in the order of these events.  It ends in the same phases with the
same configuration, and the module logs the same messages in the same order.
-/

set_option autoImplicit false

namespace ImgPredictor

open Bytes Transition Lists

/-! ## What an event uses -/

section

variable {ι : Type} [DecidableEq ι]

/-- The event is a callback. -/
def Action.isCallback : Action ι → Bool
  | .callback _ _ => true
  | _ => false

/-- The event touches what the requests share: it is a callback, or a handler that logs. -/
def Action.shares (clients : ι → Client) : Action ι → Bool
  | .handle i => !(clients i).dispatch.logged.isEmpty
  | .callback _ _ => true
  | .write _ => false

/-- What an event uses: the phase of its request, `some i`, and what the requests share, `none`. -/
def Action.uses (clients : ι → Client) : Option ι → Action ι → Bool
  | none, a => a.shares clients
  | some i, a => a.client = i

/-- One event, with the log. -/
def Location.stepLog (clients : ι → Client) (s : Location ι × List (ι × Bytes)) (a : Action ι) :
    Option (Location ι × List (ι × Bytes)) :=
  (s.1.step clients a).map fun s₁ ↦ (s₁, s.2 ++ a.lines clients s₁)

/-- The events, a request at a time. -/
def oneByOne (order : List ι) (actions : List (Action ι)) : List (Action ι) :=
  byKey Action.client order actions

/-- The requests of the events that touch what is shared, in the order of these events. -/
def sharers (clients : ι → Client) (actions : List (Action ι)) : List ι :=
  (actions.filter (Action.shares clients)).map Action.client

/-- An order of the requests which takes up those that touch what is shared in the order in which
they do. -/
structure TakesUp (clients : ι → Client) (order : List ι) (actions : List (Action ι)) : Prop where
  /-- No request is taken up twice. -/
  nodup : order.Nodup
  /-- The order of the events that touch what is shared. -/
  shared : order.filter (· ∈ sharers clients actions) = sharers clients actions
  /-- No request is left out. -/
  all : ∀ a ∈ actions, a.client ∈ order

variable {clients : ι → Client} {slot : PluginSlot PluginInfo} {s s₁ : Location ι}

theorem run_stepLog (log : List (ι × Bytes)) (actions : List (Action ι)) :
    run (Location.stepLog clients) (s, log) actions
      = (Location.run clients s actions).map fun s' ↦ (s', log ++ s.log clients actions) := by
  induction actions generalizing s log with
  | nil => simp [Location.log]
  | cons a actions ih =>
    rw [run_cons, Location.run, run_cons, Location.log, Location.stepLog]
    cases s.step clients a with
    | none => rfl
    | some s₁ =>
      simp only [Option.map_some, Option.bind_some]
      rw [ih, List.append_assoc]

/-! ## Events of different requests -/

omit [DecidableEq ι] in
theorem isCallback_of_not_shares {a : Action ι} (ha : a.shares clients = false) :
    a.isCallback = false := by
  cases a with
  | callback i ii => exact absurd ha (by simp [Action.shares])
  | _ => rfl

omit [DecidableEq ι] in
theorem lines_of_not_shares {a : Action ι} (ha : a.shares clients = false) (s₁ : Location ι) :
    a.lines clients s₁ = [] := by
  cases a with
  | handle i =>
    have hnone : (clients i).dispatch.logged = [] := by simpa [Action.shares] using ha
    rw [Action.lines, hnone, List.map_nil]
  | callback i ii => exact absurd ha (by simp [Action.shares])
  | write i => rfl

omit [DecidableEq ι] in
/-- The log tells of the request whose event it is. -/
theorem lines_congr {a : Action ι} (h : s.phase a.client = s₁.phase a.client) :
    a.lines clients s = a.lines clients s₁ := by
  cases a with
  | callback i ii => rw [Action.lines, Action.lines, show s.phase i = s₁.phase i from h]
  | _ => rfl

theorem advance_advance (s : Location ι) {i j : ι} (h : i ≠ j) (p q : Phase) :
    (s.advance i p).advance j q = (s.advance j q).advance i p := by
  simp only [Location.advance, Function.update_comm h]

theorem finish_advance (s : Location ι) {i j : ι} (h : i ≠ j) (p : Phase) (w : World) :
    (s.advance i p).finish j w = (s.finish j w).advance i p := by
  simp only [Location.advance, Location.finish, Function.update_comm h]

/-- An event does not see how far another request has come. -/
theorem step_advance {a : Action ι} {i : ι} (h : i ≠ a.client) (p : Phase) :
    (s.advance i p).step clients a = (s.step clients a).map fun s₁ ↦ s₁.advance i p := by
  rcases a with j | ⟨j, ii⟩ | j
  · have hphase : (s.advance i p).phase j = s.phase j := advance_phase_of_ne h.symm p
    rw [Location.step, Location.step, hphase]
    cases s.phase j with
    | new =>
      have hadvance : (s.advance i p).advance j = fun q ↦ (s.advance j q).advance i p :=
        funext (advance_advance s h p)
      simp only [hadvance, Option.map_map]
      rfl
    | _ => rfl
  · have hphase : (s.advance i p).phase j = s.phase j := advance_phase_of_ne h.symm p
    rw [Location.step, Location.step, hphase]
    cases s.phase j with
    | reading =>
      have hfinish : (s.advance i p).finish j = fun w ↦ (s.finish j w).advance i p :=
        funext (finish_advance s h p)
      simp only [hfinish, Option.map_bind, Function.comp_def, Option.map_map]
      rfl
    | _ => rfl
  · have hphase : (s.advance i p).phase j = s.phase j := advance_phase_of_ne h.symm p
    rw [Location.step, Location.step, hphase]
    cases s.phase j with
    | answered events links => exact congrArg some (advance_advance s h _ _)
    | _ => rfl

/-- The phase once the handler is called. -/
def Phase.handled (client : Client) : Phase → Option Phase
  | .new => client.dispatch.phase
  | _ => none

/-- The phase once the answer is written. -/
def Phase.sent : Phase → Option Phase
  | .answered events links => some (.written events links)
  | _ => none

/-- An event that is no callback looks at one phase, and sets it. -/
theorem exists_step_eq (clients : ι → Client) {a : Action ι} (ha : a.isCallback = false) :
    ∃ f : Phase → Option Phase, ∀ s : Location ι,
      s.step clients a = (f (s.phase a.client)).map (s.advance a.client) := by
  rcases a with i | ⟨i, ii⟩ | i
  · refine ⟨Phase.handled (clients i), fun s ↦ ?_⟩
    rw [Location.step, Action.client]
    cases s.phase i <;> rfl
  · exact absurd ha (by simp [Action.isCallback])
  · refine ⟨Phase.sent, fun s ↦ ?_⟩
    rw [Location.step, Action.client]
    cases s.phase i <;> rfl

/-- The other requests stay where they are. -/
theorem phase_of_step {a : Action ι} (h : s.step clients a = some s₁) {i : ι} (hi : i ≠ a.client) :
    s₁.phase i = s.phase i := by
  obtain ⟨p, hp, -, -⟩ := step_cases h
  rw [hp]
  exact advance_phase_of_ne hi p

/-- After its callback a request is answered. -/
theorem exists_of_callback {i : ι} {ii : ℤ} (h : s.step clients (.callback i ii) = some s₁) :
    ∃ w : World, s₁.phase i = .answered w.trace (outputs w.trace) := by
  rw [Location.step] at h
  split at h
  · obtain ⟨_, -, hrun⟩ := Option.bind_eq_some_iff.mp h
    obtain ⟨w, -, rfl⟩ := Option.map_eq_some_iff.mp hrun
    exact ⟨w, finish_phase_self s i w⟩
  · exact absurd h (by simp)

/-- Two events of different requests, one of which is no callback: the other can be done first. -/
theorem step_swap {a b : Action ι} (hclient : a.client ≠ b.client)
    (h : a.isCallback = false ∨ b.isCallback = false) {s₂ : Location ι}
    (hb : s.step clients b = some s₁) (ha : s₁.step clients a = some s₂) :
    ∃ s₃, s.step clients a = some s₃ ∧ s₃.step clients b = some s₂ := by
  rcases h with h | h
  · obtain ⟨f, hf⟩ := exists_step_eq clients h
    rw [hf, phase_of_step hb hclient] at ha
    obtain ⟨p, hp, rfl⟩ := Option.map_eq_some_iff.mp ha
    exact ⟨s.advance a.client p, by rw [hf, hp]; rfl, by rw [step_advance hclient, hb]; rfl⟩
  · obtain ⟨f, hf⟩ := exists_step_eq clients h
    rw [hf] at hb
    obtain ⟨p, hp, rfl⟩ := Option.map_eq_some_iff.mp hb
    rw [step_advance hclient.symm] at ha
    obtain ⟨s₃, h₃, rfl⟩ := Option.map_eq_some_iff.mp ha
    exact ⟨s₃, h₃, by rw [hf, phase_of_step h₃ hclient.symm, hp]; rfl⟩

/-- **Events commute** unless they are of the same request or both touch what is shared. -/
theorem commuting (clients : ι → Client) :
    Commuting (Location.stepLog clients) (Action.uses clients) where
  uses_some a := ⟨some a.client, by simp [Action.uses]⟩
  swap a b t t' hapart hrun := by
    obtain ⟨s, log⟩ := t
    have hclient : a.client ≠ b.client := by
      have := hapart (some a.client) (by simp [Action.uses])
      simpa [Action.uses, eq_comm] using this
    have hshares : a.shares clients = false ∨ b.shares clients = false := by
      rw [← Bool.not_eq_true, or_iff_not_imp_left, not_not]
      exact hapart none
    rw [run_stepLog] at hrun ⊢
    obtain ⟨s₂, hba, rfl⟩ := Option.map_eq_some_iff.mp hrun
    obtain ⟨s₁, hb, hrest⟩ := (run_cons_eq_some _).mp hba
    obtain ⟨s₂', ha, hend⟩ := (run_cons_eq_some _).mp hrest
    obtain rfl := Option.some.inj hend
    obtain ⟨s₃, ha', hb'⟩ := step_swap hclient
      (hshares.imp isCallback_of_not_shares isCallback_of_not_shares) hb ha
    have hlog : s.log clients [a, b] = s.log clients [b, a] := by
      have halines : a.lines clients s₂' = a.lines clients s₃ :=
        lines_congr (phase_of_step hb' hclient)
      have hblines : b.lines clients s₂' = b.lines clients s₁ :=
        lines_congr (phase_of_step ha hclient.symm)
      simp only [Location.log, ha, hb, ha', hb', halines, hblines, List.append_nil]
      rcases hshares with h | h <;> simp [lines_of_not_shares h]
    have hab : Location.run clients s [a, b] = some s₂' :=
      (run_cons_eq_some _).mpr ⟨s₃, ha', (run_cons_eq_some _).mpr ⟨s₂', hb', rfl⟩⟩
    rw [hlog, hab, Option.map_some]

/-! ## The order of the events that touch what is shared -/

/-- The request is through with what is shared: it was refused, or its callback has run. -/
def Phase.Through : Phase → Prop
  | .new | .reading => False
  | .refused _ | .answered _ _ | .written _ _ => True

/-- An event that touches what is shared is the last of its request to do so. -/
theorem through_of_shares {a : Action ι} (h : s.step clients a = some s₁)
    (ha : a.shares clients = true) : (s₁.phase a.client).Through := by
  rcases a with i | ⟨i, ii⟩ | i
  · rw [Location.step] at h
    split at h
    · obtain ⟨p, hp, rfl⟩ := Option.map_eq_some_iff.mp h
      rw [Action.client, advance_phase_self]
      -- a handler that logs refuses
      rcases Dispatch.phase_cases hp with ⟨rc, logged, -, rfl⟩ | ⟨r, handler, hd, -⟩
      · trivial
      · simp [Action.shares, hd, Dispatch.logged] at ha
    · exact absurd h (by simp)
  · obtain ⟨w, hw⟩ := exists_of_callback h
    rw [Action.client, hw]
    trivial
  · exact absurd ha (by simp [Action.shares])

/-- A request that is through stays so, and does not touch what is shared again. -/
theorem through_of_step {a : Action ι} (h : s.step clients a = some s₁) {i : ι}
    (hi : (s.phase i).Through) :
    (s₁.phase i).Through ∧ (a.shares clients = true → a.client ≠ i) := by
  by_cases hne : i = a.client
  · subst hne
    rcases a with j | ⟨j, ii⟩ | j
    · rw [Action.client] at hi
      rw [Location.step] at h
      cases hp : s.phase j <;> simp [hp, Phase.Through] at h hi
    · rw [Action.client] at hi
      rw [Location.step] at h
      cases hp : s.phase j <;> simp [hp, Phase.Through] at h hi
    · rw [Action.client] at hi
      rw [Location.step] at h
      cases hp : s.phase j <;> simp [hp, Phase.Through] at h hi
      subst h
      rw [Action.client, advance_phase_self]
      exact ⟨trivial, fun h ↦ absurd h (by simp [Action.shares])⟩
  · rw [phase_of_step h hne]
    exact ⟨hi, fun _ ↦ Ne.symm hne⟩

omit [DecidableEq ι] in
theorem sharers_cons (a : Action ι) (actions : List (Action ι)) :
    sharers clients (a :: actions)
      = if a.shares clients = true then a.client :: sharers clients actions
        else sharers clients actions := by
  rw [sharers, List.filter_cons]
  split <;> rfl

theorem notMem_sharers {actions : List (Action ι)} {s' : Location ι}
    (hrun : Location.run clients s actions = some s') {i : ι} (hi : (s.phase i).Through) :
    i ∉ sharers clients actions := by
  induction actions generalizing s with
  | nil => exact List.not_mem_nil
  | cons a actions ih =>
    obtain ⟨s₁, h₁, hrest⟩ := (run_cons_eq_some _).mp hrun
    obtain ⟨hi₁, hne⟩ := through_of_step h₁ hi
    rw [sharers_cons]
    split
    · rename_i ha
      exact List.not_mem_cons_of_ne_of_not_mem (hne ha).symm (ih hrest hi₁)
    · exact ih hrest hi₁

/-- **A request touches what is shared once at most.** -/
theorem nodup_sharers {actions : List (Action ι)} {s' : Location ι}
    (hrun : Location.run clients s actions = some s') : (sharers clients actions).Nodup := by
  induction actions generalizing s with
  | nil => exact List.nodup_nil
  | cons a actions ih =>
    obtain ⟨s₁, h₁, hrest⟩ := (run_cons_eq_some _).mp hrun
    rw [sharers_cons]
    split
    · rename_i ha
      exact List.nodup_cons.mpr ⟨notMem_sharers hrest (through_of_shares h₁ ha), ih hrest⟩
    · exact ih hrest

theorem exists_takesUp {actions : List (Action ι)} (hnodup : (sharers clients actions).Nodup) :
    ∃ order, TakesUp clients order actions := by
  refine ⟨sharers clients actions ++
    (actions.map Action.client).dedup.filter (· ∉ sharers clients actions), ?_, ?_, fun a ha ↦ ?_⟩
  · refine List.nodup_append'.mpr ⟨hnodup, (List.nodup_dedup _).filter _, ?_⟩
    intro i hi hi'
    simpa [hi] using (List.mem_filter.mp hi').2
  · rw [List.filter_append, List.filter_filter]
    simp
  · rw [List.mem_append, List.mem_filter, List.mem_dedup]
    by_cases h : a.client ∈ sharers clients actions
    · exact .inl h
    · exact .inr ⟨List.mem_map_of_mem ha, by simpa using h⟩

/-- A request at a time, everything that is used is used in the same order. -/
theorem TakesUp.filter_uses {order : List ι} {actions : List (Action ι)}
    (h : TakesUp clients order actions) (hnodup : (sharers clients actions).Nodup)
    (r : Option ι) :
    actions.filter (Action.uses clients r)
      = (oneByOne order actions).filter (Action.uses clients r) := by
  rw [oneByOne, filter_byKey]
  cases r with
  | none =>
    have hsharers : ∀ a ∈ actions.filter (Action.uses clients none),
        decide (a.client ∈ sharers clients actions) = true :=
      fun a ha ↦ decide_eq_true (List.mem_map_of_mem ha)
    rw [← byKey_filter_keys (p := fun i ↦ decide (i ∈ sharers clients actions)) hsharers,
      h.shared]
    exact (byKey_map hnodup).symm
  | some i =>
    rw [← filter_byKey]
    by_cases hi : i ∈ order
    · exact (filter_key_byKey h.nodup hi actions).symm
    · have hnone : actions.filter (Action.uses clients (some i)) = [] := by
        rw [List.filter_eq_nil_iff]
        intro a ha hclient
        exact hi (of_decide_eq_true hclient ▸ h.all a ha)
      rw [filter_byKey, hnone]
      exact (byKey_eq_nil fun _ ha ↦ absurd ha List.not_mem_nil).symm

/-- **Every run is as good as one that takes up the requests one after the other.** -/
theorem serializable {actions : List (Action ι)} {s' : Location ι}
    (hrun : Location.run clients s actions = some s') :
    (∃ order, TakesUp clients order actions) ∧ ∀ order, TakesUp clients order actions →
      (oneByOne order actions).Perm actions ∧
      Location.run clients s (oneByOne order actions) = some s' ∧
      s.log clients (oneByOne order actions) = s.log clients actions := by
  have hnodup := nodup_sharers hrun
  refine ⟨exists_takesUp hnodup, fun order h ↦ ⟨byKey_perm h.nodup h.all, ?_⟩⟩
  have hlog : run (Location.stepLog clients) (s, []) actions
      = some (s', [] ++ s.log clients actions) := by
    rw [run_stepLog, hrun, Option.map_some]
  have hserial := (commuting clients).run_reordered (h.filter_uses hnodup) hlog
  rw [run_stepLog, Option.map_eq_some_iff] at hserial
  obtain ⟨s₁, hs₁, heq⟩ := hserial
  obtain ⟨rfl, hsame⟩ := Prod.mk.inj heq
  exact ⟨hs₁, hsame⟩

end

/-- Two pulls, and a request without a body. -/
def crossedClients : Option Bool → Client
  | none => { poemPull [] with request := { getPull with contentLengthN := 0 } }
  | some b => leakClients b

/-- The second pull overtakes the first, and the request without a body is refused in between. -/
def crossedActions : List (Action (Option Bool)) :=
  [.handle (some false), .handle none, .handle (some true), .callback (some true) 65,
    .callback (some false) 0, .write (some false), .write (some true)]

theorem serializable_crossed :
    ∃ s, Location.run crossedClients (.start poemSlot) crossedActions = some s ∧
      Location.run crossedClients (.start poemSlot) [.handle none, .handle (some true),
        .callback (some true) 65, .write (some true), .handle (some false),
        .callback (some false) 0, .write (some false)] = some s ∧
      (Location.start poemSlot).log crossedClients crossedActions
        = [(none, lit "missing graph body"), (some true, lit ", res_json:\x7b\x7d"),
          (some false, lit ", res_json:\x7b\x7d")] := by
  have hsome : (Location.run crossedClients (.start poemSlot) crossedActions).isSome = true := by
    decide +kernel
  obtain ⟨s, hs⟩ := Option.isSome_iff_exists.mp hsome
  have horder : TakesUp crossedClients [none, some true, some false] crossedActions :=
    ⟨by decide, by decide +kernel, by decide⟩
  obtain ⟨-, hserial, hlog⟩ := (serializable hs).2 _ horder
  exact ⟨s, hs, hserial, hlog.symm.trans (by decide +kernel)⟩

end ImgPredictor
