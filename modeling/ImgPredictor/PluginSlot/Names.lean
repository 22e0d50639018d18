import Mathlib.Data.List.Induction
import ImgPredictor.PluginSlot.Table

/-!
# The table of names, over a run of calls

`load` and the handler behind it use the slot as a table of names: what was inserted under a name
is what is found under it.  This file says what that means for a list of calls on an empty slot,
with any names and pointers in any order (`NameTable`), and when it is so.

It is not always so.  `insert_plugin` reports `true` for every name and pointer that are not empty,
and does not look at whether `std::map::insert` did insert: under a name in use the old entry stays
and the new pointer is lost.  `nameTable_iff` says that this is the only way to go wrong: the slot
is a table of names in a run exactly when no name is inserted a second time, with another pointer,
before it is erased.

What is found under a name comes from the run alone (`exists_insert_of_getPluginInfo`), and an
entry stays until its name is erased (`getPluginInfo_after_of_notMem`); both directions of
`nameTable_iff` are these two put together.
-/

set_option autoImplicit false

namespace ImgPredictor

/-- A call on the slot. -/
inductive SlotCall (P : Type)
  /-- `get_plugin_info` -/
  | getPluginInfo (pluginName : Bytes)
  /-- `insert_plugin`; `none` is the null pointer. -/
  | insertPlugin (name : Bytes) (pit : Option P)
  /-- `erase_plugin` -/
  | erasePlugin (name : Bytes)

namespace SlotCall

variable {P : Type}

/-- The name the call mentions. -/
def name : SlotCall P → Bytes
  | getPluginInfo pluginName => pluginName
  | insertPlugin name _ => name
  | erasePlugin name => name

/-- The name whose entry the call is about to change, if it is there to change one. -/
def target : SlotCall P → Option Bytes
  | getPluginInfo _ => none
  | insertPlugin name _ => some name
  | erasePlugin name => some name

theorem target_ne_of_name_ne {call : SlotCall P} {k : Bytes} (h : call.name ≠ k) :
    call.target ≠ some k := by
  cases call with
  | getPluginInfo => exact (Option.some_ne_none k).symm
  | insertPlugin name pit => exact fun heq ↦ h (Option.some.inj heq)
  | erasePlugin name => exact fun heq ↦ h (Option.some.inj heq)

end SlotCall

namespace PluginSlot

open Bytes

variable {P : Type}

/-- The slot after one call. -/
def call (slot : PluginSlot P) : SlotCall P → PluginSlot P
  | .getPluginInfo _ => slot
  | .insertPlugin name pit => (slot.insertPlugin name pit).2
  | .erasePlugin name => slot.erasePlugin name

/-- The slot after a list of calls, the first one first. -/
def after (slot : PluginSlot P) (calls : List (SlotCall P)) : PluginSlot P :=
  calls.foldl call slot

theorem after_append (slot : PluginSlot P) (calls calls' : List (SlotCall P)) :
    slot.after (calls ++ calls') = (slot.after calls).after calls' :=
  List.foldl_append

theorem after_concat (slot : PluginSlot P) (calls : List (SlotCall P)) (c : SlotCall P) :
    slot.after (calls ++ [c]) = (slot.after calls).call c := by
  rw [after_append]
  rfl

/-! ## One call -/

theorem getPluginInfo_erasePlugin (slot : PluginSlot P) (name k : Bytes) :
    (slot.erasePlugin name).getPluginInfo k = if name = k then none else slot.getPluginInfo k := by
  rw [erasePlugin, getPluginInfo, getPluginInfo, Std.ExtTreeMap.getElem?_erase]
  simp only [Std.LawfulEqCmp.compare_eq_iff_eq]

/-- **What `insert_plugin` reports is decided by its arguments alone.** -/
theorem insertPlugin_fst_eq_true {slot : PluginSlot P} {name : Bytes} {pit : Option P} :
    (slot.insertPlugin name pit).1 = true ↔ name ≠ [] ∧ ∃ p, pit = some p := by
  cases name with
  | nil => simp [insertPlugin]
  | cons x name => cases pit <;> simp [insertPlugin]

theorem insertPlugin_of_refused {slot : PluginSlot P} {name : Bytes} {pit : Option P}
    (h : (slot.insertPlugin name pit).1 = false) : (slot.insertPlugin name pit).2 = slot := by
  cases name with
  | nil => rfl
  | cons x name =>
    cases pit with
    | none => rfl
    | some p => exact Bool.noConfusion h

/-- **A call changes no entry but the one it is about.** -/
theorem getPluginInfo_call_of_target_ne {slot : PluginSlot P} {c : SlotCall P} {k : Bytes}
    (h : c.target ≠ some k) : (slot.call c).getPluginInfo k = slot.getPluginInfo k := by
  cases c with
  | getPluginInfo => rfl
  | insertPlugin name pit =>
    have hk : name ≠ k := fun heq ↦ h (congrArg some heq)
    cases hreport : (slot.insertPlugin name pit).1 with
    | false => rw [call, insertPlugin_of_refused hreport]
    | true =>
      obtain ⟨hn, p, rfl⟩ := insertPlugin_fst_eq_true.mp hreport
      rw [call, getPluginInfo_insertPlugin hn, if_neg hk, Option.or_none]
  | erasePlugin name =>
    have hk : name ≠ k := fun heq ↦ h (congrArg some heq)
    rw [call, getPluginInfo_erasePlugin, if_neg hk]

/-- **An entry stays until its name is erased**, inserted again or not. -/
theorem getPluginInfo_call_of_ne_erase {slot : PluginSlot P} {c : SlotCall P} {k : Bytes} {p : P}
    (hp : slot.getPluginInfo k = some p) (h : c ≠ .erasePlugin k) :
    (slot.call c).getPluginInfo k = some p := by
  by_cases htarget : c.target = some k
  · cases c with
    | getPluginInfo => exact absurd htarget.symm (Option.some_ne_none k)
    | insertPlugin name pit =>
      obtain rfl : name = k := Option.some.inj htarget
      rw [call, insertPlugin_of_mem hp, hp]
    | erasePlugin name => exact absurd (congrArg SlotCall.erasePlugin (Option.some.inj htarget)) h
  · rw [getPluginInfo_call_of_target_ne htarget, hp]

/-- An insertion that is accepted finds its own pointer where the name was free. -/
theorem getPluginInfo_call_insertPlugin_of_none {slot : PluginSlot P} {name : Bytes}
    (hn : name ≠ []) (hfree : slot.getPluginInfo name = none) (p : P) :
    (slot.call (.insertPlugin name (some p))).getPluginInfo name = some p := by
  rw [call, getPluginInfo_insertPlugin hn, hfree, if_pos rfl, Option.none_or]

/-- **An entry that was not there before a call was inserted by it.** -/
theorem eq_insertPlugin_of_getPluginInfo_call {slot : PluginSlot P} {c : SlotCall P} {k : Bytes}
    {p : P} (hbefore : slot.getPluginInfo k = none) (h : (slot.call c).getPluginInfo k = some p) :
    c = .insertPlugin k (some p) ∧ k ≠ [] := by
  have htarget : c.target = some k := by
    by_contra hne
    rw [getPluginInfo_call_of_target_ne hne, hbefore] at h
    exact absurd h.symm (Option.some_ne_none p)
  cases c with
  | getPluginInfo => exact absurd htarget.symm (Option.some_ne_none k)
  | erasePlugin name =>
    obtain rfl : name = k := Option.some.inj htarget
    rw [call, getPluginInfo_erasePlugin, if_pos rfl] at h
    exact absurd h.symm (Option.some_ne_none p)
  | insertPlugin name pit =>
    obtain rfl : name = k := Option.some.inj htarget
    cases hreport : (slot.insertPlugin name pit).1 with
    | false =>
      rw [call, insertPlugin_of_refused hreport, hbefore] at h
      exact absurd h.symm (Option.some_ne_none p)
    | true =>
      obtain ⟨hn, q, rfl⟩ := insertPlugin_fst_eq_true.mp hreport
      rw [getPluginInfo_call_insertPlugin_of_none hn hbefore] at h
      exact ⟨congrArg (SlotCall.insertPlugin name) h, hn⟩

/-! ## A run of calls -/

theorem getPluginInfo_after_of_target_ne {slot : PluginSlot P} {calls : List (SlotCall P)}
    {k : Bytes} (h : ∀ c ∈ calls, c.target ≠ some k) :
    (slot.after calls).getPluginInfo k = slot.getPluginInfo k := by
  induction calls generalizing slot with
  | nil => rfl
  | cons c calls ih =>
    rw [List.forall_mem_cons] at h
    exact (ih h.2).trans (getPluginInfo_call_of_target_ne h.1)

theorem getPluginInfo_after_of_notMem {slot : PluginSlot P} {calls : List (SlotCall P)}
    {k : Bytes} {p : P} (hp : slot.getPluginInfo k = some p)
    (h : SlotCall.erasePlugin k ∉ calls) : (slot.after calls).getPluginInfo k = some p := by
  induction calls generalizing slot with
  | nil => exact hp
  | cons c calls ih =>
    rw [List.mem_cons, not_or] at h
    exact ih (getPluginInfo_call_of_ne_erase hp (Ne.symm h.1)) h.2

/-- **What is found was inserted by the run**, and its name was not erased since. -/
theorem exists_insert_of_getPluginInfo {calls : List (SlotCall P)} {k : Bytes} {p : P}
    (h : (empty.after calls).getPluginInfo k = some p) :
    ∃ pre mid, calls = pre ++ .insertPlugin k (some p) :: mid ∧
      k ≠ [] ∧ SlotCall.erasePlugin k ∉ mid := by
  induction calls using List.reverseRecOn with
  | nil => exact absurd (h.symm.trans (getPluginInfo_empty k)) (Option.some_ne_none p)
  | append_singleton calls c ih =>
    rw [after_concat] at h
    cases hbefore : (empty.after calls).getPluginInfo k with
    | some q =>
      -- the entry was there before the call, which therefore did not erase it
      have hc : c ≠ .erasePlugin k := by
        rintro rfl
        rw [call, getPluginInfo_erasePlugin, if_pos rfl] at h
        exact absurd h.symm (Option.some_ne_none p)
      obtain rfl : q = p :=
        Option.some.inj ((getPluginInfo_call_of_ne_erase hbefore hc).symm.trans h)
      obtain ⟨pre, mid, rfl, hk, hmid⟩ := ih hbefore
      refine ⟨pre, mid ++ [c], by rw [List.append_assoc, List.cons_append], hk, ?_⟩
      rw [List.mem_append, List.mem_singleton, not_or]
      exact ⟨hmid, Ne.symm hc⟩
    | none =>
      -- it was not, so the call is the insertion
      obtain ⟨rfl, hk⟩ := eq_insertPlugin_of_getPluginInfo_call hbefore h
      exact ⟨calls, [], rfl, hk, List.not_mem_nil⟩

/-! ## The table of names -/

/-- The slot is a table of names in a run of calls from the empty slot. -/
structure NameTable (calls : List (SlotCall P)) : Prop where
  /-- What was inserted is found until the next call that inserts or erases the name. -/
  inserted : ∀ pre mid post name pit, calls = pre ++ .insertPlugin name pit :: (mid ++ post) →
    ((empty.after pre).insertPlugin name pit).1 = true → (∀ c ∈ mid, c.target ≠ some name) →
    (empty.after (pre ++ .insertPlugin name pit :: mid)).getPluginInfo name = pit
  /-- What was refused changes nothing. -/
  refused : ∀ pre post name pit, calls = pre ++ .insertPlugin name pit :: post →
    ((empty.after pre).insertPlugin name pit).1 = false →
    empty.after (pre ++ [.insertPlugin name pit]) = empty.after pre
  /-- A name the call does not mention keeps its entry. -/
  others : ∀ pre c post k, calls = pre ++ c :: post → c.name ≠ k →
    (empty.after (pre ++ [c])).getPluginInfo k = (empty.after pre).getPluginInfo k

/-- Two insertions of one name that are both accepted, with no erasure of the name between them,
are of one pointer. -/
def InsertionsAgree (calls : List (SlotCall P)) : Prop :=
  ∀ pre mid post name p q,
    calls = pre ++ .insertPlugin name (some p) :: (mid ++ .insertPlugin name (some q) :: post) →
    name ≠ [] → SlotCall.erasePlugin name ∉ mid → p = q

/-- Where the insertions agree, an accepted one finds its own pointer. -/
theorem InsertionsAgree.getPluginInfo_insert {pre post : List (SlotCall P)} {name : Bytes} {p : P}
    (h : InsertionsAgree (pre ++ .insertPlugin name (some p) :: post)) (hn : name ≠ []) :
    (empty.after (pre ++ [.insertPlugin name (some p)])).getPluginInfo name = some p := by
  rw [after_concat]
  cases hbefore : (empty.after pre).getPluginInfo name with
  | none => exact getPluginInfo_call_insertPlugin_of_none hn hbefore p
  | some q =>
    obtain ⟨pre', mid, rfl, -, hmid⟩ := exists_insert_of_getPluginInfo hbefore
    obtain rfl : q = p :=
      h pre' mid post name q p (by rw [List.append_assoc, List.cons_append]) hn hmid
    exact getPluginInfo_call_of_ne_erase hbefore (by simp)

/-- **The slot is a table of names exactly where the insertions of each name agree.** -/
theorem nameTable_iff (calls : List (SlotCall P)) : NameTable calls ↔ InsertionsAgree calls := by
  constructor
  · intro h pre mid post name p q hcalls hn hmid
    have hfirst := h.inserted pre [] (mid ++ .insertPlugin name (some q) :: post) name (some p)
      hcalls (insertPlugin_fst_eq_true.mpr ⟨hn, p, rfl⟩) (by simp)
    -- the first pointer is still there after the second insertion, which finds its own
    have hkept : SlotCall.erasePlugin name ∉ mid ++ [.insertPlugin name (some q)] := by simp [hmid]
    have hstays := getPluginInfo_after_of_notMem hfirst hkept
    have hsecond := h.inserted (pre ++ .insertPlugin name (some p) :: mid) [] post name (some q)
      (by rw [hcalls]; simp) (insertPlugin_fst_eq_true.mpr ⟨hn, q, rfl⟩) (by simp)
    rw [← after_append] at hstays
    simp only [List.append_assoc, List.cons_append, List.nil_append] at hstays hsecond
    exact Option.some.inj (hstays.symm.trans hsecond)
  · intro h
    refine ⟨?_, ?_, ?_⟩
    · intro pre mid post name pit hcalls hreport hmid
      obtain ⟨hn, p, rfl⟩ := insertPlugin_fst_eq_true.mp hreport
      have hself := InsertionsAgree.getPluginInfo_insert (hcalls ▸ h) hn
      rw [List.append_cons, after_append, getPluginInfo_after_of_target_ne hmid, hself]
    · intro pre post name pit _ hreport
      rw [after_concat, call, insertPlugin_of_refused hreport]
    · intro pre c post k _ hname
      rw [after_concat, getPluginInfo_call_of_target_ne (SlotCall.target_ne_of_name_ne hname)]

/-- **Two accepted insertions under one name**: the second pointer is not the one that is found. -/
theorem not_nameTable_inserted_twice :
    ¬ NameTable [SlotCall.insertPlugin (lit "a") (some 1), .insertPlugin (lit "a") (some 2)] := by
  intro h
  have hn : lit "a" ≠ [] := by decide
  have hfirst : (empty.after [SlotCall.insertPlugin (lit "a") (some 1)]).getPluginInfo (lit "a")
      = some 1 := getPluginInfo_call_insertPlugin_of_none hn (getPluginInfo_empty _) 1
  have hstays := getPluginInfo_call_of_ne_erase (c := .insertPlugin (lit "a") (some 2)) hfirst
    (by simp)
  have hsecond := h.inserted [.insertPlugin (lit "a") (some 1)] [] [] (lit "a") (some 2) rfl
    (insertPlugin_fst_eq_true.mpr ⟨hn, 2, rfl⟩) (by simp)
  exact absurd (hstays.symm.trans hsecond) (by decide)

end PluginSlot

end ImgPredictor
