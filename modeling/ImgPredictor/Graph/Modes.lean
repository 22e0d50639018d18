import ImgPredictor.Graph.Handler

/-!
# Which `src` values are taken for a mode

There are two modes, `pull` and `push`.  The handler tells them apart by comparing four bytes of
memory from `value.data` on: it does not look at how long the value is, nor at whether there was a
query string to take one from.  Without one, `value` is whatever was on the stack, and the pointer
in it may lead nowhere.

`exactDispatch_iff` says for which requests that makes no difference.
-/

set_option autoImplicit false

namespace ImgPredictor

open Bytes

/-- The two modes. -/
def modes : List Bytes := [lit "pull", lit "push"]

/-- The callback a dispatch hands over. -/
def Dispatch.callback : Dispatch → Option BodyHandler
  | .read _ handler => some handler
  | .refuse _ _ | .fault => none

/-- The code a dispatch returns without having a body read. -/
def Dispatch.code : Dispatch → Option ℤ
  | .refuse rc _ => some rc
  | .read _ _ | .fault => none

/-- A `src` argument is taken for a mode exactly when it is one, and anything else is refused. -/
structure ExactDispatch (value : Slice) (r : Request) : Prop where
  /-- `pull` -/
  pull : (ngxHttpGraphHandler value r).callback = some .handler2 ↔
    argOf r (lit "src") = some (lit "pull")
  /-- `push` -/
  push : (ngxHttpGraphHandler value r).callback = some .handler1 ↔
    argOf r (lit "src") = some (lit "push")
  /-- Anything else. -/
  refused : argOf r (lit "src") ≠ some (lit "pull") → argOf r (lit "src") ≠ some (lit "push") →
    (ngxHttpGraphHandler value r).code = some ngxHttpBadRequest

/-- The value starts with the mode and goes on. -/
def Overlong (mode : Bytes) (v : Slice) : Prop := ∃ rest, rest ≠ [] ∧ v.toBytes = mode ++ rest

/-- The value breaks off inside of the mode, and the memory behind it has the missing bytes. -/
def Completed (mode : Bytes) (v : Slice) : Prop :=
  ∃ rest, rest ≠ [] ∧ mode = v.toBytes ++ rest ∧ rest <+: v.data.drop v.len

/-- The comparisons do not run off what can be read: where that is the beginning of a mode, it is
all of it. -/
def Slice.Readable (v : Slice) : Prop := ∀ mode ∈ modes, v.data <+: mode → v.data = mode

/-- Nothing but a mode looks like one: with a query string, no `src` value is overlong or completed
by the memory behind it, and without one, the memory `value` happens to point at can be read and
does not begin with a mode. -/
structure ModesApart (value : Slice) (r : Request) : Prop where
  /-- What is compared can be read. -/
  readable : ∀ v ∈ srcValue value r, v.Readable
  /-- There is a `src` argument. -/
  arg : ∀ mode ∈ modes, ∀ v ∈ ngxHttpArg r (lit "src"), ¬ Overlong mode v ∧ ¬ Completed mode v
  /-- There is no query string. -/
  unset : r.args = [] → ∀ mode ∈ modes, ¬ mode <+: value.data

/-! ## What the comparison sees -/

/-- The memory from a slice on begins with a mode in three cases. -/
theorem prefix_data_iff (mode : Bytes) (v : Slice) :
    mode <+: v.data ↔ v.toBytes = mode ∨ Overlong mode v ∨ Completed mode v := by
  have hsplit : v.toBytes ++ v.data.drop v.len = v.data := List.take_append_drop ..
  constructor
  · intro h
    rcases List.prefix_or_prefix_of_prefix h ⟨_, hsplit⟩ with ⟨t, ht⟩ | ⟨t, ht⟩ <;>
      rcases t with _ | ⟨x, t⟩
    · exact .inl (by simpa using ht.symm)
    · exact .inr (.inl ⟨x :: t, by simp, ht.symm⟩)
    · exact .inl (by simpa using ht)
    · rw [← ht, ← hsplit, List.prefix_append_right_inj] at h
      exact .inr (.inr ⟨x :: t, by simp, ht.symm, h⟩)
  · rintro (h | ⟨rest, -, h⟩ | ⟨rest, -, h, hrest⟩)
    · rw [← hsplit, h]
      exact List.prefix_append ..
    · rw [← hsplit, h, List.append_assoc]
      exact List.prefix_append ..
    · rw [← hsplit, h]
      exact (List.prefix_append_right_inj _).mpr hrest

theorem readStrneq_mode {mode : Bytes} (h : mode ∈ modes) (s : Bytes) :
    readStrneq 4 s mode =
      if s <+: mode ∧ s ≠ mode then none else some (decide (mode <+: s)) := by
  have hmode : ∀ mode ∈ modes, mode.length = 4 ∧ (0 : UInt8) ∉ mode := by decide
  rw [← (hmode mode h).1]
  exact readStrneq_eq (hmode mode h).2

theorem Slice.Readable.readStrneq {v : Slice} (hread : v.Readable) {mode : Bytes}
    (h : mode ∈ modes) : Bytes.readStrneq 4 v.data mode = some (decide (mode <+: v.data)) := by
  rw [readStrneq_mode h, if_neg]
  rintro ⟨hp, hne⟩
  exact hne (hread mode h hp)

/-- The handler, once there is something to compare. -/
theorem handler_eq {value v : Slice} {r : Request} (hlen : r.contentLengthN ≠ 0)
    (hv : srcValue value r = some v) (hread : v.Readable) :
    ngxHttpGraphHandler value r =
      if lit "pull" <+: v.data then .read r.forPull .handler2
      else if lit "push" <+: v.data then .read r.forPush .handler1
      else .refuse ngxHttpBadRequest [] := by
  rw [ngxHttpGraphHandler, if_neg (by simpa using hlen), hv]
  simp only [hread.readStrneq (show lit "pull" ∈ modes by decide),
    hread.readStrneq (show lit "push" ∈ modes by decide)]
  by_cases hpull : lit "pull" <+: v.data
  · simp [hpull]
  · by_cases hpush : lit "push" <+: v.data <;> simp [hpull, hpush]

/-- **A pointer that carries no further than the beginning of a mode kills the process.** -/
theorem handler_fault {value v : Slice} {r : Request} (hlen : r.contentLengthN ≠ 0)
    (hv : srcValue value r = some v) (hread : ¬ v.Readable) :
    ngxHttpGraphHandler value r = .fault := by
  rw [ngxHttpGraphHandler, if_neg (by simpa using hlen), hv]
  simp only [readStrneq_mode (show lit "pull" ∈ modes by decide),
    readStrneq_mode (show lit "push" ∈ modes by decide)]
  by_cases hpull : v.data <+: lit "pull" ∧ v.data ≠ lit "pull"
  · rw [if_pos hpull]
  · have hpush : v.data <+: lit "push" ∧ v.data ≠ lit "push" := by
      by_contra hpush
      refine hread fun mode hm hp ↦ ?_
      rcases List.mem_pair.mp hm with rfl | rfl
      · by_contra hne; exact hpull ⟨hp, hne⟩
      · by_contra hne; exact hpush ⟨hp, hne⟩
    have hno : ¬ lit "pull" <+: v.data := fun hp ↦
      absurd (hp.trans hpush.1) (by decide)
    rw [if_neg hpull, if_pos hpush, decide_eq_false hno]

/-- A request whose body is read had something that can be compared. -/
theorem readable_of_read {value v : Slice} {r r' : Request} {h : BodyHandler}
    (hd : ngxHttpGraphHandler value r = .read r' h) (hv : srcValue value r = some v) :
    v.Readable := by
  by_contra hread
  rw [handler_fault (read_of_handler hd).1 hv hread] at hd
  exact absurd hd (by simp)

/-- No memory begins with both modes. -/
theorem not_pull_and_push {s : Bytes} (hpull : lit "pull" <+: s) : ¬ lit "push" <+: s := by
  intro hpush
  have heq : lit "pull" = lit "push" := (List.prefix_of_prefix_length_le hpull hpush
    (by decide)).eq_of_length (by decide)
  exact absurd heq (by decide)

/-- The `src` argument is what stands at the beginning of what is compared. -/
theorem prefix_of_argOf {value v : Slice} {r : Request} (hv : srcValue value r = some v)
    {mode : Bytes} (h : argOf r (lit "src") = some mode) : mode <+: v.data := by
  rw [argOf, Option.map_eq_some_iff] at h
  obtain ⟨u, hu, rfl⟩ := h
  rw [srcValue] at hv
  split at hv
  · rename_i hargs
    rw [ngxHttpArg, List.isEmpty_iff.mp hargs] at hu
    exact absurd hu (by simp [argFrom])
  · obtain rfl := Option.some.inj (hu.symm.trans hv)
    exact List.take_prefix ..

theorem callback_eq_handler2_iff {value v : Slice} {r : Request} (hlen : r.contentLengthN ≠ 0)
    (hv : srcValue value r = some v) (hread : v.Readable) :
    (ngxHttpGraphHandler value r).callback = some .handler2 ↔ lit "pull" <+: v.data := by
  rw [handler_eq hlen hv hread]
  split
  · rename_i h
    exact iff_of_true rfl h
  · rename_i h
    refine iff_of_false ?_ h
    split <;> simp [Dispatch.callback]

theorem callback_eq_handler1_iff {value v : Slice} {r : Request} (hlen : r.contentLengthN ≠ 0)
    (hv : srcValue value r = some v) (hread : v.Readable) :
    (ngxHttpGraphHandler value r).callback = some .handler1 ↔ lit "push" <+: v.data := by
  rw [handler_eq hlen hv hread]
  split
  · rename_i h
    exact iff_of_false (by simp [Dispatch.callback]) (not_pull_and_push h)
  · split <;> simp [Dispatch.callback, *]

/-- The dispatch is exact when what begins with a mode is one. -/
theorem exactDispatch_of_srcValue {value v : Slice} {r : Request} (hlen : r.contentLengthN ≠ 0)
    (hv : srcValue value r = some v) (hread : v.Readable) :
    ExactDispatch value r ↔
      ∀ mode ∈ modes, mode <+: v.data → argOf r (lit "src") = some mode := by
  have hpull := callback_eq_handler2_iff hlen hv hread
  have hpush := callback_eq_handler1_iff hlen hv hread
  constructor
  · intro h
    simp only [modes, List.mem_cons, List.not_mem_nil, or_false, forall_eq_or_imp, forall_eq]
    exact ⟨fun hp ↦ h.pull.mp (hpull.mpr hp), fun hp ↦ h.push.mp (hpush.mpr hp)⟩
  · intro h
    have hpull' := h (lit "pull") (by decide)
    have hpush' := h (lit "push") (by decide)
    refine ⟨⟨fun hc ↦ hpull' (hpull.mp hc), fun ha ↦ hpull.mpr (prefix_of_argOf hv ha)⟩,
      ⟨fun hc ↦ hpush' (hpush.mp hc), fun ha ↦ hpush.mpr (prefix_of_argOf hv ha)⟩, ?_⟩
    intro hno hno'
    rw [handler_eq hlen hv hread, if_neg (mt hpull' hno), if_neg (mt hpush' hno')]
    rfl

/-- A dispatch that dies is not exact: a `src` argument that is a mode can be read. -/
theorem not_exactDispatch_of_fault {value v : Slice} {r : Request} (hlen : r.contentLengthN ≠ 0)
    (hv : srcValue value r = some v) (hread : ¬ v.Readable) : ¬ ExactDispatch value r := by
  have hfault := handler_fault hlen hv hread
  intro h
  have hpull : argOf r (lit "src") ≠ some (lit "pull") := fun ha ↦
    absurd (h.pull.mpr ha) (by simp [hfault, Dispatch.callback])
  have hpush : argOf r (lit "src") ≠ some (lit "push") := fun ha ↦
    absurd (h.push.mpr ha) (by simp [hfault, Dispatch.callback])
  exact absurd (h.refused hpull hpush) (by simp [hfault, Dispatch.code])

/-- Nothing looks like a mode when what begins with one is one. -/
theorem modesApart_of_srcValue {value v : Slice} {r : Request} (hv : srcValue value r = some v)
    (hread : v.Readable) :
    ModesApart value r ↔
      ∀ mode ∈ modes, mode <+: v.data → argOf r (lit "src") = some mode := by
  have hreadable : ∀ u ∈ srcValue value r, u.Readable := fun u hu ↦
    Option.some.inj (hv.symm.trans hu) ▸ hread
  rcases hargs : r.args with _ | ⟨x, args⟩
  · -- no query string, and `value` is what it was
    obtain rfl : value = v := by
      rw [srcValue, hargs] at hv
      exact Option.some.inj hv
    have hnone : ngxHttpArg r (lit "src") = none := by rw [ngxHttpArg, hargs]; rfl
    rw [argOf, hnone]
    constructor
    · intro h mode hm hp
      exact absurd hp (h.unset hargs mode hm)
    · intro h
      exact ⟨hreadable, by simp [hnone], fun _ mode hm hp ↦ absurd (h mode hm hp) (by simp)⟩
  · have harg : ngxHttpArg r (lit "src") = some v := by
      rw [← hv, srcValue, hargs]
      rfl
    rw [argOf, harg, Option.map_some]
    constructor
    · intro h mode hm hp
      obtain ⟨hover, hcompleted⟩ := h.arg mode hm v harg
      rcases (prefix_data_iff mode v).mp hp with heq | hp | hp
      · rw [heq]
      · exact absurd hp hover
      · exact absurd hp hcompleted
    · intro h
      refine ⟨hreadable, fun mode hm u hu ↦ ?_, fun h ↦ absurd (hargs.symm.trans h) (by simp)⟩
      obtain rfl := Option.some.inj (harg.symm.trans hu)
      have hmode := fun hp ↦ Option.some.inj (h mode hm ((prefix_data_iff mode v).mpr hp))
      -- a value that is a mode neither goes on behind it nor breaks off in it
      refine ⟨fun hover ↦ ?_, fun hcompleted ↦ ?_⟩
      · obtain ⟨rest, hne, hrest⟩ := hover
        rw [hmode (.inr (.inl ⟨rest, hne, hrest⟩))] at hrest
        exact hne (by simpa using hrest)
      · obtain ⟨rest, hne, hrest, hp⟩ := hcompleted
        rw [hmode (.inr (.inr ⟨rest, hne, hrest, hp⟩))] at hrest
        exact hne (by simpa using hrest)

/-! ## The dispatch -/

/-- **The dispatch is exact exactly when nothing but a mode looks like one** and what is compared
can be read. -/
theorem exactDispatch_iff {value : Slice} {r : Request} (hlen : r.contentLengthN ≠ 0) :
    ExactDispatch value r ↔ ModesApart value r := by
  rcases hv : srcValue value r with _ | v
  · -- a query string without a `src`
    have hargs : r.args ≠ [] := by
      intro h
      rw [srcValue, h] at hv
      exact absurd hv (by simp)
    have harg : ngxHttpArg r (lit "src") = none := by
      rwa [srcValue, if_neg (by simpa using hargs)] at hv
    have hrefuse : ngxHttpGraphHandler value r =
        .refuse ngxHttpBadRequest [lit "missing src=pull/push arg"] := by
      rw [ngxHttpGraphHandler, if_neg (by simpa using hlen), hv]
    refine iff_of_true ?_ ⟨by simp [hv], by simp [harg], fun h ↦ absurd h hargs⟩
    constructor <;> simp [hrefuse, Dispatch.callback, Dispatch.code, argOf, harg]
  · by_cases hread : v.Readable
    · rw [exactDispatch_of_srcValue hlen hv hread, modesApart_of_srcValue hv hread]
    · exact iff_of_false (not_exactDispatch_of_fault hlen hv hread)
        fun h ↦ hread (h.readable v hv)

/-- A request with this query string. -/
def requestOfArgs (args : Bytes) : Request where
  args := args
  argsTail := lit " HTTP/1.1"
  contentLengthN := 1
  chunked := false
  headerOnly := false
  requestBody := none
  requestBodyInFileOnly := false
  requestBodyInPersistentFile := false
  requestBodyInSingleBuf := false

/-- A pull is dispatched as one. -/
theorem exactDispatch_pull :
    ExactDispatch ⟨[], 0⟩ (requestOfArgs (lit "plugin=face&src=pull")) ∧
      ModesApart ⟨[], 0⟩ (requestOfArgs (lit "plugin=face&src=pull")) := by
  have hexact : ExactDispatch ⟨[], 0⟩ (requestOfArgs (lit "plugin=face&src=pull")) :=
    ⟨by decide, by decide, by decide⟩
  exact ⟨hexact, (exactDispatch_iff (by decide)).mp hexact⟩

/-- **Modes that are none**: a longer word, an empty query string with a mode left on the stack,
and one with a pointer left there that cannot be read through. -/
theorem not_exactDispatch :
    (ngxHttpGraphHandler ⟨[], 0⟩ (requestOfArgs (lit "src=pullover"))).callback = some .handler2 ∧
      argOf (requestOfArgs (lit "src=pullover")) (lit "src") = some (lit "pullover") ∧
      ¬ ExactDispatch ⟨[], 0⟩ (requestOfArgs (lit "src=pullover")) ∧
      (ngxHttpGraphHandler ⟨lit "push", 4⟩ (requestOfArgs [])).callback = some .handler1 ∧
      argOf (requestOfArgs []) (lit "src") = none ∧
      ¬ ExactDispatch ⟨lit "push", 4⟩ (requestOfArgs []) ∧
      ngxHttpGraphHandler ⟨[], 0⟩ (requestOfArgs []) = .fault ∧
      ¬ ExactDispatch ⟨[], 0⟩ (requestOfArgs []) := by
  have hlong : (ngxHttpGraphHandler ⟨[], 0⟩ (requestOfArgs (lit "src=pullover"))).callback
      = some .handler2 := by decide
  have hunset : (ngxHttpGraphHandler ⟨lit "push", 4⟩ (requestOfArgs [])).callback
      = some .handler1 := by decide
  have hfault : ngxHttpGraphHandler ⟨[], 0⟩ (requestOfArgs []) = .fault := by decide
  exact ⟨hlong, by decide, fun h ↦ absurd (h.pull.mp hlong) (by decide), hunset, by decide,
    fun h ↦ absurd (h.push.mp hunset) (by decide), hfault,
    fun h ↦ absurd (h.refused (by decide) (by decide)) (by rw [hfault]; decide)⟩

end ImgPredictor
