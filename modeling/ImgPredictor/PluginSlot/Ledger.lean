import ImgPredictor.PluginSlot.Turns

/-!
# The library handles of a load

A record is given its handle before its name is looked at.  The exits for a missing symbol delete
the record, and its destructor closes the handle; a record that is loaded leaves it to the table.
But `insert_plugin` declines a name that is taken, says nothing of it, and the record is not
deleted: its handle is neither in the table nor closed, and nobody has it any more.

* `Accounted` is what the ledger should say, and `Ledger` what it does say, with the handles that
  are lost on an account of their own.
* `ledger_loadWords` carries it through the loop: **a handle is lost for every name that is loaded
  again**.

A file that ends in white space has its last word twice, so its last plugin is always one of these.
-/

set_option autoImplicit false

namespace ImgPredictor

open Bytes Lists

/-! ## The ledger -/

/-- The handles of the entries of a table. -/
def PluginSlot.handles (slot : PluginSlot PluginInfo) : List Handle :=
  slot.pinfoList.toList.map fun p ↦ p.2.dlhandler

/-- Every handle that was opened has been closed once or is the handle of one entry, and not
both. -/
def Accounted (st : LoadState) : Prop := st.opened.Perm (st.closed ++ st.slot.handles)

/-- The handles opened and not closed are as many as the entries. -/
def Balanced (st : LoadState) : Prop :=
  st.opened.length = st.closed.length + st.slot.pinfoList.size

/-- The ledger with the handles that were lost. -/
def Ledger (st : LoadState) (lost : List Handle) : Prop :=
  st.opened.Perm (st.closed ++ st.slot.handles ++ lost)

theorem length_handles (slot : PluginSlot PluginInfo) :
    slot.handles.length = slot.pinfoList.size := by
  rw [PluginSlot.handles, List.length_map, Std.ExtTreeMap.length_toList]

/-- **The accounts are in order exactly when nothing is lost.** -/
theorem Ledger.lost_eq_nil_iff {st : LoadState} {lost : List Handle} (h : Ledger st lost) :
    (Accounted st ↔ lost = []) ∧ (Balanced st ↔ lost = []) := by
  have hlen := h.length_eq
  simp only [List.length_append, length_handles] at hlen
  refine ⟨⟨fun hacc ↦ ?_, fun hnil ↦ ?_⟩, ?_⟩
  · have hlen' := hacc.length_eq
    simp only [List.length_append, length_handles] at hlen'
    exact List.length_eq_zero_iff.mp (by omega)
  · rw [Accounted]
    rwa [Ledger, hnil, List.append_nil] at h
  · rw [Balanced, ← List.length_eq_zero_iff]
    omega

/-! ## One record -/

/-- A handle closed at once. -/
theorem Ledger.released {st : LoadState} {lost : List Handle} (h : Ledger st lost)
    (handle : Handle) :
    Ledger { st with opened := st.opened ++ [handle], closed := st.closed ++ [handle] } lost := by
  rw [Ledger, List.perm_iff_count] at h ⊢
  intro a
  have ha := h a
  simp only [List.count_append] at ha ⊢
  omega

/-- A record under a new name takes its handle to the table. -/
theorem Ledger.fresh {st : LoadState} {lost : List Handle} (h : Ledger st lost) {pit : PluginInfo}
    (hname : pit.name ≠ []) (hfresh : pit.name ∉ st.slot.pinfoList) :
    Ledger (st.withRecord pit) lost := by
  have hhandles : (st.withRecord pit).slot.handles.Perm ([pit.dlhandler] ++ st.slot.handles) := by
    rw [LoadState.withRecord, PluginSlot.insertPlugin_some hname]
    exact (Dict.toList_insertIfNew_perm hfresh pit).map _
  rw [Ledger, List.perm_iff_count] at h ⊢
  intro a
  have ha := h a
  have hcount := hhandles.count_eq a
  simp only [LoadState.withRecord, List.count_append] at ha hcount ⊢
  omega

/-- **A record under a name that is taken** loses it. -/
theorem Ledger.taken {st : LoadState} {lost : List Handle} (h : Ledger st lost) {pit : PluginInfo}
    (hname : pit.name ≠ []) (htaken : pit.name ∈ st.slot.pinfoList) :
    Ledger (st.withRecord pit) (lost ++ [pit.dlhandler]) := by
  have hslot : (st.withRecord pit).slot = st.slot := by
    rw [LoadState.withRecord, PluginSlot.insertPlugin_some hname]
    exact congrArg PluginSlot.mk (Dict.insertIfNew_of_mem htaken pit)
  rw [Ledger, hslot]
  rw [Ledger, List.perm_iff_count] at h
  refine List.perm_iff_count.mpr fun a ↦ ?_
  have ha := h a
  simp only [LoadState.withRecord, List.count_append] at ha ⊢
  omega

/-! ## The loop -/

/-- The names of the records that are loaded, when `k` libraries have been opened before. -/
def loadedNames (dl : DynLib) : ℕ → List Bytes → List Bytes
  | _, [] => []
  | k, line :: lines =>
    if skipped line then loadedNames dl k lines
    else match recordOutcome dl k (fieldsOf line) with
      | .loaded _ => fieldAt line 0 :: loadedNames dl (k + 1) lines
      | _ => []

theorem mem_withRecord {st : LoadState} {pit : PluginInfo} (hname : pit.name ≠ []) (n : Bytes) :
    n ∈ (st.withRecord pit).slot.pinfoList ↔ n = pit.name ∨ n ∈ st.slot.pinfoList := by
  rw [LoadState.withRecord, PluginSlot.insertPlugin_some hname]
  rw [Std.ExtTreeMap.mem_insertIfNew, Std.LawfulEqCmp.compare_eq_iff_eq, eq_comm]

/-- **The loop loses a handle for every name that is loaded again**, or was in the table before. -/
theorem ledger_loadWords (dl : DynLib) (lines : List Bytes) {st : LoadState} {lost : List Handle}
    (h : Ledger st lost) {res : Bool × LoadState} (hres : loadWords dl lines st = some res) :
    ∃ more, Ledger res.2 (lost ++ more) ∧ (more = [] ↔
      (loadedNames dl st.opened.length lines).Nodup ∧
        ∀ n ∈ loadedNames dl st.opened.length lines, n ∉ st.slot.pinfoList) := by
  induction lines generalizing st lost with
  | nil =>
    obtain rfl := Option.some.inj hres
    exact ⟨[], by simpa using h, by simp [loadedNames]⟩
  | cons line lines ih =>
    rw [loadWords] at hres
    rw [loadedNames]
    cases hskip : skipped line with
    | true =>
      rw [loadTurn_of_skipped dl hskip] at hres
      exact ih h hres
    | false =>
      rw [loadTurn_of_record dl hskip] at hres
      simp only [Bool.false_eq_true, if_false]
      rcases hout : recordOutcome dl st.opened.length (fieldsOf line) with _ | handle | pit
      · rw [hout] at hres
        obtain rfl := Option.some.inj hres
        exact ⟨[], by simpa using h, by simp⟩
      · rw [hout] at hres
        obtain rfl := Option.some.inj hres
        exact ⟨[], by simpa using h.released handle, by simp⟩
      · obtain ⟨hfield, hname⟩ := name_of_loaded hout
        have hopened : (st.withRecord pit).opened.length = st.opened.length + 1 := by
          simp [LoadState.withRecord]
        have hfield' : fieldAt line 0 = pit.name := hfield.symm
        rw [hout] at hres
        simp only [hfield']
        by_cases htaken : pit.name ∈ st.slot.pinfoList
        · obtain ⟨more, hledger, -⟩ := ih (h.taken hname htaken) hres
          refine ⟨pit.dlhandler :: more, by simpa using hledger, iff_of_false (by simp) ?_⟩
          exact fun hall ↦ hall.2 _ List.mem_cons_self htaken
        · obtain ⟨more, hledger, hmore⟩ := ih (h.fresh hname htaken) hres
          refine ⟨more, hledger, ?_⟩
          rw [hmore, hopened]
          simp only [mem_withRecord hname, List.nodup_cons, List.mem_cons, forall_eq_or_imp, not_or]
          grind

/-- More words are more names, after the same ones. -/
theorem loadedNames_append (dl : DynLib) (k : ℕ) (lines more : List Bytes) :
    loadedNames dl k lines <+: loadedNames dl k (lines ++ more) := by
  induction lines generalizing k with
  | nil => exact List.nil_prefix
  | cons line lines ih =>
    rw [List.cons_append, loadedNames, loadedNames]
    split
    · exact ih k
    · split
      · exact List.cons_prefix_cons.mpr ⟨rfl, ih (k + 1)⟩
      · exact List.prefix_rfl

/-- Behind a record that fails there are none. -/
theorem loadedNames_of_failed {dl : DynLib} {lines : List Bytes} {st st' : LoadState}
    (h : loadWords dl lines st = some (false, st')) (more : List Bytes) :
    loadedNames dl st.opened.length (lines ++ more) = loadedNames dl st.opened.length lines := by
  induction lines generalizing st with
  | nil => exact absurd h (by simp [loadWords])
  | cons line lines ih =>
    rw [loadWords] at h
    rw [List.cons_append, loadedNames, loadedNames]
    cases hskip : skipped line with
    | true =>
      rw [loadTurn_of_skipped dl hskip] at h
      exact ih h
    | false =>
      rw [loadTurn_of_record dl hskip] at h
      simp only [Bool.false_eq_true, if_false]
      rcases hout : recordOutcome dl st.opened.length (fieldsOf line) with _ | handle | pit
      · rfl
      · rfl
      · rw [hout] at h
        have hnext := ih h
        simp only [LoadState.withRecord, List.length_append, List.length_singleton] at hnext
        simp only [hnext]

/-! ## The load -/

/-- The loop returns on this file, in some number of turns. -/
def LoopReturns (dl : DynLib) (file : IStream) (slot : PluginSlot PluginInfo)
    (res : Bool × LoadState) : Prop :=
  ∃ turns, loadLoop dl turns file [] ⟨slot, [], []⟩ = some res

/-- `load` returns, however many turns it takes: at once without a file name or when the file does
not open. -/
def LoadReturns (dl : DynLib) (conf : Bytes) (file : Option IStream)
    (slot : PluginSlot PluginInfo) (res : Bool × LoadState) : Prop :=
  if conf.isEmpty then res = (false, ⟨slot, [], []⟩)
  else match file with
    | none => res = (false, ⟨slot, [], []⟩)
    | some file => LoopReturns dl file slot res

/-- What `load` returns within its bound is one of these. -/
theorem loadReturns_of_load {dl : DynLib} {conf : Bytes} {file : Option IStream}
    {slot : PluginSlot PluginInfo} {res : Bool × LoadState}
    (h : load dl conf file slot = some res) : LoadReturns dl conf file slot res := by
  rw [load.eq_def] at h
  rw [LoadReturns.eq_def]
  by_cases hconf : conf.isEmpty = true
  · rw [if_pos hconf] at h ⊢
    exact (Option.some.inj h).symm
  · rw [if_neg hconf] at h ⊢
    rcases file with _ | file
    · exact (Option.some.inj h).symm
    · exact ⟨_, h⟩

/-- In no number of turns is a name loaded twice. -/
def NamesApart (dl : DynLib) (file : IStream) : Prop :=
  ∀ turns, (loadedNames dl 0 (wordsRead turns file [])).Nodup

/-- It is enough to look at the turns the load takes. -/
theorem namesApart_iff {dl : DynLib} {file : IStream} {slot : PluginSlot PluginInfo} {turns : ℕ}
    {res : Bool × LoadState} (h : loadLoop dl turns file [] ⟨slot, [], []⟩ = some res) :
    NamesApart dl file ↔ (loadedNames dl 0 (wordsRead turns file [])).Nodup := by
  refine ⟨fun hall ↦ hall turns, fun hnodup n ↦ ?_⟩
  have hmono : ∀ {n m : ℕ}, n ≤ m → loadedNames dl 0 (wordsRead n file [])
      <+: loadedNames dl 0 (wordsRead m file []) := by
    intro n m hle
    obtain ⟨more, hmore⟩ := wordsRead_prefix hle file []
    rw [← hmore]
    exact loadedNames_append dl 0 _ more
  rcases Nat.le_total n turns with hle | hle
  · exact hnodup.sublist (hmono hle).sublist
  · -- the turns after that see nothing, or nothing that counts
    obtain ⟨more, hmore⟩ := wordsRead_prefix hle file []
    rw [loadLoop_eq_loadWords] at h
    split at h
    · split at h
      · rename_i hended
        rwa [wordsRead_of_ended hle hended]
      · exact absurd h (by simp)
    · rename_i hnot
      obtain ⟨ret, st⟩ := res
      cases ret with
      | true => exact absurd h (hnot st)
      | false =>
        have hsame := loadedNames_of_failed h more
        rw [hmore] at hsame
        exact hsame ▸ hnodup

/-- In a file, the last name counts twice if white space follows it. -/
theorem namesApart_ofText (dl : DynLib) (text : Bytes) :
    NamesApart dl (.ofText text) ↔ (loadedNames dl 0 (wordsSeen [] text)).Nodup := by
  rw [NamesApart]
  constructor
  · intro hall
    have hnodup := hall (wordsSeen [] text).length
    rwa [IStream.ofText, ← IStream.over, wordsRead_ofText, List.take_length] at hnodup
  · intro hnodup turns
    rw [IStream.ofText, ← IStream.over, wordsRead_ofText]
    have hmore := loadedNames_append dl 0 ((wordsSeen [] text).take turns)
      ((wordsSeen [] text).drop turns)
    rw [List.take_append_drop] at hmore
    exact hnodup.sublist hmore.sublist

theorem ledger_empty : Ledger ⟨.empty, [], []⟩ [] := by
  have hnil : (∅ : Dict PluginInfo).toList = [] := Std.ExtTreeMap.toList_eq_nil_iff.mpr rfl
  simp [Ledger, PluginSlot.handles, PluginSlot.empty, hnil]

/-- What the loop loses. -/
theorem exists_lost {dl : DynLib} {file : IStream} {res : Bool × LoadState}
    (h : LoopReturns dl file .empty res) :
    ∃ lost, Ledger res.2 lost ∧ (lost = [] ↔ NamesApart dl file) := by
  obtain ⟨turns, h⟩ := h
  have hwords : loadWords dl (wordsRead turns file []) ⟨.empty, [], []⟩ = some res := by
    rw [loadLoop_eq_loadWords] at h
    split at h
    · split at h
      · rename_i hw _
        rw [hw, h]
      · exact absurd h (by simp)
    · exact h
  obtain ⟨lost, hledger, hlost⟩ := ledger_loadWords dl _ ledger_empty hwords
  refine ⟨lost, by simpa using hledger, ?_⟩
  rw [hlost, namesApart_iff h]
  simp [PluginSlot.empty]

/-- The file that is loaded, if it comes to that, has no name loaded twice. -/
def LoadsApart (dl : DynLib) (conf : Bytes) (file : Option IStream) : Prop :=
  conf ≠ [] → ∀ f, file = some f → NamesApart dl f

/-- **The handles are accounted for exactly when no name is loaded twice.** -/
theorem accounted_iff {dl : DynLib} {conf : Bytes} {file : Option IStream}
    {res : Bool × LoadState} (h : LoadReturns dl conf file .empty res) :
    (Accounted res.2 ↔ LoadsApart dl conf file) ∧ (Balanced res.2 ↔ LoadsApart dl conf file) := by
  obtain ⟨lost, hledger, hlost⟩ :
      ∃ lost, Ledger res.2 lost ∧ (lost = [] ↔ LoadsApart dl conf file) := by
    rw [LoadReturns.eq_def] at h
    by_cases hconf : conf.isEmpty = true
    · rw [if_pos hconf] at h
      subst h
      exact ⟨[], ledger_empty, iff_of_true rfl fun hne ↦ absurd (by simpa using hconf) hne⟩
    · rw [if_neg hconf] at h
      rcases file with _ | file
      · subst h
        exact ⟨[], ledger_empty, iff_of_true rfl fun _ f hf ↦ absurd hf (by simp)⟩
      · obtain ⟨lost, hledger, hlost⟩ := exists_lost h
        refine ⟨lost, hledger, hlost.trans ⟨?_, fun hall ↦ hall (by simpa using hconf) file rfl⟩⟩
        rintro hnames - f hf
        exact Option.some.inj hf ▸ hnames
  exact ⟨hledger.lost_eq_nil_iff.1.trans hlost, hledger.lost_eq_nil_iff.2.trans hlost⟩

/-- Libraries that all open, and have every symbol. -/
def everyLibrary : DynLib := .const (fun _ ↦ some 1) fun _ _ ↦ some 2

/-- Two plugins, and nothing behind them. -/
def twoRecords : Bytes := lit "a|lib|init|run|| b|lib|init|run||"

theorem accounted_twoRecords :
    ∃ res, LoadReturns everyLibrary (lit "conf") (some (.ofText twoRecords)) .empty res ∧
      Accounted res.2 ∧ Balanced res.2 := by
  obtain ⟨res, hres⟩ : ∃ res, LoadReturns everyLibrary (lit "conf")
      (some (.ofText twoRecords)) .empty res := ⟨_, 3, rfl⟩
  have happart : LoadsApart everyLibrary (lit "conf") (some (.ofText twoRecords)) := by
    rintro - f hf
    rw [← Option.some.inj hf, namesApart_ofText]
    decide +kernel
  exact ⟨res, hres, (accounted_iff hres).1.mpr happart, (accounted_iff hres).2.mpr happart⟩

/-- With a newline behind it, its library is opened twice and nobody can close it again. -/
theorem not_accounted_newline :
    ∃ res, LoadReturns everyLibrary (lit "conf") (some (.ofText (lit "a|lib|init|run||\n"))) .empty
        res ∧ res.1 = true ∧ res.2.opened = [1, 1] ∧ res.2.closed = []
      ∧ ¬Accounted res.2 ∧ ¬Balanced res.2 := by
  obtain ⟨res, hres, hret, hopened, hclosed, hsize⟩ :
      ∃ res, LoadReturns everyLibrary (lit "conf") (some (.ofText (lit "a|lib|init|run||\n")))
          .empty res ∧ res.1 = true ∧ res.2.opened = [1, 1] ∧ res.2.closed = []
        ∧ res.2.slot.pinfoList.size = 1 :=
    ⟨_, ⟨3, rfl⟩, rfl, rfl, rfl, rfl⟩
  refine ⟨res, hres, hret, hopened, hclosed, fun h ↦ ?_, fun h ↦ ?_⟩
  · have hlen := h.length_eq
    rw [hopened, hclosed, List.nil_append, length_handles, hsize] at hlen
    exact absurd hlen (by decide)
  · rw [Balanced, hopened, hclosed, hsize] at h
    exact absurd h (by decide)

end ImgPredictor
