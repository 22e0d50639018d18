import ImgPredictor.Lib.Dict

/-!
# The plugin table

`PluginSlot` owns a `std::map` from plugin names to records.  `std::map` iterates in key order and
an insertion of a key that is already there leaves the old value, which is what
`Std.ExtTreeMap` with `insertIfNew` does; two tables are equal here exactly when they hold the
same records under the same names.

The slot is generic in what it stores, as `insert_plugin`, `erase_plugin` and `get_plugin_info`
never look inside a record.
-/

set_option autoImplicit false

namespace ImgPredictor

/-- The address a `dlopen` returned. -/
abbrev Handle := ℕ

/-- The address a `dlsym` returned. -/
abbrev Sym := ℕ

/-- `plugin_info_t` -/
structure PluginInfo where
  /-- `_name` -/
  name : Bytes
  /-- `_dlhandler` -/
  dlhandler : Handle
  /-- `_init_handler` -/
  initHandler : Sym
  /-- `_process_handler` -/
  processHandler : Sym
  /-- `_conf` -/
  conf : Bytes
  /-- `_model_dir` -/
  modelDir : Bytes
  /-- `_has_ext_in` -/
  hasExtIn : Bool
  deriving DecidableEq, Repr

/-- `PluginSlot`, over the records its table points to. -/
structure PluginSlot (P : Type) where
  /-- `_pinfo_list` -/
  pinfoList : Dict P

namespace PluginSlot

variable {P : Type}

/-- The slot a constructor returns. -/
def empty : PluginSlot P := ⟨∅⟩

/-- `get_plugin_info` -/
def getPluginInfo (slot : PluginSlot P) (pluginName : Bytes) : Option P :=
  slot.pinfoList[pluginName]?

/-- `insert_plugin`: what it reports, and the table afterwards.  The report does not look at
whether `std::map::insert` did insert. -/
def insertPlugin (slot : PluginSlot P) (name : Bytes) (pit : Option P) : Bool × PluginSlot P :=
  match name, pit with
  | [], _ => (false, slot)
  | _, none => (false, slot)
  | _, some pit => (true, ⟨slot.pinfoList.insertIfNew name pit⟩)

/-- `erase_plugin` -/
def erasePlugin (slot : PluginSlot P) (name : Bytes) : PluginSlot P := ⟨slot.pinfoList.erase name⟩

theorem insertPlugin_some {name : Bytes} (hn : name ≠ []) (slot : PluginSlot P) (pit : P) :
    slot.insertPlugin name (some pit) = (true, ⟨slot.pinfoList.insertIfNew name pit⟩) := by
  cases name with
  | nil => exact absurd rfl hn
  | cons x name => rfl

/-- **An entry that is there stays**: inserting under a name in use changes nothing. -/
theorem insertPlugin_of_mem {slot : PluginSlot P} {name : Bytes} {p : P}
    (h : slot.getPluginInfo name = some p) (pit : Option P) :
    (slot.insertPlugin name pit).2 = slot := by
  have hmem : name ∈ slot.pinfoList := Std.ExtTreeMap.mem_iff_isSome_getElem?.mpr (by
    rw [getPluginInfo] at h; simp [h])
  cases name with
  | nil => rfl
  | cons x name =>
    cases pit with
    | none => rfl
    | some pit => exact congrArg PluginSlot.mk (Dict.insertIfNew_of_mem hmem pit)

theorem getPluginInfo_insertPlugin_self {name : Bytes} (hn : name ≠ []) (slot : PluginSlot P)
    (pit : P) : ((slot.insertPlugin name (some pit)).2.getPluginInfo name).isSome := by
  rw [insertPlugin_some hn, getPluginInfo, ← Std.ExtTreeMap.mem_iff_isSome_getElem?]
  exact Std.ExtTreeMap.mem_insertIfNew_self

/-- **Inserting twice is inserting once.** -/
theorem insertPlugin_insertPlugin (slot : PluginSlot P) (name : Bytes) (pit : P) :
    ((slot.insertPlugin name (some pit)).2.insertPlugin name (some pit)).2
      = (slot.insertPlugin name (some pit)).2 := by
  by_cases hn : name = []
  · subst hn; rfl
  · obtain ⟨p, hp⟩ := Option.isSome_iff_exists.mp (getPluginInfo_insertPlugin_self hn slot pit)
    exact insertPlugin_of_mem hp _

/-- **The first entry under a name is the one that is found.** -/
theorem getPluginInfo_insertPlugin {name : Bytes} (hn : name ≠ []) (slot : PluginSlot P) (pit : P)
    (k : Bytes) :
    (slot.insertPlugin name (some pit)).2.getPluginInfo k
      = (slot.getPluginInfo k).or (if name = k then some pit else none) := by
  rw [insertPlugin_some hn, getPluginInfo, getPluginInfo, Std.ExtTreeMap.getElem?_insertIfNew]
  by_cases hk : name = k
  · subst hk
    by_cases hmem : name ∈ slot.pinfoList <;> simp [hmem]
  · simp [hk, Std.LawfulEqCmp.compare_eq_iff_eq]

theorem getPluginInfo_empty (k : Bytes) : (empty : PluginSlot P).getPluginInfo k = none :=
  Std.ExtTreeMap.getElem?_empty

end PluginSlot

end ImgPredictor
