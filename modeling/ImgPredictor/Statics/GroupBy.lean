import Mathlib.Data.List.Forall2
import ImgPredictor.Lib.Lists
import ImgPredictor.Statics.Conservation

/-!
# The records as a grouping of the lines

What a window is reported as should be the lines of the window grouped by plugin and counted:
`Grouped`.  The counters for the sources a client may name are kept in the same dictionary as the
fixed ones, so a request with `src=sum` is counted twice in `sum`.  `grouped_iff` says that the
reports are right exactly if no request names one of these.
-/

set_option autoImplicit false

namespace ImgPredictor

open Bytes Lists

/-- The counters every record has. -/
def fixedKeys : List Bytes := [lit "detect", lit "sum", lit "err"]

namespace Entry

/-- The plugin the line names. -/
def plugin (e : Entry) : Option Bytes := e.named.map Prod.fst

/-- The source the line names along with a plugin. -/
def sourceFor (plugin : Bytes) (e : Entry) : Option Bytes :=
  e.named.bind fun named ↦ if named.1 = plugin then some named.2 else none

/-- Does the line count for the fixed counter of that name? -/
def raises (e : Entry) (key : Bytes) : Bool :=
  if key = lit "sum" then true
  else if key = lit "err" then e.isError
  else if key = lit "detect" then e.isHit
  else false

@[simp] theorem raises_sum (e : Entry) : e.raises (lit "sum") = true := rfl
@[simp] theorem raises_err (e : Entry) : e.raises (lit "err") = e.isError := rfl
@[simp] theorem raises_detect (e : Entry) : e.raises (lit "detect") = e.isHit := rfl

theorem raises_of_notMem {key : Bytes} (h : key ∉ fixedKeys) (e : Entry) :
    e.raises key = false := by
  simp only [fixedKeys, List.mem_cons, List.not_mem_nil, or_false, not_or] at h
  rw [raises, if_neg h.2.1, if_neg h.2.2, if_neg h.1]

end Entry

/-- The counters of a window are its lines, grouped by the plugin they name. -/
structure Grouped (w : List Entry) (c : Counts) : Prop where
  /-- There is a record for every plugin that is named. -/
  plugins : ∀ plugin, plugin ∈ c.res ↔ ∃ e ∈ w, e.plugin = some plugin
  /-- `sum`: the lines that name the plugin. -/
  sum : ∀ (plugin : Bytes) (r : Record), c.res[plugin]? = some r →
    r.count (lit "sum") = w.countP fun e ↦ e.plugin == some plugin
  /-- `push` and `pull`: those with that source. -/
  source : ∀ (plugin : Bytes) (r : Record), c.res[plugin]? = some r → ∀ src ∈ srcType,
    r.count src = w.countP fun e ↦ e.sourceFor plugin == some src
  /-- `err`: those that count as errors. -/
  err : ∀ (plugin : Bytes) (r : Record), c.res[plugin]? = some r →
    r.count (lit "err") = w.countP fun e ↦ e.plugin == some plugin && e.isError
  /-- `detect`: those for which the parser returned `True`. -/
  detect : ∀ (plugin : Bytes) (r : Record), c.res[plugin]? = some r →
    r.count (lit "detect") = w.countP fun e ↦ e.plugin == some plugin && e.isHit
  /-- `sum` is the total over the sources. -/
  total : ∀ (plugin : Bytes) (r : Record), c.res[plugin]? = some r →
    ((r.counters.keys.filter fun key ↦ !fixedKeys.contains key).map r.count).sum
      = r.count (lit "sum")
  /-- What is detected is no error. -/
  detected : ∀ (plugin : Bytes) (r : Record), c.res[plugin]? = some r →
    r.count (lit "detect") + r.count (lit "err") ≤ r.count (lit "sum")
  /-- The lines that name a plugin and those that name none are all lines. -/
  httpSum : c.sum = (c.res.toList.map fun p ↦ p.2.count (lit "sum")).sum
    + w.countP fun e ↦ e.plugin.isNone
  /-- The errors of the plugins and the lines that name none are all errors. -/
  httpErr : c.err = (c.res.toList.map fun p ↦ p.2.count (lit "err")).sum
    + w.countP fun e ↦ e.plugin.isNone

/-! ## What a line adds to a counter -/

/-- The counter of a plugin under a key. -/
def Counts.count (c : Counts) (plugin key : Bytes) : ℕ :=
  (c.res[plugin]?.map fun r ↦ r.count key).getD 0

theorem count_add (r : Record) (key key' : Bytes) :
    (r.add key).count key' = r.count key' + (key == key').toNat := by
  rw [Record.count, Record.add, Dict.getD_insert]
  by_cases h : key = key'
  · subst h
    simp [Record.count]
  · simp [h, Record.count]

theorem count_new (datetime serverAddr key : Bytes) :
    (Record.new datetime serverAddr).count key = 0 := by
  simp only [Record.count, Record.new, Dict.getD_insert]
  split
  · rfl
  · split
    · rfl
    · split <;> simp

theorem isError_of_isHit {e : Entry} (h : e.isHit = true) : e.isError = false := by
  rw [Entry.isHit] at h
  rw [Entry.isError]
  cases hp : e.parser with
  | none => simp [hp] at h
  | some parse => rfl

theorem count_note (r : Record) (src : Bytes) (e : Entry) (key : Bytes) :
    (r.note src e).count key = r.count key + (src == key).toNat + (e.raises key).toNat := by
  have hkeys : lit "sum" ≠ lit "err" ∧ lit "sum" ≠ lit "detect" ∧ lit "err" ≠ lit "detect" := by
    decide
  rw [Record.note, Entry.raises]
  cases hhit : e.isHit with
  | true =>
    rw [isError_of_isHit hhit]
    simp only [Bool.false_eq_true, if_false, if_true, count_add]
    grind
  | false =>
    cases e.isError with
    | true =>
      simp only [if_true, count_add]
      grind
    | false =>
      simp only [Bool.false_eq_true, if_false, count_add]
      grind

/-- **What a line adds to a counter.** -/
theorem count_tally (localSrvAddr : Bytes) (startDt : DateTime) (c : Counts) (e : Entry)
    (plugin key : Bytes) :
    (tally localSrvAddr startDt c e).count plugin key = c.count plugin key
      + (e.sourceFor plugin == some key).toNat
      + (e.plugin == some plugin && e.raises key).toNat := by
  rw [tally, Counts.count, Counts.count, Entry.sourceFor, Entry.plugin]
  cases hn : e.named with
  | none => simp
  | some named =>
    obtain ⟨plugin', src⟩ := named
    simp only [Dict.getElem?_insert, Option.map_some, Option.bind_some]
    by_cases hp : plugin' = plugin
    · subst hp
      have hold : (c.res.getD plugin' (.new startDt.str localSrvAddr)).count key
          = (c.res[plugin']?.map fun r ↦ r.count key).getD 0 := by
        rw [Std.ExtTreeMap.getD_eq_getD_getElem?]
        cases c.res[plugin']? with
        | none => exact count_new _ _ _
        | some r => rfl
      simp [count_note, hold]
    · have hbeq : (plugin' == plugin) = false := by simpa using hp
      simp [hp, hbeq]

/-- **The counters of a window**: the lines with the source of that name, and the lines the counter
is for. -/
theorem count_countWindow (localSrvAddr : Bytes) (w : List Entry) (plugin key : Bytes) :
    (countWindow localSrvAddr w).count plugin key
      = w.countP (fun e ↦ e.sourceFor plugin == some key)
        + w.countP (fun e ↦ e.plugin == some plugin && e.raises key) := by
  have hfold : ∀ (startDt : DateTime) (w : List Entry) (c : Counts),
      (w.foldl (tally localSrvAddr startDt) c).count plugin key = c.count plugin key
        + (w.countP (fun e ↦ e.sourceFor plugin == some key)
        + w.countP (fun e ↦ e.plugin == some plugin && e.raises key)) := by
    intro startDt w
    induction w with
    | nil => simp
    | cons e w ih =>
      intro c
      have hbit : ∀ b : Bool, b.toNat = if b then 1 else 0 := by decide
      simp only [List.foldl_cons, ih, count_tally, List.countP_cons, hbit]
      omega
  have hempty : Counts.empty.count plugin key = 0 := by simp [Counts.count, Counts.empty]
  cases w with
  | nil => simpa [countWindow] using hempty
  | cons e w => rw [countWindow, hfold, hempty, Nat.zero_add]

/-! ## The records -/

variable {localSrvAddr : Bytes}

theorem mem_res_iff {w : List Entry} {plugin : Bytes} :
    plugin ∈ (countWindow localSrvAddr w).res ↔ ∃ e ∈ w, e.plugin = some plugin := by
  simp [mem_countWindow, Entry.plugin]

/-- No line of the window names a source of that name. -/
def Unnamed (w : List Entry) (key : Bytes) : Prop :=
  ∀ e ∈ w, ∀ plugin, e.named ≠ some (plugin, key)

theorem sourceFor_eq_some_iff {e : Entry} {plugin key : Bytes} :
    e.sourceFor plugin = some key ↔ e.named = some (plugin, key) := by
  rw [Entry.sourceFor]
  cases e.named with
  | none => simp
  | some named => grind

theorem countP_sourceFor_eq_zero {w : List Entry} {key : Bytes} (h : Unnamed w key)
    (plugin : Bytes) : (w.countP fun e ↦ e.sourceFor plugin == some key) = 0 := by
  rw [List.countP_eq_zero]
  intro e he hsrc
  exact h e he plugin (sourceFor_eq_some_iff.mp (by simpa using hsrc))

theorem isSome_sourceFor (e : Entry) (plugin : Bytes) :
    (e.sourceFor plugin).isSome = (e.plugin == some plugin) := by
  rw [Entry.sourceFor, Entry.plugin]
  cases e.named with
  | none => rfl
  | some named =>
    rw [Option.bind_some, Option.map_some]
    split <;> simp_all

section Counters

variable {w : List Entry} {plugin : Bytes} {r : Record}
  (hr : (countWindow localSrvAddr w).res[plugin]? = some r)

include hr

theorem count_record (key : Bytes) :
    r.count key = w.countP (fun e ↦ e.sourceFor plugin == some key)
      + w.countP fun e ↦ e.plugin == some plugin && e.raises key := by
  rw [← count_countWindow localSrvAddr, Counts.count, hr]
  rfl

/-- The counter of a source. -/
theorem count_source {key : Bytes} (hkey : key ∉ fixedKeys) :
    r.count key = w.countP fun e ↦ e.sourceFor plugin == some key := by
  rw [count_record hr]
  simp [Entry.raises_of_notMem hkey]

/-- A counter no line names. -/
theorem count_fixed {key : Bytes} (h : Unnamed w key) :
    r.count key = w.countP fun e ↦ e.plugin == some plugin && e.raises key := by
  rw [count_record hr, countP_sourceFor_eq_zero h, Nat.zero_add]

end Counters

/-! ## The totals -/

/-- A counter summed up over the records counts the lines that name any plugin. -/
theorem sum_records {w : List Entry} {key : Bytes} {q : Entry → Bool}
    (h : ∀ (plugin : Bytes) (r : Record), (countWindow localSrvAddr w).res[plugin]? = some r →
      r.count key = w.countP fun e ↦ e.plugin == some plugin && q e) :
    ((countWindow localSrvAddr w).res.toList.map fun p ↦ p.2.count key).sum
      = w.countP fun e ↦ e.plugin.isSome && q e := by
  have hmap : ((countWindow localSrvAddr w).res.toList.map fun p ↦ p.2.count key)
      = (countWindow localSrvAddr w).res.keys.map fun plugin ↦
          w.countP fun e ↦ (if q e then e.plugin else none) == some plugin := by
    rw [← Std.ExtTreeMap.map_fst_toList_eq_keys, List.map_map]
    refine List.map_congr_left fun p hp ↦ ?_
    rw [h p.1 p.2 (Std.ExtTreeMap.mem_toList_iff_getElem?_eq_some.mp hp)]
    refine List.countP_congr fun e _ ↦ ?_
    cases q e <;> simp
  rw [hmap, sum_countP_groups Std.ExtTreeMap.nodup_keys]
  · refine List.countP_congr fun e _ ↦ ?_
    cases q e <;> simp
  · intro e he plugin hplugin
    rw [Std.ExtTreeMap.mem_keys, mem_res_iff]
    split at hplugin
    · exact ⟨e, he, hplugin⟩
    · exact absurd hplugin (by simp)

theorem countP_isHit_add_isError_le (w : List Entry) (plugin : Bytes) :
    (w.countP fun e ↦ e.plugin == some plugin && e.isHit)
        + (w.countP fun e ↦ e.plugin == some plugin && e.isError)
      ≤ w.countP fun e ↦ e.plugin == some plugin := by
  induction w with
  | nil => simp
  | cons e w ih =>
    simp only [List.countP_cons]
    cases hhit : e.isHit with
    | true =>
      rw [isError_of_isHit hhit]
      cases e.plugin == some plugin <;> simp <;> omega
    | false => cases e.plugin == some plugin <;> cases e.isError <;> simp <;> omega

theorem countP_add_unnamed (w : List Entry) (q : Entry → Bool)
    (hq : ∀ e, e.plugin = none → q e = true) :
    w.countP q = w.countP (fun e ↦ e.plugin.isSome && q e) + w.countP fun e ↦ e.plugin.isNone := by
  induction w with
  | nil => rfl
  | cons e w ih =>
    simp only [List.countP_cons, ih]
    cases hp : e.plugin with
    | none => simp [hq e hp]; omega
    | some p => simp; omega

/-- The sources of a record add up to the lines that name the plugin. -/
theorem sum_sources {w : List Entry} {plugin : Bytes} {r : Record}
    (hr : (countWindow localSrvAddr w).res[plugin]? = some r)
    (h : ∀ key ∈ fixedKeys, Unnamed w key) :
    ((r.counters.keys.filter fun key ↦ !fixedKeys.contains key).map r.count).sum
      = w.countP fun e ↦ e.plugin == some plugin := by
  have hmap : (r.counters.keys.filter fun key ↦ !fixedKeys.contains key).map r.count
      = (r.counters.keys.filter fun key ↦ !fixedKeys.contains key).map fun key ↦
          w.countP fun e ↦ e.sourceFor plugin == some key := by
    refine List.map_congr_left fun key hkey ↦ count_source hr ?_
    simpa using (List.mem_filter.mp hkey).2
  rw [hmap, sum_countP_groups (Std.ExtTreeMap.nodup_keys.filter _)]
  · simp only [isSome_sourceFor]
  · intro e he key hkey
    have hnamed := sourceFor_eq_some_iff.mp hkey
    have hfixed : key ∉ fixedKeys := fun hmem ↦ h key hmem e he plugin hnamed
    refine List.mem_filter.mpr ⟨?_, by simpa using hfixed⟩
    rw [Std.ExtTreeMap.mem_keys]
    -- a counter that is not zero is there
    by_contra hmem
    have hpos : 0 < w.countP fun e ↦ e.sourceFor plugin == some key :=
      List.countP_pos_iff.mpr ⟨e, he, by simp [hkey]⟩
    rw [← count_source hr hfixed, Record.count, Std.ExtTreeMap.getD_eq_fallback hmem] at hpos
    exact absurd hpos (Nat.lt_irrefl 0)

theorem grouped_of_unnamed {w : List Entry} (h : ∀ key ∈ fixedKeys, Unnamed w key) :
    Grouped w (countWindow localSrvAddr w) := by
  have hsum : ∀ (plugin : Bytes) (r : Record),
      (countWindow localSrvAddr w).res[plugin]? = some r →
      r.count (lit "sum") = w.countP fun e ↦ e.plugin == some plugin := by
    intro plugin r hr
    simpa using count_fixed hr (h (lit "sum") (by decide))
  have herr : ∀ (plugin : Bytes) (r : Record),
      (countWindow localSrvAddr w).res[plugin]? = some r →
      r.count (lit "err") = w.countP fun e ↦ e.plugin == some plugin && e.isError := by
    intro plugin r hr
    simpa using count_fixed hr (h (lit "err") (by decide))
  have hdetect : ∀ (plugin : Bytes) (r : Record),
      (countWindow localSrvAddr w).res[plugin]? = some r →
      r.count (lit "detect") = w.countP fun e ↦ e.plugin == some plugin && e.isHit := by
    intro plugin r hr
    simpa using count_fixed hr (h (lit "detect") (by decide))
  obtain ⟨hall, hallErr⟩ := sum_err_countWindow localSrvAddr w
  refine ⟨fun _ ↦ mem_res_iff, hsum, fun plugin r hr src hsrc ↦ ?_, herr, hdetect,
    fun plugin r hr ↦ ?_, fun plugin r hr ↦ ?_, ?_, ?_⟩
  · refine count_source hr fun hmem ↦ ?_
    revert src
    decide
  · rw [sum_sources hr h, hsum plugin r hr]
  · rw [hdetect plugin r hr, herr plugin r hr, hsum plugin r hr]
    exact countP_isHit_add_isError_le w plugin
  · rw [hall, sum_records (q := fun _ ↦ true) (by simpa using hsum),
      ← countP_add_unnamed w _ fun _ _ ↦ rfl, List.countP_true]
  · rw [hallErr, sum_records herr]
    refine countP_add_unnamed w _ fun e he ↦ ?_
    rw [Entry.isError, Entry.parser, Option.map_eq_none_iff.mp he]
    rfl

/-- **The counters of a window are right exactly if no line names a fixed counter.** -/
theorem grouped_countWindow_iff {w : List Entry} :
    Grouped w (countWindow localSrvAddr w) ↔ ∀ key ∈ fixedKeys, Unnamed w key := by
  refine ⟨fun h key hkey e he plugin hnamed ↦ ?_, grouped_of_unnamed⟩
  have hmem : plugin ∈ (countWindow localSrvAddr w).res :=
    mem_res_iff.mpr ⟨e, he, by simp [Entry.plugin, hnamed]⟩
  obtain ⟨r, hr⟩ := Option.isSome_iff_exists.mp (Std.ExtTreeMap.mem_iff_isSome_getElem?.mp hmem)
  have hpos : 0 < w.countP fun e ↦ e.sourceFor plugin == some key :=
    List.countP_pos_iff.mpr ⟨e, he, by simp [sourceFor_eq_some_iff.mpr hnamed]⟩
  -- the counter is too large by the lines that name it
  have hcount := count_record hr key
  have hright : r.count key = w.countP fun e ↦ e.plugin == some plugin && e.raises key := by
    rw [fixedKeys] at hkey
    simp only [List.mem_cons, List.not_mem_nil, or_false] at hkey
    rcases hkey with rfl | rfl | rfl
    · simpa using h.detect plugin r hr
    · simpa using h.sum plugin r hr
    · simpa using h.err plugin r hr
  omega

/-! ## The reports of a run -/

/-- **What a run reports is the grouping of its windows** exactly if no request in them names the
source of a fixed counter. -/
theorem grouped_iff (localSrvAddr : Bytes) (stepSeconds : ℤ) (lines : List Bytes) :
    List.Forall₂ Grouped (windowsOf stepSeconds lines)
        (logStatics localSrvAddr stepSeconds lines).inserted ↔
      ∀ w ∈ windowsOf stepSeconds lines, ∀ e ∈ w, ∀ plugin src,
        requestOf e.request = some (plugin, src) → src ∉ fixedKeys := by
  rw [logStatics_eq]
  simp only [List.forall₂_map_right_iff, List.forall₂_same, grouped_countWindow_iff]
  constructor
  · exact fun h w hw e he plugin src hnamed hmem ↦ h w hw src hmem e he plugin hnamed
  · exact fun h w hw key hkey e he plugin hnamed ↦ h w hw e he plugin key hnamed hkey

/-- A request with `src=sum` is reported as two. -/
theorem not_grouped_srcSum :
    (logStatics (lit "a") 600 [sampleLine "10:25:00" "0" "plugin=face&src=sum"]).queries
        = [.log (lit "face") (lit "a") 0 0 0 2 1 (lit "2016-03-08 10:25:00"),
          .http (lit "a") 1 1 (lit "2016-03-08 10:25:00")] ∧
      ¬ List.Forall₂ Grouped
        (windowsOf 600 [sampleLine "10:25:00" "0" "plugin=face&src=sum"])
        (logStatics (lit "a") 600 [sampleLine "10:25:00" "0" "plugin=face&src=sum"]).inserted := by
  refine ⟨by decide +kernel, fun h ↦ ?_⟩
  have hw : windowsOf 600 [sampleLine "10:25:00" "0" "plugin=face&src=sum"]
      = [[⟨sampleTime 10 25 0, lit "0", lit "plugin=face&src=sum"⟩]] := by decide +kernel
  rw [logStatics_eq, hw] at h
  cases h with
  | cons h _ =>
    exact grouped_countWindow_iff.mp h (lit "sum") (by decide) _ (List.mem_singleton_self _)
      (lit "face") (by decide +kernel)

end ImgPredictor
