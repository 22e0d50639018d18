import Mathlib.Data.List.Chain
import Mathlib.Data.List.Nodup
import ImgPredictor.Statics.Conservation

/-!
# The keys of the rows

Both tables have a unique key with the date in it, which is the time the window of the row began.
In a log whose times never go back, a line that closes a window is later than the line that began
it, so no two windows begin at the same time; and within a window the plugins are keys of a
dictionary.  `keys_unique` puts the two together.

* `pairwise_starts` — the starts grow from window to window.
* `logKeys_insertDb`, `httpKeys_insertDb` — the keys of the rows of one call of `insert_db`.
-/

set_option autoImplicit false

namespace ImgPredictor

open Bytes Lists

/-! ## Keys -/

/-- `unique key plugin_dt (plugin, date_time)` of `imaginx_log_statics`. -/
def Query.logKey : Query → Option (Bytes × Bytes)
  | .log plugin _ _ _ _ _ _ dateTime => some (plugin, dateTime)
  | .http .. => none

/-- `unique key ser_dt (server_addr, date_time)` of `imaginx_http_statics`. -/
def Query.httpKey : Query → Option (Bytes × Bytes)
  | .log .. => none
  | .http serverAddr _ _ dateTime => some (serverAddr, dateTime)

/-- `date_time` -/
def Query.dateTime : Query → Bytes
  | .log _ _ _ _ _ _ _ dateTime => dateTime
  | .http _ _ _ dateTime => dateTime

/-- The times of the lines that match never go back. -/
def Chronological (lines : List Bytes) : Prop :=
  (entriesOf lines).Pairwise fun e e' ↦ e.dt.toSeconds ≤ e'.dt.toSeconds

instance (lines : List Bytes) : Decidable (Chronological lines) :=
  inferInstanceAs (Decidable (List.Pairwise _ _))

/-- The windows begin one after the other. -/
def Later (w w' : List Entry) : Prop :=
  ∀ start ∈ w.head?, ∀ start' ∈ w'.head?, start.dt.toSeconds < start'.dt.toSeconds

/-! ## The starts of the windows -/

/-- The lines a run gets to are the first of those that are read. -/
theorem seen_isPrefix (lines : List Bytes) : (seen lines).1 <+: entriesOf lines := by
  induction lines with
  | nil => exact List.nil_prefix
  | cons line lines ih =>
    rcases hline : readLine line with _ | (e | entry)
    · rw [seen_cons_skip hline, entriesOf_cons_none (entryOf_of_skip hline)]
      exact ih
    · rw [seen_cons_error hline]
      exact List.nil_prefix
    · rw [entriesOf_cons_some (entryOf_of_ok hline)]
      rcases hf : entry.fault with _ | e
      · rw [seen_cons_ok hline hf, List.cons_prefix_cons]
        exact ⟨rfl, ih⟩
      · rw [seen_cons_fault hline hf, List.cons_prefix_cons]
        exact ⟨rfl, List.nil_prefix⟩

variable {stepSeconds : ℤ} {lines : List Bytes}

/-- The head of the open window is one of the lines before. -/
theorem headAfter_mem (closes : Entry → Entry → Bool) (head : Entry) (es : List Entry) :
    headAfter closes head es ∈ head :: es := by
  induction es generalizing head with
  | nil => exact List.mem_singleton_self _
  | cons e es ih =>
    rw [headAfter]
    split
    · exact List.mem_cons_of_mem _ (ih e)
    · rcases List.mem_cons.mp (ih head) with h | h
      · rw [h]
        exact List.mem_cons_self
      · exact List.mem_cons_of_mem _ (List.mem_cons_of_mem _ h)

/-- A line that closes a window comes after its start. -/
theorem lt_of_closes (hstep : 1 ≤ stepSeconds) {start e : Entry}
    (hle : start.dt.toSeconds ≤ e.dt.toSeconds) (h : closesAt stepSeconds start e = true) :
    start.dt.toSeconds < e.dt.toSeconds := by
  rw [closesAt, closes, decide_eq_true_iff, DateTime.secondsSince, DateTime.since] at h
  omega

/-- **Each window begins later than the one before.** -/
theorem pairwise_starts (hstep : 1 ≤ stepSeconds) (hchron : Chronological lines) :
    (windowsOf stepSeconds lines).Pairwise Later := by
  have hseen := hchron.sublist (seen_isPrefix lines).sublist
  obtain ⟨hopen, hchain⟩ := @windows_sound _ (closesAt stepSeconds) (seen lines).1
  -- the time a window begins, as a number
  let start (w : List Entry) : ℤ := (w.head?.map fun e ↦ e.dt.toSeconds).getD 0
  have hlt : (windows (closesAt stepSeconds) keep (seen lines).1).IsChain
      fun w w' ↦ start w < start w' := by
    refine hchain.imp fun w w' hw ↦ ?_
    obtain ⟨head, tail, head', tail', rfl, rfl, hmem, hclose⟩ := hw
    obtain ⟨x₀, a, b, hes, rfl⟩ := mem_steps _ hmem
    rw [hes] at hseen
    have hle := (List.pairwise_append.mp hseen).2.2 _ (headAfter_mem (closesAt stepSeconds) x₀ a)
      head' (by simp)
    exact lt_of_closes hstep hle hclose
  have hpairs : (windows (closesAt stepSeconds) keep (seen lines).1).Pairwise
      fun w w' ↦ start w < start w' := by
    rw [← List.pairwise_map (R := (· < ·)), ← List.isChain_iff_pairwise, List.isChain_map]
    exact hlt
  refine (hpairs.sublist (windowsOf_isPrefix hstep lines).sublist).imp ?_
  intro w w' hw e he e' he'
  simpa [start, Option.mem_def.mp he, Option.mem_def.mp he'] using hw

/-! ## The rows of a window -/

variable {localSrvAddr : Bytes}

theorem Counts.Stamped.of_mem {c : Counts} {startDt : DateTime}
    (hc : c.Stamped localSrvAddr startDt) {p : Bytes × Record} (hp : p ∈ c.res.toList) :
    p.2.datetime = startDt.str ∧ p.2.serverAddr = localSrvAddr :=
  hc p.1 p.2 (Std.ExtTreeMap.mem_toList_iff_getElem?_eq_some.mp hp)

theorem logKeys_insertDb {c : Counts} {startDt : DateTime} (hc : c.Stamped localSrvAddr startDt) :
    (insertDb c).filterMap Query.logKey = c.res.keys.map fun plugin ↦ (plugin, startDt.str) := by
  have hlog : (c.res.toList.map fun p ↦ logRow p.1 p.2).filterMap Query.logKey
      = c.res.keys.map fun plugin ↦ (plugin, startDt.str) := by
    rw [List.filterMap_map, ← Std.ExtTreeMap.map_fst_toList_eq_keys, List.map_map,
      ← List.filterMap_eq_map]
    refine List.filterMap_congr fun p hp ↦ ?_
    show some (p.1, p.2.datetime) = some (p.1, startDt.str)
    rw [(hc.of_mem hp).1]
  rw [insertDb, List.filterMap_append, hlog]
  rcases c.res.toList.getLast? with _ | r <;> exact List.append_nil _

theorem httpKeys_insertDb {c : Counts} {startDt : DateTime} (hc : c.Stamped localSrvAddr startDt) :
    (insertDb c).filterMap Query.httpKey
      = if 0 < c.res.size then [(localSrvAddr, startDt.str)] else [] := by
  have hlog : (c.res.toList.map fun p ↦ logRow p.1 p.2).filterMap Query.httpKey = [] := by
    rw [List.filterMap_map, List.filterMap_eq_nil_iff]
    exact fun _ _ ↦ rfl
  rw [insertDb, List.filterMap_append, hlog, List.nil_append, ← Std.ExtTreeMap.length_toList]
  rcases hl : c.res.toList.getLast? with _ | p
  · rw [List.getLast?_eq_none_iff.mp hl]
    rfl
  · have hmem := List.mem_of_getLast? hl
    obtain ⟨hdate, haddr⟩ := hc.of_mem hmem
    rw [if_pos (List.length_pos_of_mem hmem), ← hdate, ← haddr]
    rfl

/-- **The rows of one call carry the start of its window.** -/
theorem dateTime_insertDb {c : Counts} {startDt : DateTime} (hc : c.Stamped localSrvAddr startDt) :
    ∀ q ∈ insertDb c, q.dateTime = startDt.str := by
  intro q hq
  rw [insertDb, List.mem_append] at hq
  rcases hq with hq | hq
  · obtain ⟨p, hp, rfl⟩ := List.mem_map.mp hq
    exact (hc.of_mem hp).1
  · rcases hl : c.res.toList.getLast? with _ | p
    · rw [hl] at hq
      exact absurd hq (by simp)
    · rw [hl, List.mem_singleton] at hq
      subst hq
      exact (hc.of_mem (List.mem_of_getLast? hl)).1

/-- The records of a window of the run are stamped with the time of its first line. -/
theorem stamped_of_mem (localSrvAddr : Bytes) (hstep : 1 ≤ stepSeconds) {w : List Entry}
    (hw : w ∈ windowsOf stepSeconds lines) :
    ∃ start tail, w = start :: tail ∧
      (countWindow localSrvAddr w).Stamped localSrvAddr start.dt := by
  have hmem := (windowsOf_isPrefix hstep lines).subset hw
  obtain ⟨start, tail, rfl⟩ := List.exists_cons_of_ne_nil (ne_nil_of_mem_windows hmem)
  exact ⟨start, tail, rfl, stamped_countWindow start tail⟩

/-! ## The rows of a run -/

/-- No two rows of a run share a key, and the rows of a call of `insert_db` carry the start of the
window they are about. -/
structure KeysUnique (localSrvAddr : Bytes) (stepSeconds : ℤ) (lines : List Bytes) : Prop where
  /-- `plugin_dt` -/
  log : ((logStatics localSrvAddr stepSeconds lines).queries.filterMap Query.logKey).Nodup
  /-- `ser_dt` -/
  http : ((logStatics localSrvAddr stepSeconds lines).queries.filterMap Query.httpKey).Nodup
  /-- Each call is about a window. -/
  calls : (logStatics localSrvAddr stepSeconds lines).inserted
    = (windowsOf stepSeconds lines).map (countWindow localSrvAddr)
  /-- Its rows carry the start of that window. -/
  dated : ∀ w ∈ windowsOf stepSeconds lines, ∀ start ∈ w.head?,
    ∀ q ∈ insertDb (countWindow localSrvAddr w), q.dateTime = start.dt.str

/-- Windows that begin at different times have no key in common. -/
theorem nodup_keys_of_later {key : Query → Option (Bytes × Bytes)}
    (hstep : 1 ≤ stepSeconds) (hchron : Chronological lines)
    (hkey : ∀ q k, key q = some k → k.2 = q.dateTime)
    (hown : ∀ w ∈ windowsOf stepSeconds lines,
      ((insertDb (countWindow localSrvAddr w)).filterMap key).Nodup) :
    ((logStatics localSrvAddr stepSeconds lines).queries.filterMap key).Nodup := by
  have hdate : ∀ w ∈ windowsOf stepSeconds lines, ∃ start, w.head? = some start ∧
      ∀ k ∈ (insertDb (countWindow localSrvAddr w)).filterMap key, k.2 = start.dt.str := by
    intro w hw
    obtain ⟨start, tail, rfl, hstamp⟩ := stamped_of_mem localSrvAddr hstep hw
    refine ⟨start, rfl, fun k hk ↦ ?_⟩
    obtain ⟨q, hq, hqk⟩ := List.mem_filterMap.mp hk
    rw [hkey q k hqk, dateTime_insertDb hstamp q hq]
  rw [logStatics_eq, Run.queries, List.flatMap_map, List.filterMap_flatMap, List.nodup_flatMap]
  refine ⟨hown, (pairwise_starts hstep hchron).imp_of_mem fun {w w'} hw hw' hlater ↦ ?_⟩
  obtain ⟨start, hstart, hk⟩ := hdate w hw
  obtain ⟨start', hstart', hk'⟩ := hdate w' hw'
  intro k hmem hmem'
  have hsame := DateTime.str_inj ((hk k hmem).symm.trans (hk' k hmem'))
  have hlt := hlater start hstart start' hstart'
  rw [hsame] at hlt
  exact absurd hlt (Int.lt_irrefl _)

theorem nodup_logKeys (localSrvAddr : Bytes) (hstep : 1 ≤ stepSeconds)
    (hchron : Chronological lines) :
    ((logStatics localSrvAddr stepSeconds lines).queries.filterMap Query.logKey).Nodup := by
  refine nodup_keys_of_later hstep hchron ?_ fun w hw ↦ ?_
  · rintro (_ | _) k hk
    · exact congrArg Prod.snd (Option.some.inj hk).symm
    · exact absurd hk (by simp [Query.logKey])
  · obtain ⟨start, tail, rfl, hstamp⟩ := stamped_of_mem localSrvAddr hstep hw
    rw [logKeys_insertDb hstamp]
    exact Std.ExtTreeMap.nodup_keys.map fun _ _ h ↦ congrArg Prod.fst h

theorem nodup_httpKeys (localSrvAddr : Bytes) (hstep : 1 ≤ stepSeconds)
    (hchron : Chronological lines) :
    ((logStatics localSrvAddr stepSeconds lines).queries.filterMap Query.httpKey).Nodup := by
  refine nodup_keys_of_later hstep hchron ?_ fun w hw ↦ ?_
  · rintro (_ | _) k hk
    · exact absurd hk (by simp [Query.httpKey])
    · exact congrArg Prod.snd (Option.some.inj hk).symm
  · obtain ⟨start, tail, rfl, hstamp⟩ := stamped_of_mem localSrvAddr hstep hw
    rw [httpKeys_insertDb hstamp]
    split <;> simp

/-- **In a log whose times never go back, no two rows share a key.** -/
theorem keys_unique (localSrvAddr : Bytes) (hstep : 1 ≤ stepSeconds)
    (hchron : Chronological lines) : KeysUnique localSrvAddr stepSeconds lines := by
  refine ⟨nodup_logKeys _ hstep hchron, nodup_httpKeys _ hstep hchron, by rw [logStatics_eq], ?_⟩
  intro w hw start hs
  obtain ⟨head, tail, rfl, hstamp⟩ := stamped_of_mem localSrvAddr hstep hw
  obtain rfl := Option.some.inj hs
  exact dateTime_insertDb hstamp

/-- Two lines twenty minutes apart. -/
theorem keys_unique_sample :
    KeysUnique (lit "a") 600 [sampleLine "10:25:00" "0" "plugin=face&src=pull",
      sampleLine "10:45:00" "0" "plugin=face&src=push"] :=
  keys_unique (lit "a") (by decide) (by decide +kernel)

end ImgPredictor
