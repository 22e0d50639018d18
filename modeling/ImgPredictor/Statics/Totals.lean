import Mathlib.Algebra.BigOperators.Group.List.Basic
import ImgPredictor.Statics.GroupBy
import ImgPredictor.Statics.Recovery

/-!
# Totals over many runs

Where a log is cut into files, how long the windows are and in which order the lines come decides
which rows there are.  It does not decide what they add up to: `sum_counter` says that a counter of
a plugin, summed up over all its rows, is the number of lines that count for it.

The totals of the plugins are better off there than those of the servers (see `Conserved`): a window
that is never inserted has no line that names a plugin.
-/

set_option autoImplicit false

namespace ImgPredictor

open Bytes Lists

/-! ## The counters of a row -/

/-- The counters of a row of `imaginx_log_statics`, by the names of their columns. -/
def Query.columns : Query → List (Bytes × ℕ)
  | .log _ _ push pull detect sum err _ =>
    [(lit "push", push), (lit "pull", pull), (lit "detect", detect), (lit "sum", sum),
      (lit "err", err)]
  | .http .. => []

/-- The names of the columns that count lines of a plugin. -/
def counterColumns : List Bytes :=
  [lit "push", lit "pull", lit "detect", lit "sum", lit "err"]

/-- `plugin` -/
def Query.plugin? : Query → Option Bytes
  | .log plugin .. => some plugin
  | .http .. => none

/-- What a row has to say about a counter of a plugin. -/
def Query.counter (plugin column : Bytes) (q : Query) : ℕ :=
  if q.plugin? = some plugin then (q.columns.lookup column).getD 0 else 0

/-- How often an entry counts for a counter of a plugin: once if it names it as its source, and once
if the counter is one of the fixed ones and the line is of that kind. -/
def Entry.countsFor (plugin column : Bytes) (e : Entry) : ℕ :=
  (e.sourceFor plugin == some column).toNat
    + (e.plugin == some plugin && e.raises column).toNat

theorem counter_logRow (plugin column p : Bytes) (r : Record) (h : column ∈ counterColumns) :
    (logRow p r).counter plugin column = if p = plugin then r.count column else 0 := by
  have hlookup : ((logRow p r).columns.lookup column).getD 0 = r.count column := by
    simp only [counterColumns, List.mem_cons, List.not_mem_nil, or_false] at h
    rcases h with rfl | rfl | rfl | rfl | rfl <;> rfl
  rw [Query.counter, hlookup]
  exact if_congr Option.some_inj rfl rfl

/-! ## The rows of a window -/

variable {localSrvAddr : Bytes}

/-- Of the rows of a call, only that of the plugin counts. -/
theorem sum_counter_insertDb (c : Counts) (plugin : Bytes) {column : Bytes}
    (h : column ∈ counterColumns) :
    ((insertDb c).map (Query.counter plugin column)).sum = c.count plugin column := by
  obtain ⟨https, hrows, hhttp⟩ : ∃ https : List Query,
      insertDb c = (c.res.toList.map fun p ↦ logRow p.1 p.2) ++ https ∧
        (https.map (Query.counter plugin column)).sum = 0 := by
    refine ⟨_, rfl, ?_⟩
    rcases c.res.toList.getLast? with _ | p <;> rfl
  have hlog : (c.res.toList.map fun p ↦ (logRow p.1 p.2).counter plugin column)
      = c.res.keys.map fun p ↦ if p = plugin then c.count p column else 0 := by
    rw [← Std.ExtTreeMap.map_fst_toList_eq_keys, List.map_map]
    refine List.map_congr_left fun p hp ↦ ?_
    have hget := Std.ExtTreeMap.mem_toList_iff_getElem?_eq_some.mp hp
    rw [counter_logRow _ _ _ _ h, Function.comp_apply, Counts.count, hget]
    rfl
  rw [hrows, List.map_append, List.sum_append, hhttp, Nat.add_zero, List.map_map]
  change (c.res.toList.map fun p ↦ (logRow p.1 p.2).counter plugin column).sum = _
  rw [hlog, sum_map_ite_of_nodup Std.ExtTreeMap.nodup_keys]
  split
  · rfl
  · rename_i hmem
    rw [Std.ExtTreeMap.mem_keys] at hmem
    have hnone : c.res[plugin]? = none := by
      rw [← Option.not_isSome_iff_eq_none, ← Std.ExtTreeMap.mem_iff_isSome_getElem?]
      exact hmem
    rw [Counts.count, hnone]
    rfl

/-- **The counters of some windows** are the lines in them that count. -/
theorem sum_counter_rowsOf (ws : List (List Entry)) (plugin : Bytes) {column : Bytes}
    (h : column ∈ counterColumns) :
    ((rowsOf localSrvAddr ws).map (Query.counter plugin column)).sum
      = (ws.flatten.map (Entry.countsFor plugin column)).sum := by
  induction ws with
  | nil => rfl
  | cons w ws ih =>
    have hone : ((rowsOf localSrvAddr [w]).map (Query.counter plugin column)).sum
        = (w.map (Entry.countsFor plugin column)).sum := by
      rw [rowsOf, List.map_singleton, List.flatMap_singleton, sum_counter_insertDb _ _ h,
        count_countWindow, countP_eq_sum, countP_eq_sum, ← List.sum_map_add]
      rfl
    have hsplit : rowsOf localSrvAddr (w :: ws)
        = rowsOf localSrvAddr [w] ++ rowsOf localSrvAddr ws := rowsOf_append [w] ws
    rw [hsplit, List.map_append, List.sum_append, ih, hone, List.flatten_cons, List.map_append,
      List.sum_append]

/-! ## Jobs -/

/-- A run of the script over one file, on some server, that ends without an exception. -/
structure Job where
  /-- `local_srv_addr` -/
  localSrvAddr : Bytes
  /-- `step_seconds` -/
  stepSeconds : ℤ
  /-- The lines of `log_file`. -/
  lines : List Bytes
  /-- Windows are not empty. -/
  step : 1 ≤ stepSeconds
  /-- No line raises an exception. -/
  quiet : (logStatics localSrvAddr stepSeconds lines).raised = none

/-- The rows of a job. -/
def Job.queries (job : Job) : List Query :=
  (logStatics job.localSrvAddr job.stepSeconds job.lines).queries

/-- The rows of a job are those of all windows there are. -/
theorem Job.queries_eq (job : Job) : job.queries
    = rowsOf job.localSrvAddr (windows (closesAt job.stepSeconds) keep (entriesOf job.lines)) := by
  have hok := job.quiet
  rw [logStatics_eq] at hok
  change (seen job.lines).2 = none at hok
  rw [Job.queries, logStatics_eq, Run.queries, windowsOf, cutWindows_eq job.step, hok, lastWindow,
    (seen_eq hok).1]
  change rowsOf job.localSrvAddr _ = _
  cases entriesOf job.lines with
  | nil => rfl
  | cons e es =>
    rw [windows, windows, windowsFrom_eq, windowsFrom_eq _ keep, rowsOf_append, rowsOf_append,
      rowsOf_keepIf]
    rfl

/-- The counters of a job are the lines of its file that count. -/
theorem Job.sum_counter_queries (job : Job) (plugin : Bytes) {column : Bytes}
    (h : column ∈ counterColumns) :
    (job.queries.map (Query.counter plugin column)).sum
      = ((entriesOf job.lines).map (Entry.countsFor plugin column)).sum := by
  rw [job.queries_eq, sum_counter_rowsOf _ _ h, flatten_windows]

/-- The counters of some jobs are the lines of theirs that count. -/
theorem sum_counter_queries (jobs : List Job) (plugin : Bytes) {column : Bytes}
    (h : column ∈ counterColumns) :
    ((jobs.flatMap Job.queries).map (Query.counter plugin column)).sum
      = ((entriesOf (jobs.flatMap Job.lines)).map (Entry.countsFor plugin column)).sum := by
  induction jobs with
  | nil => rfl
  | cons job jobs ih =>
    rw [List.flatMap_cons, List.flatMap_cons, entriesOf_append, List.map_append, List.map_append,
      List.sum_append, List.sum_append, ih, job.sum_counter_queries _ h]

/-- **The totals of the plugins** are the lines that count, whatever the jobs: how the log is cut
into files, in which order the lines come and how long the windows are makes no difference. -/
theorem sum_counter (jobs : List Job) {lines : List Bytes}
    (hlines : (jobs.flatMap Job.lines).Perm lines) (plugin : Bytes) {column : Bytes}
    (h : column ∈ counterColumns) :
    ((jobs.flatMap Job.queries).map (Query.counter plugin column)).sum
      = ((entriesOf lines).map (Entry.countsFor plugin column)).sum := by
  have hperm : (entriesOf (jobs.flatMap Job.lines)).Perm (entriesOf lines) := hlines.filterMap _
  rw [← (hperm.map _).sum_eq]
  exact sum_counter_queries jobs plugin h

/-- A job over one line. -/
def sampleJob (stepSeconds : ℤ) (line : Bytes) (hstep : 1 ≤ stepSeconds)
    (h : (logStatics (lit "a") stepSeconds [line]).raised = none) : Job :=
  ⟨lit "a", stepSeconds, [line], hstep, h⟩

theorem step_minute : (1 : ℤ) ≤ 60 := by decide

theorem quiet_push : (logStatics (lit "a") 60
    [sampleLine "10:25:01" "0" "plugin=face&src=push"]).raised = none := by
  simp only [sampleLine_eq]
  decide +kernel

theorem quiet_pull : (logStatics (lit "a") 600
    [sampleLine "10:25:00" "0" "plugin=face&src=pull"]).raised = none := by
  simp only [sampleLine_eq]
  decide +kernel

/-- Two jobs with windows of different lengths. -/
def sampleJobs : List Job :=
  [sampleJob 60 (sampleLine "10:25:01" "0" "plugin=face&src=push") step_minute quiet_push,
    sampleJob 600 (sampleLine "10:25:00" "0" "plugin=face&src=pull") step_tenMinutes quiet_pull]

/-- The two jobs, over the lines in reverse order. -/
theorem sum_counter_sampleJobs :
    ((sampleJobs.flatMap Job.queries).map (Query.counter (lit "face") (lit "pull"))).sum
      = ((entriesOf [sampleLine "10:25:00" "0" "plugin=face&src=pull",
        sampleLine "10:25:01" "0" "plugin=face&src=push"]).map
          (Entry.countsFor (lit "face") (lit "pull"))).sum := by
  have hlines : (sampleJobs.flatMap Job.lines).Perm
      [sampleLine "10:25:00" "0" "plugin=face&src=pull",
        sampleLine "10:25:01" "0" "plugin=face&src=push"] := List.Perm.swap ..
  exact sum_counter sampleJobs hlines _ (by decide)

end ImgPredictor
