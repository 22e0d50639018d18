import Mathlib.Algebra.BigOperators.Group.Finset.Basic
import Mathlib.Data.Fintype.Basic
import ImgPredictor.Pipeline
import ImgPredictor.Statics.Schedule

/-!
# The whole site

Several workers of nginx serve requests and write one log, which is moved and read every night.
`served_counted` says that nothing gets lost on the way: **what the rows add up to is what was
served**, but for the requests that are still in the log.

Every worker has its own `ngx_http_graph_loc_conf_t`, made when the configuration was read, so each
has a run of its own; how their lines get mixed is up to them.  As in `reported`, what has to hold
is said line by line.  In particular the location is taken to log to the file that is moved and
read.
-/

set_option autoImplicit false

namespace ImgPredictor

open Bytes Lists Site

/-! ## What a request counts for -/

/-- Does the answer count for that counter of the plugin? -/
def Client.counts (plugin column : Bytes) (c : Client) (text : Bytes) : Bool :=
  c.plugin == some plugin &&
    if column = lit "sum" then true
    else if column = lit "err" then c.parser.isNone
    else if column = lit "detect" then c.detects text
    else c.src == some column

theorem countsFor_entry {a : Access} {c : Client} {text : Bytes} (h : a.Of c text)
    (hcalled : c.called.isSome = true) (plugin : Bytes) {column : Bytes} :
    (a.entry text).countsFor plugin column = (c.counts plugin column text).toNat := by
  obtain ⟨plugin', src, hplugin, hsrc, hnamed⟩ := named_entry h
  have hfixed := (src_ne hcalled hsrc).1
  have hsource : (a.entry text).sourceFor plugin = if plugin' = plugin then some src else none := by
    rw [Entry.sourceFor, hnamed]
    rfl
  rw [Entry.countsFor, Client.counts, hsource, Entry.plugin, hnamed, hplugin, hsrc, Option.map_some]
  by_cases hname : plugin' = plugin
  · rw [if_pos hname, hname]
    by_cases hcolumn : column ∈ fixedKeys
    · -- a source that is looked up is no fixed counter
      have hne : (some src == some column) = false := by
        simpa using fun heq : src = column ↦ hfixed (heq ▸ hcolumn)
      simp only [fixedKeys, List.mem_cons, List.not_mem_nil, or_false] at hcolumn
      rw [hne, Bool.toNat_false, Nat.zero_add]
      rcases hcolumn with rfl | rfl | rfl
      · rw [Entry.raises_detect, isHit_entry h]
        rfl
      · rfl
      · rw [Entry.raises_err, isError_entry h]
        rfl
    · rw [Entry.raises_of_notMem hcolumn, Bool.and_false, Bool.toNat_false, Nat.add_zero]
      simp only [fixedKeys, List.mem_cons, List.not_mem_nil, or_false, not_or] at hcolumn
      rw [if_neg hcolumn.2.1, if_neg hcolumn.2.2, if_neg hcolumn.1]
      simp
  · simp [hname, beq_false_of_ne hname]

/-! ## What a worker writes -/

section

variable {ι : Type} [DecidableEq ι]

/-- What is written, if it is that worker that writes. -/
def Site.WorkerEvent.linesBy (worker : ι) : WorkerEvent ι → List Bytes
  | .write w line => if w = worker then [line] else []
  | .reopen _ => []

/-- The lines of one worker. -/
def linesBy (worker : ι) (es : List (WorkerEvent ι)) : List Bytes :=
  es.flatMap (WorkerEvent.linesBy worker)

theorem mem_linesOf_iff {es : List (WorkerEvent ι)} {line : Bytes} :
    line ∈ linesOf es ↔ ∃ worker, line ∈ linesBy worker es := by
  simp only [linesOf, linesBy, List.mem_flatMap]
  constructor
  · rintro ⟨e, he, hline⟩
    cases e with
    | write w l => exact ⟨w, _, he, by simpa [WorkerEvent.lines, WorkerEvent.linesBy] using hline⟩
    | reopen w => exact absurd hline List.not_mem_nil
  · rintro ⟨worker, e, he, hline⟩
    cases e with
    | write w l =>
      refine ⟨_, he, ?_⟩
      rw [WorkerEvent.linesBy] at hline
      split at hline
      · exact hline
      · exact absurd hline List.not_mem_nil
    | reopen w => exact absurd hline List.not_mem_nil

/-- What some lines count for is what those of each worker do. -/
theorem sum_linesOf [Fintype ι] (f : Bytes → ℕ) (es : List (WorkerEvent ι)) :
    ((linesOf es).map f).sum = ∑ worker, ((linesBy worker es).map f).sum := by
  induction es with
  | nil => simp [linesOf, linesBy]
  | cons e es ih =>
    rw [linesOf] at ih
    have hone : (e.lines.map f).sum = ∑ worker, ((e.linesBy worker).map f).sum := by
      cases e with
      | write w line =>
        rw [Finset.sum_eq_single w]
        · simp [WorkerEvent.lines, WorkerEvent.linesBy]
        · intro w' _ hne
          simp [WorkerEvent.linesBy, Ne.symm hne]
        · simp
      | reopen w => simp [WorkerEvent.lines, WorkerEvent.linesBy]
    simp only [linesOf, linesBy, List.flatMap_cons, List.map_append, List.sum_append,
      Finset.sum_add_distrib] at ih ⊢
    rw [ih, hone]

end

/-! ## What was served -/

/-- `step_seconds` of `run_statics.sh` -/
def nightlyStep : ℤ := 600

/-- The rows of the nights. -/
def nightlyRows (localSrvAddr : Bytes) (inputs : List (List Bytes)) : List Query :=
  inputs.flatMap fun lines ↦ (logStatics localSrvAddr nightlyStep lines).queries

theorem sum_counter_nightlyRows (localSrvAddr : Bytes) {inputs : List (List Bytes)}
    (hquiet : ∀ lines ∈ inputs, (logStatics localSrvAddr nightlyStep lines).raised = none)
    (plugin : Bytes) {column : Bytes} (h : column ∈ counterColumns) :
    ((nightlyRows localSrvAddr inputs).map (Query.counter plugin column)).sum
      = ((entriesOf inputs.flatten).map (Entry.countsFor plugin column)).sum := by
  induction inputs with
  | nil => rfl
  | cons lines inputs ih =>
    have hjob := Job.sum_counter_queries ⟨localSrvAddr, nightlyStep, lines, by decide,
      hquiet lines List.mem_cons_self⟩ plugin h
    rw [Job.queries] at hjob
    rw [nightlyRows, List.flatMap_cons, List.map_append, List.sum_append, hjob,
      List.flatten_cons, entriesOf_append, List.map_append, List.sum_append,
      Nat.add_left_cancel_iff]
    exact ih fun lines' hmem ↦ hquiet lines' (List.mem_cons_of_mem _ hmem)

/-- What the entries of some lines add up to, line by line. -/
theorem sum_entriesOf (f : Entry → ℕ) (lines : List Bytes) :
    ((entriesOf lines).map f).sum = (lines.map fun line ↦ ((entryOf line).map f).getD 0).sum := by
  induction lines with
  | nil => rfl
  | cons line lines ih =>
    rw [List.map_cons, List.sum_cons, ← ih]
    cases hline : entryOf line with
    | none => rw [entriesOf_cons_none hline, Option.map_none, Option.getD_none, Nat.zero_add]
    | some e =>
      rw [entriesOf_cons_some hline, List.map_cons, List.sum_cons, Option.map_some,
        Option.getD_some]

section

variable {ι κ : Type} [DecidableEq ι] [Fintype ι] [Nonempty ι] [DecidableEq κ]
  {days : List (Day ι)} {slot : PluginSlot PluginInfo} {clients : ι → κ → Client}
  {actions : ι → List (Action κ)} {s : ι → Location κ} {access : ι → κ → Access}

omit [Fintype ι] [Nonempty ι] [DecidableEq ι] in
theorem called_of_log
    (hrun : ∀ w, Location.run (clients w) (.start slot) (actions w) = some (s w)) :
    ∀ w, ∀ p ∈ (Location.start slot).answerLog (clients w) (actions w),
      (clients w p.1).called.isSome = true := by
  intro w p hp
  have hjournal := journal_start.run (hrun w)
  rw [List.nil_append] at hjournal
  exact hjournal.called hp

omit [Fintype ι] in
/-- **No night's run raises an exception**: every line that is read was written by some worker. -/
theorem quiet_days (hdays : days.Pairwise fun d d' ↦ d.today.toOrdinal < d'.today.toOrdinal)
    (hrun : ∀ w, Location.run (clients w) (.start slot) (actions w) = some (s w))
    (hlines : ∀ w, (linesBy w (days.flatMap Day.work)).filter isLogLine
      = answerLines (access w) ((Location.start slot).answerLog (clients w) (actions w)))
    (hof : ∀ w, ∀ p ∈ (Location.start slot).answerLog (clients w) (actions w),
      (access w p.1).Of (clients w p.1) p.2)
    (haccepts : ∀ w, ∀ p ∈ (Location.start slot).answerLog (clients w) (actions w),
      (clients w p.1).Accepts p.2) (localSrvAddr : Bytes) :
    ∀ lines ∈ ((Site.init : Site ι).run (days.flatMap Day.events)).inputs,
      (logStatics localSrvAddr nightlyStep lines).raised = none := by
  have hcalled := called_of_log hrun
  rw [(read_days hdays).1]
  intro lines hmem
  rw [logStatics_eq]
  refine seen_raised_iff.mpr fun line hline ↦ ?_
  have hwritten : line ∈ linesOf (days.flatMap Day.work) :=
    (inputsOf_perm [] days).subset
      (List.mem_append_left _ (List.mem_flatten.mpr ⟨lines, hmem, hline⟩))
  obtain ⟨w, hw⟩ := mem_linesOf_iff.mp hwritten
  exact quiet_of_answerLines (hlines w) (hof w) (hcalled w) (haccepts w) line hw

/-- **What was served is what was written**, file by file and worker by worker. -/
theorem sum_entries_days
    (hdays : days.Pairwise fun d d' ↦ d.today.toOrdinal < d'.today.toOrdinal)
    (hrun : ∀ w, Location.run (clients w) (.start slot) (actions w) = some (s w))
    (hlines : ∀ w, (linesBy w (days.flatMap Day.work)).filter isLogLine
      = answerLines (access w) ((Location.start slot).answerLog (clients w) (actions w)))
    (hof : ∀ w, ∀ p ∈ (Location.start slot).answerLog (clients w) (actions w),
      (access w p.1).Of (clients w p.1) p.2) (plugin : Bytes) {column : Bytes} :
    ((entriesOf ((Site.init : Site ι).run (days.flatMap Day.events)).inputs.flatten).map
          (Entry.countsFor plugin column)).sum
        + ((entriesOf ((Site.init : Site ι).run (days.flatMap Day.events)).left).map
          (Entry.countsFor plugin column)).sum
      = ∑ w, ((Location.start slot).answerLog (clients w) (actions w)).countP fun p ↦
          (clients w p.1).counts plugin column p.2 := by
  have hcalled := called_of_log hrun
  obtain ⟨hinputs, hleft⟩ := read_days hdays
  have hentries : (entriesOf ((inputsOf [] days).flatten ++ carriedOver [] days)).Perm
      (entriesOf (linesOf (days.flatMap Day.work))) := (inputsOf_perm [] days).filterMap entryOf
  rw [hinputs, hleft, ← List.sum_append, ← List.map_append, ← entriesOf_append,
    (hentries.map _).sum_eq, sum_entriesOf, sum_linesOf]
  refine Finset.sum_congr rfl fun w _ ↦ ?_
  rw [← sum_entriesOf, entriesOf_answerLines (hlines w) (hof w), countP_eq_sum, List.map_map]
  refine congrArg List.sum (List.map_congr_left fun p hp ↦ ?_)
  exact countsFor_entry (hof w p hp) (hcalled w p hp) plugin

/-- **Nothing that was served is lost**: over any number of days, with any number of workers, the
counters of the rows and of the lines still in the log add up to the requests that were answered. -/
theorem served_counted
    (hdays : days.Pairwise fun d d' ↦ d.today.toOrdinal < d'.today.toOrdinal)
    (hrun : ∀ w, Location.run (clients w) (.start slot) (actions w) = some (s w))
    (hlines : ∀ w, (linesBy w (days.flatMap Day.work)).filter isLogLine
      = answerLines (access w) ((Location.start slot).answerLog (clients w) (actions w)))
    (hof : ∀ w, ∀ p ∈ (Location.start slot).answerLog (clients w) (actions w),
      (access w p.1).Of (clients w p.1) p.2)
    (haccepts : ∀ w, ∀ p ∈ (Location.start slot).answerLog (clients w) (actions w),
      (clients w p.1).Accepts p.2)
    (localSrvAddr plugin : Bytes) {column : Bytes} (h : column ∈ counterColumns) :
    (∀ lines ∈ ((Site.init : Site ι).run (days.flatMap Day.events)).inputs,
        (logStatics localSrvAddr nightlyStep lines).raised = none) ∧
      ((nightlyRows localSrvAddr
          ((Site.init : Site ι).run (days.flatMap Day.events)).inputs).map
            (Query.counter plugin column)).sum
          + ((entriesOf ((Site.init : Site ι).run (days.flatMap Day.events)).left).map
            (Entry.countsFor plugin column)).sum
        = ∑ w, ((Location.start slot).answerLog (clients w) (actions w)).countP fun p ↦
            (clients w p.1).counts plugin column p.2 := by
  have hquiet := quiet_days hdays hrun hlines hof haccepts localSrvAddr
  refine ⟨hquiet, ?_⟩
  rw [sum_counter_nightlyRows localSrvAddr hquiet plugin h]
  exact sum_entries_days hdays hrun hlines hof plugin

end

/-- What the two workers do: one of them answers two requests, the other none. -/
def faceWork (worker : Bool) : List (Action Bool) := if worker then faceActions else []

/-- A day of theirs.  The second answer is written after the statistics were run. -/
def faceDay : Day Bool where
  today := sampleTime 0 1 0 sample_minute
  early := [.write true (errorLine faceAccess.line.text)]
  between := [.reopen true] ++ [lit "missing graph body\n"].map (WorkerEvent.write false) ++
    [.reopen false]
  later := []
  expired := []
  rest := [.write true (errorLine faceAccess.line.text)]
  reopened := sample_reopened _

theorem log_faceWork (worker : Bool) : (Location.start World.withFace.glcf.pluginSlot).answerLog
    (fun _ : Bool ↦ facePull) (faceWork worker)
      = if worker then [(true, lit "0"), (false, lit "0")] else [] := by
  cases worker with
  | true => exact log_faceActions
  | false => rfl

theorem run_faceWork (worker : Bool) : ∃ s, Location.run (fun _ : Bool ↦ facePull)
    (.start World.withFace.glcf.pluginSlot) (faceWork worker) = some s := by
  cases worker with
  | true => exact run_faceActions
  | false => exact ⟨_, rfl⟩

/-- All of them are answered `0`. -/
theorem text_faceWork (worker : Bool) :
    ∀ p ∈ (Location.start World.withFace.glcf.pluginSlot).answerLog (fun _ : Bool ↦ facePull)
      (faceWork worker), p.2 = lit "0" := by
  intro p hp
  rw [log_faceWork] at hp
  cases worker with
  | true =>
    simp only [if_true, List.mem_cons, List.not_mem_nil, or_false] at hp
    rcases hp with rfl | rfl <;> rfl
  | false => exact absurd hp List.not_mem_nil

theorem lines_faceDay (worker : Bool) :
    (linesBy worker ([faceDay].flatMap Day.work)).filter isLogLine
      = answerLines (fun _ ↦ faceAccess) ((Location.start World.withFace.glcf.pluginSlot).answerLog
        (fun _ : Bool ↦ facePull) (faceWork worker)) := by
  rw [log_faceWork]
  cases worker <;> decide +kernel

theorem served_counted_faceDay :
    ((nightlyRows (lit "a") ((Site.init : Site Bool).run ([faceDay].flatMap Day.events)).inputs).map
        (Query.counter (lit "face") (lit "pull"))).sum
      + ((entriesOf ((Site.init : Site Bool).run ([faceDay].flatMap Day.events)).left).map
          (Entry.countsFor (lit "face") (lit "pull"))).sum
    = ∑ w, ((Location.start World.withFace.glcf.pluginSlot).answerLog
        (fun _ : Bool ↦ facePull) (faceWork w)).countP fun p ↦
          facePull.counts (lit "face") (lit "pull") p.2 := by
  choose s hs using run_faceWork
  refine (@served_counted Bool Bool _ _ _ _ [faceDay] _ (fun _ _ ↦ facePull) faceWork s
    (fun _ _ ↦ faceAccess) (by simp) hs lines_faceDay ?_ ?_ _ _ _ (by decide)).2
  · intro w p hp
    rw [text_faceWork w p hp]
    exact faceAccess_of
  · intro w p hp
    rw [text_faceWork w p hp]
    exact facePull_accepts

end ImgPredictor
