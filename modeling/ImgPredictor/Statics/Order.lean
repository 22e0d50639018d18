import Mathlib.Data.Finset.Dedup
import Mathlib.Data.List.FinRange
import ImgPredictor.Statics.Keys

/-!
# The order of the lines

The workers of a server write to one log, in no particular order.  What a line adds to the counters
does not depend on what was added before it (`tally_comm`), and whether it closes a window depends
on times only; so lines of the same time can be exchanged as long as each stays in its window.

Lines of the same time are in the same window if the times never go back.  In other logs they need
not be.
-/

set_option autoImplicit false

namespace ImgPredictor

open Bytes Lists

/-! ## Counting in another order -/

@[ext] theorem Record.ext {r r' : Record} (hdate : r.datetime = r'.datetime)
    (haddr : r.serverAddr = r'.serverAddr) (hcounters : r.counters = r'.counters) : r = r' := by
  obtain ⟨_, _, _, _⟩ := r
  obtain ⟨_, _, _, _⟩ := r'
  obtain rfl := hdate
  obtain rfl := haddr
  obtain rfl := hcounters
  rfl

theorem Record.add_comm (r : Record) (key key' : Bytes) :
    (r.add key).add key' = (r.add key').add key := by
  rcases eq_or_ne key key' with rfl | hne
  · rfl
  · refine Record.ext rfl rfl (Std.ExtTreeMap.ext_getElem? fun a ↦ ?_)
    simp only [Record.add, Record.count, Dict.getElem?_insert, Dict.getD_insert, if_neg hne,
      if_neg hne.symm]
    grind

/-- The counters a line adds to. -/
def Entry.keys (src : Bytes) (e : Entry) : List Bytes :=
  [src, lit "sum"] ++ if e.isError then [lit "err"] else if e.isHit then [lit "detect"] else []

theorem Record.note_eq (r : Record) (src : Bytes) (e : Entry) :
    r.note src e = (e.keys src).foldl Record.add r := by
  rw [Record.note, Entry.keys]
  cases e.isError <;> cases e.isHit <;> rfl

theorem Record.note_comm (r : Record) (src src' : Bytes) (e e' : Entry) :
    (r.note src e).note src' e' = (r.note src' e').note src e := by
  have : RightCommutative Record.add := ⟨Record.add_comm⟩
  rw [note_eq, note_eq, note_eq, note_eq, ← List.foldl_append, ← List.foldl_append]
  exact List.perm_append_comm.foldl_eq _

/-- **Lines can be counted in any order.** -/
theorem tally_comm (localSrvAddr : Bytes) (startDt : DateTime) (c : Counts) (e e' : Entry) :
    tally localSrvAddr startDt (tally localSrvAddr startDt c e) e'
      = tally localSrvAddr startDt (tally localSrvAddr startDt c e') e := by
  simp only [tally]
  congr 1
  · rcases e.named with _ | ⟨plugin, src⟩ <;> rcases e'.named with _ | ⟨plugin', src'⟩ <;>
      try rfl
    refine Std.ExtTreeMap.ext_getElem? fun a ↦ ?_
    simp only [Dict.getElem?_insert, Dict.getD_insert]
    rcases eq_or_ne plugin plugin' with rfl | hne
    · simp only [if_true, Record.note_comm _ src src' e e']
      grind
    · simp only [if_neg hne, if_neg hne.symm]
      grind
  · split <;> split <;> rfl

/-- A window can be counted in any order that begins at the same time. -/
theorem countWindow_rearranged (localSrvAddr : Bytes) {w w' : List Entry}
    (h : Rearranged Entry.dt w w') : countWindow localSrvAddr w = countWindow localSrvAddr w' := by
  rcases w with _ | ⟨e, w⟩ <;> rcases w' with _ | ⟨e', w'⟩
  · rfl
  · exact absurd h.perm.length_eq (by simp)
  · exact absurd h.perm.length_eq (by simp)
  · have : RightCommutative (tally localSrvAddr e'.dt) := ⟨tally_comm localSrvAddr e'.dt⟩
    rw [countWindow, countWindow, (List.cons.inj h.map).1]
    exact h.perm.foldl_eq _

theorem lastWindow_rearranged {w w' : List Entry} (h : Rearranged Entry.dt w w') :
    List.Forall₂ (Rearranged Entry.dt) (lastWindow none w) (lastWindow none w') := by
  have hnames : namesPlugin w = namesPlugin w' := h.perm.any_eq
  rw [lastWindow, keepIf, keepIf, hnames]
  split
  · exact .cons h .nil
  · exact .nil

/-! ## Lines and their places -/

/-- The line raises no exception. -/
def Quiet (line : Bytes) : Prop := ∀ r, readLine line = some r → ∃ e, r = .ok e ∧ e.fault = none

/-- A run raises no exception exactly if no line does. -/
theorem seen_raised_iff {lines : List Bytes} :
    (seen lines).2 = none ↔ ∀ line ∈ lines, Quiet line := by
  induction lines with
  | nil => simp [seen]
  | cons line lines ih =>
    rw [List.forall_mem_cons, ← ih, Quiet]
    rcases hline : readLine line with _ | (err | entry)
    · rw [seen_cons_skip hline]
      simp
    · rw [seen_cons_error hline]
      simp
    · rcases hf : entry.fault with _ | err
      · rw [seen_cons_ok hline hf]
        simp [hf]
      · rw [seen_cons_fault hline hf]
        simp [hf]

/-- The time a line carries; lines that do not match carry none. -/
def timeOf (line : Bytes) : Option DateTime := (entryOf line).map Entry.dt

theorem map_dt_entriesOf (lines : List Bytes) :
    (entriesOf lines).map Entry.dt = (lines.map timeOf).filterMap id := by
  rw [entriesOf, List.map_filterMap, List.filterMap_map]
  rfl

variable (localSrvAddr : Bytes) (stepSeconds : ℤ)

/-- How often `insert_db` has been called when the loop is done with a line. -/
def windowOf (lines : List Bytes) (i : ℕ) : ℕ :=
  (logLoop localSrvAddr stepSeconds .init (lines.take (i + 1))).1.inserted.length

/-- The time a line carries, and its window. -/
def placeOf (lines : List Bytes) (i : ℕ) : Option (DateTime × ℕ) :=
  (lines[i]?.bind timeOf).map fun dt ↦ (dt, windowOf localSrvAddr stepSeconds lines i)

/-- The lines in another order. -/
def permute (lines : List Bytes) (σ : Equiv.Perm (Fin lines.length)) : List Bytes :=
  List.ofFn fun i ↦ lines[σ i]

/-- The rows of a run, call by call. -/
def Run.flushes (run : Run) : List (Finset Query) := run.inserted.map fun c ↦ (insertDb c).toFinset

variable {localSrvAddr stepSeconds} {lines : List Bytes}

theorem windowOf_eq (hstep : 1 ≤ stepSeconds) (hok : ∀ line ∈ lines, Quiet line) (i : ℕ) :
    windowOf localSrvAddr stepSeconds lines i
      = closed (closesAt stepSeconds) (entriesOf (lines.take (i + 1))) := by
  have htake : (seen (lines.take (i + 1))).2 = none :=
    seen_raised_iff.mpr fun line hline ↦ hok line (List.mem_of_mem_take hline)
  rw [windowOf, (logLoop_spec _ _ _).2.2, List.length_map, cutWindows_eq hstep,
    length_windows_discard, (seen_eq htake).1]

/-- A line, with its window. -/
def placed (localSrvAddr : Bytes) (stepSeconds : ℤ) (lines : List Bytes) (i : ℕ) :
    Option (ℕ × Entry) :=
  (lines[i]?.bind entryOf).map fun e ↦ (windowOf localSrvAddr stepSeconds lines i, e)

/-- The windows of the run are the windows of the lines. -/
theorem numbered_entriesOf (localSrvAddr : Bytes) (hstep : 1 ≤ stepSeconds)
    (hok : ∀ line ∈ lines, Quiet line) :
    numbered (closesAt stepSeconds) (entriesOf lines)
      = (List.range lines.length).filterMap (placed localSrvAddr stepSeconds lines) := by
  induction lines using List.reverseRecOn with
  | nil => rfl
  | append_singleton lines line ih =>
    have hbefore : ∀ i ∈ List.range lines.length,
        placed localSrvAddr stepSeconds (lines ++ [line]) i
          = placed localSrvAddr stepSeconds lines i := by
      intro i hi
      have hlt := List.mem_range.mp hi
      rw [placed, placed, windowOf, windowOf, List.getElem?_append_left hlt,
        List.take_append_of_le_length (by omega)]
    have hlast : placed localSrvAddr stepSeconds (lines ++ [line]) lines.length
        = (entryOf line).map fun e ↦
          (closed (closesAt stepSeconds) (entriesOf (lines ++ [line])), e) := by
      rw [placed, windowOf_eq hstep hok, List.getElem?_concat_length,
        List.take_of_length_le (by simp)]
      rfl
    rw [List.length_append, List.length_singleton, List.range_succ, List.filterMap_append,
      List.filterMap_congr hbefore,
      ← ih fun l hl ↦ hok l (List.mem_append_left _ hl), List.filterMap_cons, hlast]
    rw [entriesOf_append]
    rcases he : entryOf line with _ | e
    · simp [entriesOf, he]
    · simp [entriesOf, he, numbered_concat]

/-! ## Times that never go back -/

/-- Between two lines of the same time no window is closed. -/
theorem closed_of_same_time (hstep : 1 ≤ stepSeconds) {a b c : List Bytes} {line line' : Bytes}
    {dt : DateTime} (hchron : Chronological (a ++ line :: (b ++ line' :: c)))
    (hline : timeOf line = some dt) (hline' : timeOf line' = some dt) :
    closed (closesAt stepSeconds) (entriesOf (a ++ line :: (b ++ [line'])))
      = closed (closesAt stepSeconds) (entriesOf (a ++ [line])) := by
  obtain ⟨e, he, hdt⟩ := Option.map_eq_some_iff.mp hline
  obtain ⟨e', he', hdt'⟩ := Option.map_eq_some_iff.mp hline'
  rw [Chronological, entriesOf_append, entriesOf_cons_some he, entriesOf_append,
    entriesOf_cons_some he', List.pairwise_append, List.pairwise_cons, List.pairwise_append]
    at hchron
  obtain ⟨-, ⟨hafter, -, -, hbefore⟩, -⟩ := hchron
  rw [entriesOf_append, entriesOf_append, entriesOf_cons_some he, entriesOf_cons_some he,
    entriesOf_append, entriesOf_cons_some he']
  refine closed_append_of_same (closesAt_self hstep e) (fun y hy head ↦ ?_) _
  -- the lines between are no earlier and no later
  have htime : y.dt.toSeconds = e.dt.toSeconds := by
    rcases List.mem_append.mp hy with hmem | hmem
    · have hle := hafter y (List.mem_append_left _ hmem)
      have hge := hbefore y hmem e' List.mem_cons_self
      rw [hdt'] at hge
      rw [hdt] at hle ⊢
      omega
    · obtain rfl := List.mem_singleton.mp hmem
      rw [hdt, hdt']
  rw [closesAt, closesAt, closes, closes, DateTime.secondsSince, DateTime.secondsSince,
    DateTime.since, DateTime.since, htime]

theorem windowOf_eq_of_lt (hstep : 1 ≤ stepSeconds) (hok : ∀ line ∈ lines, Quiet line)
    (hchron : Chronological lines) {i j : Fin lines.length} (hij : i < j) {dt : DateTime}
    (hi : timeOf lines[i] = some dt) (hj : timeOf lines[j] = some dt) :
    windowOf localSrvAddr stepSeconds lines j = windowOf localSrvAddr stepSeconds lines i := by
  obtain ⟨b, c, hlines, htake⟩ := exists_eq_append_of_lt hij j.isLt
  rw [hlines] at hchron
  rw [windowOf_eq hstep hok, windowOf_eq hstep hok, htake,
    List.take_succ_eq_append_getElem i.isLt]
  exact closed_of_same_time hstep hchron hi hj

/-- **Lines of the same time are in the same window** if the times never go back. -/
theorem windowOf_eq_of_chronological (hstep : 1 ≤ stepSeconds)
    (hok : ∀ line ∈ lines, Quiet line) (hchron : Chronological lines) {i j : Fin lines.length}
    {dt : DateTime} (hi : timeOf lines[i] = some dt) (hj : timeOf lines[j] = some dt) :
    windowOf localSrvAddr stepSeconds lines i = windowOf localSrvAddr stepSeconds lines j := by
  rcases lt_trichotomy i j with h | rfl | h
  · exact (windowOf_eq_of_lt hstep hok hchron h hi hj).symm
  · rfl
  · exact windowOf_eq_of_lt hstep hok hchron h hj hi

/-! ## Exchanging lines -/

section Permute

variable {σ : Equiv.Perm (Fin lines.length)}

theorem getElem?_permute (i : Fin lines.length) : (permute lines σ)[i.val]? = some lines[σ i] := by
  rw [permute, List.getElem?_ofFn, dif_pos i.isLt]

theorem quiet_permute (hok : ∀ line ∈ lines, Quiet line) :
    ∀ line ∈ permute lines σ, Quiet line := by
  intro line hline
  obtain ⟨i, rfl⟩ := List.mem_ofFn.mp hline
  exact hok _ (List.getElem_mem _)

/-- Exchanging lines of the same time does not show in the times. -/
theorem map_timeOf_permute (hσ : ∀ i, timeOf lines[σ i] = timeOf lines[i]) :
    (permute lines σ).map timeOf = lines.map timeOf := by
  have hself : (List.ofFn fun i : Fin lines.length ↦ lines[i]) = lines := List.ofFn_getElem ..
  calc (permute lines σ).map timeOf
      = List.ofFn fun i ↦ timeOf lines[σ i] := List.map_ofFn ..
    _ = List.ofFn fun i : Fin lines.length ↦ timeOf lines[i] := congrArg List.ofFn (funext hσ)
    _ = (List.ofFn fun i : Fin lines.length ↦ lines[i]).map timeOf := by
        rw [List.map_ofFn]
        rfl
    _ = lines.map timeOf := by rw [hself]

/-- Nor does it show in where the windows are cut. -/
theorem windowOf_permute (hstep : 1 ≤ stepSeconds) (hok : ∀ line ∈ lines, Quiet line)
    (hσ : ∀ i, timeOf lines[σ i] = timeOf lines[i]) (i : ℕ) :
    windowOf localSrvAddr stepSeconds (permute lines σ) i
      = windowOf localSrvAddr stepSeconds lines i := by
  have htimes : ∀ l : List Bytes, closed (closesAt stepSeconds) (entriesOf l)
      = closed (closes stepSeconds) ((l.map timeOf).filterMap id) := by
    intro l
    rw [← map_dt_entriesOf]
    exact closed_map (t := Entry.dt) (c := closes stepSeconds) (fun _ _ ↦ rfl) _
  rw [windowOf_eq hstep (quiet_permute hok), windowOf_eq hstep hok, htimes, htimes, List.map_take,
    List.map_take, map_timeOf_permute hσ]

theorem timeOf_of_placeOf
    (hσ : ∀ i : Fin lines.length, placeOf localSrvAddr stepSeconds lines (σ i)
      = placeOf localSrvAddr stepSeconds lines i) (i : Fin lines.length) :
    timeOf lines[σ i] = timeOf lines[i] := by
  have h := congrArg (Option.map Prod.fst) (hσ i)
  simpa [placeOf, Option.map_map, Function.comp_def] using h

/-- Lines that are exchanged within a window stay in it. -/
theorem placed_permute (hstep : 1 ≤ stepSeconds) (hok : ∀ line ∈ lines, Quiet line)
    (hσ : ∀ i : Fin lines.length, placeOf localSrvAddr stepSeconds lines (σ i)
      = placeOf localSrvAddr stepSeconds lines i) (i : Fin lines.length) :
    placed localSrvAddr stepSeconds (permute lines σ) i
      = placed localSrvAddr stepSeconds lines (σ i) := by
  have hplace := hσ i
  rw [placeOf, placeOf, List.getElem?_eq_getElem (σ i).isLt, List.getElem?_eq_getElem i.isLt]
    at hplace
  rw [placed, placed, getElem?_permute, windowOf_permute hstep hok (timeOf_of_placeOf hσ),
    List.getElem?_eq_getElem (σ i).isLt]
  show (entryOf lines[σ i]).map _ = (entryOf lines[σ i]).map _
  rcases hentry : entryOf lines[σ i] with _ | e
  · rfl
  · have htime : timeOf lines[σ i] = some e.dt := by rw [timeOf, hentry]; rfl
    have htime' : timeOf lines[i] = some e.dt := (timeOf_of_placeOf hσ i).symm.trans htime
    change (timeOf lines[σ i]).map _ = (timeOf lines[i]).map _ at hplace
    rw [htime, htime'] at hplace
    have hwindow := (Prod.mk.inj (Option.some.inj hplace)).2
    rw [Option.map_some, Option.map_some, hwindow]

/-- Nor do lines that are exchanged within a window change what is in it. -/
theorem numbered_permute (hstep : 1 ≤ stepSeconds) (hok : ∀ line ∈ lines, Quiet line)
    (hσ : ∀ i : Fin lines.length, placeOf localSrvAddr stepSeconds lines (σ i)
      = placeOf localSrvAddr stepSeconds lines i) :
    (numbered (closesAt stepSeconds) (entriesOf (permute lines σ))).Perm
      (numbered (closesAt stepSeconds) (entriesOf lines)) := by
  have hlength : (permute lines σ).length = lines.length := List.length_ofFn
  have hbefore : numbered (closesAt stepSeconds) (entriesOf (permute lines σ))
      = ((List.finRange lines.length).map σ).filterMap
          fun i : Fin lines.length ↦ placed localSrvAddr stepSeconds lines i := by
    rw [numbered_entriesOf localSrvAddr hstep (quiet_permute hok), hlength,
      ← List.map_coe_finRange_eq_range, List.filterMap_map, List.filterMap_map]
    exact List.filterMap_congr fun i _ ↦ placed_permute hstep hok hσ i
  have hafter : numbered (closesAt stepSeconds) (entriesOf lines)
      = (List.finRange lines.length).filterMap
          fun i : Fin lines.length ↦ placed localSrvAddr stepSeconds lines i := by
    rw [numbered_entriesOf localSrvAddr hstep hok, ← List.map_coe_finRange_eq_range,
      List.filterMap_map]
    rfl
  rw [hbefore, hafter]
  exact σ.map_finRange_perm.filterMap _

/-- **Lines of the same time can be exchanged as long as each stays in its window.** -/
theorem inserted_permute (hstep : 1 ≤ stepSeconds)
    (hok : (logStatics localSrvAddr stepSeconds lines).raised = none)
    (hσ : ∀ i : Fin lines.length, placeOf localSrvAddr stepSeconds lines (σ i)
      = placeOf localSrvAddr stepSeconds lines i) :
    (logStatics localSrvAddr stepSeconds (permute lines σ)).inserted
      = (logStatics localSrvAddr stepSeconds lines).inserted := by
  rw [logStatics_eq] at hok
  change (seen lines).2 = none at hok
  have hquiet := seen_raised_iff.mp hok
  have hok' : (seen (permute lines σ)).2 = none := seen_raised_iff.mpr (quiet_permute hquiet)
  have htimes : (entriesOf (permute lines σ)).map Entry.dt = (entriesOf lines).map Entry.dt := by
    rw [map_dt_entriesOf, map_dt_entriesOf, map_timeOf_permute (timeOf_of_placeOf hσ)]
  have hwindows := windows_rearranged (c := closes stepSeconds) (fun _ _ ↦ rfl) htimes
    (numbered_permute hstep hquiet hσ) fun _ _ ↦ lastWindow_rearranged
  rw [logStatics_eq, logStatics_eq, windowsOf, windowsOf, cutWindows_eq hstep, cutWindows_eq hstep,
    hok, hok', (seen_eq hok).1, (seen_eq hok').1]
  exact map_eq_map_iff_forall₂.mpr
    (hwindows.imp fun _ _ ↦ countWindow_rearranged localSrvAddr)

/-- In a log whose times never go back, exchanging lines of the same time keeps them in their
windows. -/
theorem placeOf_of_chronological (hstep : 1 ≤ stepSeconds)
    (hok : (logStatics localSrvAddr stepSeconds lines).raised = none)
    (hchron : Chronological lines) (hσ : ∀ i, timeOf lines[σ i] = timeOf lines[i])
    (i : Fin lines.length) :
    placeOf localSrvAddr stepSeconds lines (σ i) = placeOf localSrvAddr stepSeconds lines i := by
  rw [logStatics_eq] at hok
  have hquiet := seen_raised_iff.mp hok
  rw [placeOf, placeOf, List.getElem?_eq_getElem (σ i).isLt, List.getElem?_eq_getElem i.isLt]
  change (timeOf lines[σ i]).map _ = (timeOf lines[i]).map _
  rcases htime : timeOf lines[i] with _ | dt
  · rw [hσ, htime]
    rfl
  · rw [(hσ i).trans htime, Option.map_some, Option.map_some,
      windowOf_eq_of_chronological hstep hquiet hchron ((hσ i).trans htime) htime]

end Permute

/-! ## The rows -/

variable (localSrvAddr stepSeconds lines) in
/-- The order of lines of the same time makes no difference to the rows, call by call. -/
structure OrderFree : Prop where
  /-- Lines of the same time can be exchanged if they are in the same window. -/
  sameWindow : ∀ σ : Equiv.Perm (Fin lines.length),
    (∀ i : Fin lines.length,
      placeOf localSrvAddr stepSeconds lines (σ i) = placeOf localSrvAddr stepSeconds lines i) →
    (logStatics localSrvAddr stepSeconds (permute lines σ)).flushes
      = (logStatics localSrvAddr stepSeconds lines).flushes
  /-- Wherever they are, they can be exchanged if the times never go back. -/
  chronological : Chronological lines → ∀ σ : Equiv.Perm (Fin lines.length),
    (∀ i, timeOf lines[σ i] = timeOf lines[i]) →
    (logStatics localSrvAddr stepSeconds (permute lines σ)).flushes
      = (logStatics localSrvAddr stepSeconds lines).flushes

/-- **The order of lines of the same time makes no difference within a window**, and none at all if
the times never go back. -/
theorem orderFree (localSrvAddr : Bytes) (hstep : 1 ≤ stepSeconds)
    (hok : (logStatics localSrvAddr stepSeconds lines).raised = none) :
    OrderFree localSrvAddr stepSeconds lines := by
  refine ⟨fun σ hσ ↦ ?_, fun hchron σ hσ ↦ ?_⟩
  · rw [Run.flushes, Run.flushes, inserted_permute hstep hok hσ]
  · have hplace := placeOf_of_chronological hstep hok hchron hσ
    rw [Run.flushes, Run.flushes, inserted_permute hstep hok hplace]

/-- Two lines of the same time. -/
theorem orderFree_twoLines :
    OrderFree (lit "a") 600 [sampleLine "10:25:00" "0" "plugin=face&src=pull",
      sampleLine "10:25:00" "0" "r"] :=
  orderFree (lit "a") (by decide) (by simp only [sampleLine_eq]; decide +kernel)

/-- Two lines of the same time, and one of a later time between them: each is in a window of its
own. -/
theorem not_orderFree_later :
    ∃ (lines : List Bytes) (σ : Equiv.Perm (Fin lines.length)),
      (logStatics (lit "a") 600 lines).raised = none ∧
      (∀ i, timeOf lines[σ i] = timeOf lines[i]) ∧
      (logStatics (lit "a") 600 (permute lines σ)).flushes
        ≠ (logStatics (lit "a") 600 lines).flushes :=
  ⟨[sampleLine "10:25:00" "0" "plugin=face&src=pull",
      sampleLine "10:45:00" "0" "plugin=face&src=pull",
      sampleLine "10:25:00" "0" "plugin=x&src=pull"],
    Equiv.swap ⟨0, by decide⟩ ⟨2, by decide⟩, by simp only [sampleLine_eq]; decide +kernel,
    by decide +kernel, by decide +kernel⟩

end ImgPredictor
