import Mathlib.Data.List.Infix
import ImgPredictor.Statics.Servers

/-!
# Runs that are cut off, and runs that are repeated

The script keeps no account of what it has inserted.  If it is killed, or stops at a line it cannot
read, all one can do is run it again over the log, and it sends the same rows again.  The unique
keys refuse those that are there.

* `exactlyOnce_iff` — runs that are killed at any point and repeated any number of times leave what
  one run of every server would have left, exactly if the servers are apart.
* `upToDate_iff` — a run over a log that has grown since the last run brings the tables up to date
  exactly if no new line falls into the window that was open at the end.
* `redone_iff` — the same holds of a run over a log from which the line that stopped the others was
  taken out.
-/

set_option autoImplicit false

namespace ImgPredictor

open Bytes Lists UniqueKey

/-! ## Runs that are killed -/

variable {ι κ : Type}

/-- A run at a server, which is killed when so many queries have been sent. -/
structure Attempt (ι : Type) where
  /-- The server. -/
  server : ι
  /-- How many queries it gets to send, if it has as many. -/
  sent : ℕ

namespace Attempt

/-- The queries that are sent. -/
def issued (servers : ι → Server) (a : Attempt ι) : List Query :=
  (servers a.server).queries.take a.sent

/-- The run is not killed, or all is sent by then. -/
def Complete (servers : ι → Server) (a : Attempt ι) : Prop :=
  (servers a.server).queries.length ≤ a.sent

end Attempt

/-- Every row of every server is in its table, once, and nothing else is.  What is refused is
there. -/
structure ExactlyOnce (servers : ι → Server) (inserts : List Query) : Prop where
  /-- The rows of the servers. -/
  rows : ∀ q, q ∈ ((Table.empty : Database).insertAll inserts).1.rows ↔
    ∃ i, q ∈ (servers i).queries
  /-- Once. -/
  nodup : ((Table.empty : Database).insertAll inserts).1.rows.Nodup
  /-- The rows that are refused. -/
  refused : ∀ q ∈ ((Table.empty : Database).insertAll inserts).2,
    q ∈ ((Table.empty : Database).insertAll inserts).1.rows

/-- Wherever in the log a run is killed, the queries it has sent are the first of those it would
have. -/
theorem inserted_take_isPrefix (localSrvAddr : Bytes) (stepSeconds : ℤ) (lines : List Bytes)
    (n : ℕ) :
    (logLoop localSrvAddr stepSeconds .init (lines.take n)).1.inserted.flatMap insertDb
      <+: (logStatics localSrvAddr stepSeconds lines).queries := by
  have hseen : (seen (lines.take n)).1 <+: (seen lines).1 := by
    have hcut := List.take_append_drop n lines
    by_cases hraised : (seen (lines.take n)).2 = none
    · rw [← hcut, seen_append hraised, hcut]
      exact List.prefix_append _ _
    · rw [← hcut, seen_append_of_raised hraised, hcut]
  obtain ⟨rest, hrest⟩ := hseen
  rw [(logLoop_spec _ _ _).2.2, logStatics_eq, Run.queries, windowsOf, ← hrest]
  cases (seen (lines.take n)).1 with
  | nil => exact List.nil_prefix
  | cons e es =>
    rw [List.cons_append, cutWindows, cutWindows, ← List.cons_append, windowsFrom_append,
      List.map_append, List.flatMap_append]
    exact List.prefix_append _ _

/-! ## The servers -/

/-- `server_addr` -/
def Query.serverAddr : Query → Bytes
  | .log _ serverAddr .. => serverAddr
  | .http serverAddr .. => serverAddr

theorem serverAddr_insertDb {localSrvAddr : Bytes} {c : Counts} {startDt : DateTime}
    (hc : c.Stamped localSrvAddr startDt) : ∀ q ∈ insertDb c, q.serverAddr = localSrvAddr := by
  intro q hq
  rw [insertDb, List.mem_append] at hq
  rcases hq with hq | hq
  · obtain ⟨p, hp, rfl⟩ := List.mem_map.mp hq
    exact (hc.of_mem hp).2
  · rcases hl : c.res.toList.getLast? with _ | p
    · rw [hl] at hq
      exact absurd hq (by simp)
    · rw [hl, List.mem_singleton] at hq
      subst hq
      exact (hc.of_mem (List.mem_of_getLast? hl)).2

/-- The rows of a server carry its address. -/
theorem serverAddr_of_mem_queries {s : Server} {q : Query} (hq : q ∈ s.queries) :
    q.serverAddr = s.localSrvAddr := by
  rw [Server.queries, logStatics_eq, Run.queries, List.flatMap_map, List.mem_flatMap] at hq
  obtain ⟨w, hw, hmem⟩ := hq
  obtain ⟨head, tail, rfl, hstamp⟩ := stamped_of_mem s.localSrvAddr s.step hw
  exact serverAddr_insertDb hstamp q hmem

/-- Rows of a run with the same key are the same. -/
theorem eq_of_key_eq {s : Server} {q q' : Query} (hq : q ∈ s.queries) (hq' : q' ∈ s.queries)
    (hkey : q.key = q'.key) : q = q' :=
  List.inj_on_of_nodup_map (nodup_keys_queries s) hq hq' hkey

/-- If the servers are apart, a key tells the server. -/
theorem server_eq_of_key_eq {servers : ι → Server}
    (hdistinct : Function.Injective fun i ↦ (servers i).localSrvAddr) (hapart : Apart servers)
    {i j : ι} {q q' : Query} (hq : q ∈ (servers i).queries) (hq' : q' ∈ (servers j).queries)
    (hkey : q.key = q'.key) : i = j := by
  by_contra hij
  have hmem := List.mem_map_of_mem (f := Query.key) hq
  have hmem' := List.mem_map_of_mem (f := Query.key) hq'
  rw [← hkey] at hmem'
  rcases hk : q.key with ⟨plugin, dateTime⟩ | ⟨serverAddr, dateTime⟩
  · rw [hk] at hmem hmem'
    obtain ⟨start, hreports, rfl⟩ := pluginDt_mem_queries.mp hmem
    obtain ⟨start', hreports', hsame⟩ := pluginDt_mem_queries.mp hmem'
    obtain rfl := DateTime.str_inj hsame
    exact hapart i j hij start' plugin ⟨hreports, hreports'⟩
  · rw [hk] at hmem hmem'
    exact hij (hdistinct ((serDt_mem_queries hmem).symm.trans (serDt_mem_queries hmem')))

section Attempts

variable [DecidableEq κ] {servers : ι → Server} {attempts : κ → Attempt ι}

/-- What is sent in the end are the rows of the servers. -/
theorem mem_inserts_iff
    (hdone : ∀ i, ∃ k, (attempts k).server = i ∧ (attempts k).Complete servers)
    {inserts : List (κ × Query)}
    (hinserts : Interleaving (fun k ↦ (attempts k).issued servers) inserts) {q : Query} :
    q ∈ inserts.map Prod.snd ↔ ∃ i, q ∈ (servers i).queries := by
  constructor
  · intro hq
    obtain ⟨⟨k, q⟩, hmem, rfl⟩ := List.mem_map.mp hq
    have hissued := mem_partOf.mpr hmem
    rw [hinserts k] at hissued
    exact ⟨_, List.mem_of_mem_take hissued⟩
  · rintro ⟨i, hq⟩
    obtain ⟨k, rfl, hcomplete⟩ := hdone i
    have hall : partOf k inserts = (servers (attempts k).server).queries :=
      (hinserts k).trans (List.take_of_length_le hcomplete)
    have hissued : q ∈ partOf k inserts := by rwa [hall]
    exact List.mem_map.mpr ⟨(k, q), mem_partOf.mp hissued, rfl⟩

/-- **Runs may be killed at any point and repeated any number of times, in any order**: the tables
end up with every row once, exactly if the servers are apart. -/
theorem exactlyOnce_iff (hdistinct : Function.Injective fun i ↦ (servers i).localSrvAddr)
    (hdone : ∀ i, ∃ k, (attempts k).server = i ∧ (attempts k).Complete servers)
    {inserts : List (κ × Query)}
    (hinserts : Interleaving (fun k ↦ (attempts k).issued servers) inserts) :
    ExactlyOnce servers (inserts.map Prod.snd) ↔ Apart servers := by
  have hsent := @mem_inserts_iff _ _ _ _ _ hdone _ hinserts
  constructor
  · rintro h i j hij start plugin ⟨hi, hj⟩
    obtain ⟨q, hq, hkey⟩ := List.mem_map.mp (pluginDt_mem_queries.mpr ⟨start, hi, rfl⟩)
    obtain ⟨q', hq', hkey'⟩ := List.mem_map.mp (pluginDt_mem_queries.mpr ⟨start, hj, rfl⟩)
    -- both are in the table, so they are the same row
    have hsame : q = q' := List.inj_on_of_nodup_map (Table.unique _) ((h.rows q).mpr ⟨i, hq⟩)
      ((h.rows q').mpr ⟨j, hq'⟩) (hkey.trans hkey'.symm)
    subst hsame
    exact hij (hdistinct
      ((serverAddr_of_mem_queries hq).symm.trans (serverAddr_of_mem_queries hq')))
  · intro hapart
    have hinj : ∀ q ∈ inserts.map Prod.snd, ∀ q' ∈ inserts.map Prod.snd,
        q.key = q'.key → q = q' := by
      intro q hq q' hq' hkey
      obtain ⟨i, hi⟩ := hsent.mp hq
      obtain ⟨j, hj⟩ := hsent.mp hq'
      obtain rfl := server_eq_of_key_eq hdistinct hapart hi hj hkey
      exact eq_of_key_eq hi hj hkey
    have hrows : ∀ q, q ∈ ((Table.empty : Database).insertAll (inserts.map Prod.snd)).1.rows ↔
        q ∈ inserts.map Prod.snd := fun q ↦
      Table.mem_rows_insertAll_iff (t := Table.empty) (by simpa [Table.empty] using hinj)
    refine ⟨fun q ↦ (hrows q).trans hsent, .of_map _ (Table.unique _), fun q hq ↦ ?_⟩
    exact (hrows q).mpr (Table.key_mem_of_refused hq).1

end Attempts

/-- Two servers with requests a second apart. -/
theorem apart_secondApart : Apart (sampleServers (sampleLine "10:25:00" "0" "plugin=face&src=pull")
    (sampleLine "10:25:01" "0" "plugin=face&src=pull")) := by
  have htrue : ∀ w ∈ windowsOf 600 [sampleLine "10:25:00" "0" "plugin=face&src=pull"],
      w.head?.map Entry.dt = some (sampleTime 10 25 0) := by
    simp only [sampleLine_eq]
    decide +kernel
  have hfalse : ∀ w ∈ windowsOf 600 [sampleLine "10:25:01" "0" "plugin=face&src=pull"],
      w.head?.map Entry.dt = some (sampleTime 10 25 1) := by
    simp only [sampleLine_eq]
    decide +kernel
  have hne : some (sampleTime 10 25 0) ≠ some (sampleTime 10 25 1) := by decide +kernel
  rintro i j hij start plugin ⟨⟨w, hw, hs, -⟩, ⟨w', hw', hs', -⟩⟩
  cases i <;> cases j
  · exact hij rfl
  · exact hne ((htrue w' hw').symm.trans (hs'.trans (hs.symm.trans (hfalse w hw))))
  · exact hne ((htrue w hw).symm.trans (hs.trans (hs'.symm.trans (hfalse w' hw'))))
  · exact hij rfl

/-- A run is killed after its first query and repeated, while the other server runs. -/
theorem exactlyOnce_killed :
    ExactlyOnce (sampleServers (sampleLine "10:25:00" "0" "plugin=face&src=pull")
        (sampleLine "10:25:01" "0" "plugin=face&src=pull"))
      [.log (lit "face") (lit "a") 0 1 0 1 0 (lit "2016-03-08 10:25:00"),
        .log (lit "face") (lit "b") 0 1 0 1 0 (lit "2016-03-08 10:25:01"),
        .log (lit "face") (lit "a") 0 1 0 1 0 (lit "2016-03-08 10:25:00"),
        .http (lit "b") 1 0 (lit "2016-03-08 10:25:01"),
        .http (lit "a") 1 0 (lit "2016-03-08 10:25:00")] := by
  let attempts : Fin 3 → Attempt Bool := fun k ↦ [⟨true, 1⟩, ⟨true, 2⟩, ⟨false, 2⟩].get k
  let inserts : List (Fin 3 × Query) := [
    (0, .log (lit "face") (lit "a") 0 1 0 1 0 (lit "2016-03-08 10:25:00")),
    (2, .log (lit "face") (lit "b") 0 1 0 1 0 (lit "2016-03-08 10:25:01")),
    (1, .log (lit "face") (lit "a") 0 1 0 1 0 (lit "2016-03-08 10:25:00")),
    (2, .http (lit "b") 1 0 (lit "2016-03-08 10:25:01")),
    (1, .http (lit "a") 1 0 (lit "2016-03-08 10:25:00"))]
  let servers := sampleServers (sampleLine "10:25:00" "0" "plugin=face&src=pull")
    (sampleLine "10:25:01" "0" "plugin=face&src=pull")
  have hdone : ∀ i, ∃ k, (attempts k).server = i ∧ (attempts k).Complete servers := by
    unfold Attempt.Complete
    decide +kernel
  have hinserts : Interleaving (fun k ↦ (attempts k).issued servers) inserts := by
    unfold Interleaving
    decide +kernel
  exact (exactlyOnce_iff (sampleServers_injective _ _) hdone hinserts).mpr apart_secondApart

/-! ## The tables after an earlier run -/

/-- After what earlier runs have sent, the queries of a run bring the tables up to date: they have
its rows, and no others. -/
def UpToDate (earlier queries : List Query) : Prop :=
  ∀ q, q ∈ ((Table.empty : Database).insertAll (earlier ++ queries)).1.rows ↔ q ∈ queries

theorem upToDate_of_subset {earlier queries : List Query} (hsub : earlier ⊆ queries)
    (hkeys : (queries.map Query.key).Nodup) : UpToDate earlier queries := by
  have hall : ∀ q, q ∈ earlier ++ queries ↔ q ∈ queries := fun q ↦ by
    rw [List.mem_append]
    exact or_iff_right_of_imp fun h ↦ hsub h
  intro q
  rw [Table.mem_rows_insertAll_iff, Table.empty, List.nil_append, hall]
  intro q hq q' hq' hkey
  rw [Table.empty, List.nil_append, hall] at hq hq'
  exact List.inj_on_of_nodup_map hkeys hq hq' hkey

/-- What the earlier runs have sent stays there. -/
theorem mem_rows_of_earlier {earlier queries : List Query}
    (hkeys : (earlier.map Query.key).Nodup) {q : Query} (hq : q ∈ earlier) :
    q ∈ ((Table.empty : Database).insertAll (earlier ++ queries)).1.rows := by
  have hfirst := Table.mem_rows_iff.mp (show q ∈ (⟨earlier, hkeys⟩ : Database).rows from hq)
  rw [Table.mem_rows_iff, Table.find_insertAll, Table.empty, List.nil_append, List.find?_append]
  change earlier.find? (fun r ↦ r.key = q.key) = some q at hfirst
  rw [hfirst, Option.some_or]

/-! ## The open window -/

variable {localSrvAddr : Bytes} {stepSeconds : ℤ}

/-- The rows of some windows. -/
def rowsOf (localSrvAddr : Bytes) (ws : List (List Entry)) : List Query :=
  (ws.map (countWindow localSrvAddr)).flatMap insertDb

theorem rowsOf_append (ws ws' : List (List Entry)) :
    rowsOf localSrvAddr (ws ++ ws') = rowsOf localSrvAddr ws ++ rowsOf localSrvAddr ws' := by
  rw [rowsOf, List.map_append, List.flatMap_append, rowsOf, rowsOf]

/-- A window that names no plugin has no rows. -/
theorem rowsOf_unnamed {w : List Entry} (h : namesPlugin w = false) :
    rowsOf localSrvAddr [w] = [] := by
  have hsize : ¬ 0 < (countWindow localSrvAddr w).res.size := by
    rw [size_pos_iff_namesPlugin, h]
    exact Bool.false_ne_true
  have hnil : (countWindow localSrvAddr w).res.toList = [] := by
    rw [← List.length_eq_zero_iff, Std.ExtTreeMap.length_toList]
    omega
  rw [rowsOf, List.map_singleton, List.flatMap_singleton, insertDb, hnil]
  rfl

theorem rowsOf_keepIf (w : List Entry) :
    rowsOf localSrvAddr (keepIf namesPlugin w) = rowsOf localSrvAddr [w] := by
  rw [keepIf]
  cases h : namesPlugin w with
  | true => rw [if_pos rfl]
  | false =>
    rw [if_neg Bool.false_ne_true, rowsOf_unnamed h]
    rfl

/-- The row of `imaginx_http_statics` of a window. -/
theorem http_mem_rowsOf {start : Entry} {tail : List Entry}
    (h : namesPlugin (start :: tail) = true) :
    .http localSrvAddr (tail.length + 1) ((start :: tail).countP Entry.isError) start.dt.str
      ∈ rowsOf localSrvAddr [start :: tail] := by
  have hsize := (@size_pos_iff_namesPlugin localSrvAddr _).mpr h
  obtain ⟨hsum, herr⟩ := sum_err_countWindow localSrvAddr (start :: tail)
  rw [← Std.ExtTreeMap.length_toList] at hsize
  rcases hl : (countWindow localSrvAddr (start :: tail)).res.toList.getLast? with _ | p
  · rw [List.getLast?_eq_none_iff.mp hl] at hsize
    exact absurd hsize (Nat.lt_irrefl 0)
  · obtain ⟨hdate, haddr⟩ := (stamped_countWindow start tail).of_mem (List.mem_of_getLast? hl)
    rw [rowsOf, List.map_singleton, List.flatMap_singleton, insertDb, hl, hsum, herr]
    refine List.mem_append_right _ (List.mem_singleton.mpr ?_)
    rw [← hdate, ← haddr]
    rfl

/-- What a run that gets to the end has sent, and what the loop knows then. -/
structure Halfway (localSrvAddr : Bytes) (stepSeconds : ℤ) (lines : List Bytes)
    (closed : List (List Entry)) (head : Entry) (w : List Entry) : Prop where
  /-- The rows are those of the windows that are closed, and of the open one. -/
  queries : (logStatics localSrvAddr stepSeconds lines).queries
    = rowsOf localSrvAddr (closed ++ [w])
  /-- `start_dt` -/
  startDt : (logLoop localSrvAddr stepSeconds .init lines).1.startDt = some head.dt
  /-- The counters. -/
  counts : (logLoop localSrvAddr stepSeconds .init lines).1.counts = countWindow localSrvAddr w
  /-- The open window begins at its head. -/
  begins : w.head? = some head
  /-- How the run goes on. -/
  goesOn : ∀ rest fin, cutWindows stepSeconds fin (entriesOf lines ++ rest)
    = closed ++ windowsFrom (closesAt stepSeconds) fin head w rest

/-- **A run halfway through a log.** -/
theorem exists_halfway (localSrvAddr : Bytes) (hstep : 1 ≤ stepSeconds) {lines : List Bytes}
    (hok : (seen lines).2 = none) (hne : entriesOf lines ≠ []) :
    ∃ closed head w, Halfway localSrvAddr stepSeconds lines closed head w := by
  obtain ⟨x, es, hes⟩ := List.exists_cons_of_ne_nil hne
  have hseen : (seen lines).1 = x :: es := (seen_eq hok).1.trans hes
  have hclose : closesAt stepSeconds x x = false := closesAt_self hstep x
  refine ⟨windowsFrom (closesAt stepSeconds) discard x [x] es,
    headAfter (closesAt stepSeconds) x es, openAfter (closesAt stepSeconds) x [x] es,
    ?_, ?_, ?_, head?_openAfter _ rfl es, fun rest fin ↦ ?_⟩
  · rw [logStatics_eq, Run.queries, windowsOf, cutWindows_eq hstep, hok, hseen, windows,
      windowsFrom_eq, lastWindow, rowsOf_append, ← rowsOf_keepIf, ← rowsOf_append]
    rfl
  · rw [(logLoop_spec _ _ _).2.1, hseen, List.head?_cons, Option.map_some, headAfter, hclose,
      if_neg Bool.false_ne_true]
  · rw [logLoop_init, hseen]
    obtain ⟨counts, hloop, hcounts⟩ :=
      logLoop_eq localSrvAddr stepSeconds x [] [] lines (by simp [hseen])
    rw [countWindow] at hloop
    dsimp only
    rw [hloop, hcounts hok, hseen, openAfter, hclose, if_neg Bool.false_ne_true]
    rfl
  · rw [hes, cutWindows_eq hstep, List.cons_append, windows, windowsFrom_append]

/-- The rows of a run that does not raise. -/
theorem queries_append (localSrvAddr : Bytes) {pre post : List Bytes}
    (hpre : (seen pre).2 = none) (hok : (seen (pre ++ post)).2 = none) :
    (logStatics localSrvAddr stepSeconds (pre ++ post)).queries
      = rowsOf localSrvAddr
          (cutWindows stepSeconds (keepIf namesPlugin) (entriesOf pre ++ entriesOf post)) := by
  have hpost : (seen post).2 = none := by rwa [seen_append hpre] at hok
  rw [logStatics_eq, Run.queries, windowsOf, hok, seen_append hpre, (seen_eq hpre).1,
    (seen_eq hpost).1]
  rfl

theorem nodup_keys_of_chronological (localSrvAddr : Bytes) (hstep : 1 ≤ stepSeconds)
    {lines : List Bytes} (hchron : Chronological lines) :
    ((logStatics localSrvAddr stepSeconds lines).queries.map Query.key).Nodup :=
  nodup_key (nodup_logKeys _ hstep hchron) (nodup_httpKeys _ hstep hchron)

/-! ## A log that has grown -/

variable (localSrvAddr stepSeconds) in
/-- When the run is through with `pre`, no window is open that named a plugin and that the next line
of `post` belongs to. -/
def NothingAdded (pre post : List Bytes) : Prop :=
  ∀ start ∈ (logLoop localSrvAddr stepSeconds .init pre).1.startDt, ∀ e ∈ (entriesOf post).head?,
    closes stepSeconds start e.dt = true ∨
      (logLoop localSrvAddr stepSeconds .init pre).1.counts.res.size = 0

section Grown

variable {pre post : List Bytes}

/-- If nothing is added to the open window, the rows of the first run are the first of those of the
second. -/
theorem queries_isPrefix (hstep : 1 ≤ stepSeconds) (hpre : (seen pre).2 = none)
    (hok : (seen (pre ++ post)).2 = none) (h : NothingAdded localSrvAddr stepSeconds pre post) :
    (logStatics localSrvAddr stepSeconds pre).queries
      <+: (logStatics localSrvAddr stepSeconds (pre ++ post)).queries := by
  by_cases hne : entriesOf pre = []
  · rw [logStatics_eq, Run.queries, windowsOf, (seen_eq hpre).1, hne]
    exact List.nil_prefix
  · obtain ⟨closed, head, w, hhalf⟩ := exists_halfway localSrvAddr hstep hpre hne
    rw [queries_append _ hpre hok, hhalf.goesOn, hhalf.queries, rowsOf_append, rowsOf_append]
    refine List.prefix_append_right_inj _ |>.mpr ?_
    cases hpost : entriesOf post with
    | nil =>
      rw [windowsFrom, rowsOf_keepIf]
    | cons e es =>
      rcases h head.dt hhalf.startDt e (by rw [hpost]; rfl) with hclose | hnone
      · change closesAt stepSeconds head e = true at hclose
        rw [windowsFrom, if_pos hclose]
        show rowsOf localSrvAddr [w] <+: rowsOf localSrvAddr ([w] ++ _)
        rw [rowsOf_append [w]]
        exact List.prefix_append _ _
      · have hunnamed : namesPlugin w = false := by
          rw [hhalf.counts] at hnone
          rw [← Bool.not_eq_true, ← @size_pos_iff_namesPlugin localSrvAddr]
          omega
        rw [rowsOf_unnamed hunnamed]
        exact List.nil_prefix

/-- Otherwise the first run has sent a total that is short of the lines added. -/
theorem not_subset_of_added (hstep : 1 ≤ stepSeconds) (hpre : (seen pre).2 = none)
    (hok : (seen (pre ++ post)).2 = none) (hchron : Chronological (pre ++ post))
    (h : ¬ NothingAdded localSrvAddr stepSeconds pre post) :
    ∃ q ∈ (logStatics localSrvAddr stepSeconds pre).queries,
      q ∉ (logStatics localSrvAddr stepSeconds (pre ++ post)).queries := by
  rw [NothingAdded] at h
  push Not at h
  obtain ⟨start, hstart, e, he, hclose, hsize⟩ := h
  have hne : entriesOf pre ≠ [] := by
    intro hnil
    rw [(logLoop_spec _ _ _).2.1, (seen_eq hpre).1, hnil] at hstart
    exact absurd hstart (by simp)
  obtain ⟨closed, head, w, hhalf⟩ := exists_halfway localSrvAddr hstep hpre hne
  obtain rfl : head.dt = start := Option.some.inj (hhalf.startDt.symm.trans hstart)
  obtain ⟨tail, rfl⟩ : ∃ tail, w = head :: tail := by
    obtain ⟨tail, htail⟩ := List.head?_eq_some_iff.mp hhalf.begins
    exact ⟨tail, htail⟩
  have hnames : namesPlugin (head :: tail) = true := by
    rw [hhalf.counts] at hsize
    rw [← @size_pos_iff_namesPlugin localSrvAddr]
    omega
  obtain ⟨ext, ws, hws, hext⟩ := exists_windowsFrom_eq_cons (closesAt stepSeconds) head
    (head :: tail) (entriesOf post)
  have hextended : namesPlugin (head :: (tail ++ ext)) = true := by
    rw [namesPlugin, ← List.cons_append, List.any_append]
    rw [namesPlugin] at hnames
    rw [hnames, Bool.true_or]
  -- the window is flushed with the lines added
  have hmem : head :: (tail ++ ext) ∈ windowsFrom (closesAt stepSeconds) (keepIf namesPlugin) head
      (head :: tail) (entriesOf post) := by
    have hfilter := filter_windowsFrom (closesAt stepSeconds) namesPlugin head (head :: tail)
      (entriesOf post)
    rw [hws, List.cons_append, List.filter_cons_of_pos hextended] at hfilter
    exact (List.mem_filter.mp (hfilter ▸ List.mem_cons_self)).1
  have hnew : .http localSrvAddr ((tail ++ ext).length + 1)
      ((head :: (tail ++ ext)).countP Entry.isError) head.dt.str
      ∈ (logStatics localSrvAddr stepSeconds (pre ++ post)).queries := by
    obtain ⟨before, after, hsplit⟩ := List.append_of_mem hmem
    rw [queries_append _ hpre hok, hhalf.goesOn, hsplit, rowsOf_append, ← List.singleton_append,
      rowsOf_append, rowsOf_append]
    exact List.mem_append_right _ (List.mem_append_right _
      (List.mem_append_left _ (http_mem_rowsOf hextended)))
  refine ⟨.http localSrvAddr (tail.length + 1) ((head :: tail).countP Entry.isError) head.dt.str,
    ?_, fun hold ↦ ?_⟩
  · rw [hhalf.queries, rowsOf_append]
    exact List.mem_append_right _ (http_mem_rowsOf hnames)
  · have hsame := List.inj_on_of_nodup_map (nodup_keys_of_chronological localSrvAddr hstep hchron)
      hold hnew rfl
    injection hsame with _ hsum
    have hpos : 0 < ext.length := List.length_pos_of_ne_nil
      (hext ⟨e, he, Bool.not_eq_true _ ▸ hclose⟩)
    rw [List.length_append] at hsum
    omega

/-- **A run over a log that has grown brings the tables up to date** exactly if nothing was added to
the window that was open at the end. -/
theorem upToDate_iff (hstep : 1 ≤ stepSeconds)
    (hpre : (logStatics localSrvAddr stepSeconds pre).raised = none)
    (hok : (logStatics localSrvAddr stepSeconds (pre ++ post)).raised = none)
    (hchron : Chronological (pre ++ post)) :
    UpToDate (logStatics localSrvAddr stepSeconds pre).queries
        (logStatics localSrvAddr stepSeconds (pre ++ post)).queries ↔
      NothingAdded localSrvAddr stepSeconds pre post := by
  rw [logStatics_eq] at hpre hok
  change (seen pre).2 = none at hpre
  change (seen (pre ++ post)).2 = none at hok
  have hkeys := nodup_keys_of_chronological localSrvAddr hstep hchron
  constructor
  · intro h
    by_contra hadded
    obtain ⟨q, hq, hnot⟩ := not_subset_of_added hstep hpre hok hchron hadded
    have hfirst : Chronological pre := (List.pairwise_append.mp
      (by rw [← entriesOf_append]; exact hchron)).1
    exact hnot ((h q).mp
      (mem_rows_of_earlier (nodup_keys_of_chronological _ hstep hfirst) hq))
  · exact fun h ↦ upToDate_of_subset (queries_isPrefix hstep hpre hok h).subset hkeys

/-- The log has grown by a line twenty minutes later. -/
theorem upToDate_twentyMinutes :
    UpToDate (logStatics (lit "a") 600
        [sampleLine "10:25:00" "0" "plugin=face&src=pull"]).queries
      (logStatics (lit "a") 600 ([sampleLine "10:25:00" "0" "plugin=face&src=pull"] ++
        [sampleLine "10:45:00" "0" "plugin=face&src=push"])).queries := by
  refine (upToDate_iff (by decide) ?_ ?_ ?_).mpr ?_
  · simp only [sampleLine_eq]
    decide +kernel
  · simp only [sampleLine_eq]
    decide +kernel
  · simp only [sampleLine_eq]
    decide +kernel
  · unfold NothingAdded
    simp only [sampleLine_eq]
    decide +kernel

end Grown

/-! ## A log that was repaired -/

section Repaired

variable {pre post : List Bytes} {bad : Bytes}

variable (localSrvAddr stepSeconds) in
/-- The line after `pre` closes the window that is open. -/
def ClosesWindow (pre : List Bytes) (bad : Bytes) : Prop :=
  ∃ start ∈ (logLoop localSrvAddr stepSeconds .init pre).1.startDt, ∃ x,
    readLine bad = some (.ok x) ∧ closes stepSeconds start x.dt = true

/-- What is seen of a log with a line that stops the run: the test of the window comes before the
exception. -/
theorem seen_broken (hpre : (seen pre).2 = none) (hbad : (seen (pre ++ [bad])).2 ≠ none)
    (post : List Bytes) :
    (seen (pre ++ bad :: post)).2 ≠ none ∧ (seen (pre ++ bad :: post)).1
      = entriesOf pre ++ (entryOf bad).toList := by
  rw [seen_append hpre] at hbad ⊢
  rw [(seen_eq hpre).1]
  cases hline : readLine bad with
  | none =>
    rw [seen_cons_skip hline] at hbad
    exact absurd rfl hbad
  | some r =>
    cases r with
    | error e =>
      rw [seen_cons_error hline, entryOf, hline]
      exact ⟨by simp, rfl⟩
    | ok x =>
      cases hf : x.fault with
      | none =>
        rw [seen_cons_ok hline hf] at hbad
        exact absurd rfl hbad
      | some e =>
        rw [seen_cons_fault hline hf, entryOf_of_ok hline]
        exact ⟨by simp, rfl⟩

/-- The rows of a run that is stopped: those of the windows that were closed, and of the open one if
the line closes it. -/
theorem queries_broken (localSrvAddr : Bytes) (hstep : 1 ≤ stepSeconds) (hpre : (seen pre).2 = none)
    (hbad : (seen (pre ++ [bad])).2 ≠ none) (post : List Bytes) :
    (ClosesWindow localSrvAddr stepSeconds pre bad →
        (logStatics localSrvAddr stepSeconds (pre ++ bad :: post)).queries
          = (logStatics localSrvAddr stepSeconds pre).queries) ∧
      (¬ ClosesWindow localSrvAddr stepSeconds pre bad →
        (logStatics localSrvAddr stepSeconds (pre ++ bad :: post)).queries
          = (logLoop localSrvAddr stepSeconds .init pre).1.inserted.flatMap insertDb) := by
  obtain ⟨hraised, hseen⟩ := seen_broken hpre hbad post
  have hlast : lastWindow (seen (pre ++ bad :: post)).2 = discard := by
    cases hr : (seen (pre ++ bad :: post)).2 with
    | none => exact absurd hr hraised
    | some e => rfl
  have hqueries : (logStatics localSrvAddr stepSeconds (pre ++ bad :: post)).queries
      = rowsOf localSrvAddr (cutWindows stepSeconds discard
          (entriesOf pre ++ (entryOf bad).toList)) := by
    rw [logStatics_eq, Run.queries, windowsOf, hlast, hseen]
    rfl
  have hinserted : (logLoop localSrvAddr stepSeconds .init pre).1.inserted.flatMap insertDb
      = rowsOf localSrvAddr (cutWindows stepSeconds discard (entriesOf pre)) := by
    rw [(logLoop_spec _ _ _).2.2, (seen_eq hpre).1]
    rfl
  rw [hqueries, hinserted]
  by_cases hne : entriesOf pre = []
  · rw [hne, List.nil_append]
    refine ⟨?_, fun _ ↦ ?_⟩
    · rintro ⟨start, hstart, -⟩
      rw [(logLoop_spec _ _ _).2.1, (seen_eq hpre).1, hne] at hstart
      exact absurd hstart (by simp)
    · cases entryOf bad with
      | none => rfl
      | some x =>
        have hnone : cutWindows stepSeconds discard [x] = [] := by
          rw [cutWindows, windowsFrom, closesAt_self hstep, if_neg Bool.false_ne_true]
          rfl
        rw [Option.toList_some, hnone]
        rfl
  · obtain ⟨closed, head, w, hhalf⟩ := exists_halfway localSrvAddr hstep hpre hne
    have hclosed := hhalf.goesOn [] discard
    rw [List.append_nil, windowsFrom, Lists.discard, List.append_nil] at hclosed
    rw [hhalf.goesOn, hclosed, hhalf.queries]
    constructor
    · rintro ⟨start, hstart, x, hx, hclose⟩
      obtain rfl : head.dt = start := Option.some.inj (hhalf.startDt.symm.trans hstart)
      change closesAt stepSeconds head x = true at hclose
      rw [entryOf_of_ok hx, Option.toList_some, windowsFrom, if_pos hclose]
      rfl
    · intro hcloses
      cases hx : entryOf bad with
      | none => rw [Option.toList_none, windowsFrom, Lists.discard, List.append_nil]
      | some x =>
        have hclose : ¬ closesAt stepSeconds head x = true := fun h ↦
          hcloses ⟨head.dt, hhalf.startDt, x, readLine_of_entryOf hx, h⟩
        rw [Option.toList_some, windowsFrom, if_neg hclose, windowsFrom, Lists.discard,
          List.append_nil]

/-- **When a line has stopped the runs, a run over the log without it brings the tables up to date**
exactly if the line did not close a window to which something is added. -/
theorem redone_iff (hstep : 1 ≤ stepSeconds)
    (hpre : (logLoop localSrvAddr stepSeconds .init pre).2 = none)
    (hbad : (logLoop localSrvAddr stepSeconds .init (pre ++ [bad])).2 ≠ none)
    (hok : (logStatics localSrvAddr stepSeconds (pre ++ post)).raised = none)
    (hchron : Chronological (pre ++ post)) :
    UpToDate (logStatics localSrvAddr stepSeconds (pre ++ bad :: post)).queries
        (logStatics localSrvAddr stepSeconds (pre ++ post)).queries ↔
      (ClosesWindow localSrvAddr stepSeconds pre bad →
        NothingAdded localSrvAddr stepSeconds pre post) := by
  rw [(logLoop_spec _ _ _).1] at hpre hbad
  rw [logStatics_eq] at hok
  change (seen (pre ++ post)).2 = none at hok
  have hkeys := nodup_keys_of_chronological localSrvAddr hstep hchron
  obtain ⟨hcloses, hleaves⟩ := queries_broken localSrvAddr hstep hpre hbad post
  by_cases hclose : ClosesWindow localSrvAddr stepSeconds pre bad
  · rw [hcloses hclose]
    refine ⟨fun h _ ↦ ?_, fun h ↦ upToDate_of_subset
      (queries_isPrefix hstep hpre hok (h hclose)).subset hkeys⟩
    by_contra hadded
    obtain ⟨q, hq, hnot⟩ := not_subset_of_added hstep hpre hok hchron hadded
    have hfirst : Chronological pre := (List.pairwise_append.mp
      (by rw [← entriesOf_append]; exact hchron)).1
    exact hnot ((h q).mp
      (mem_rows_of_earlier (nodup_keys_of_chronological _ hstep hfirst) hq))
  · rw [hleaves hclose]
    refine iff_of_true (upToDate_of_subset ?_ hkeys) fun h ↦ absurd h hclose
    have hfirst := inserted_take_isPrefix localSrvAddr stepSeconds (pre ++ post) pre.length
    rw [List.take_left] at hfirst
    exact hfirst.subset

/-- A line with an answer that is not JSON. -/
theorem redone_notJson :
    UpToDate (logStatics (lit "a") 600 ([sampleLine "10:25:00" "0" "r"] ++
        sampleLine "10:25:01" "x" "plugin=face&src=pull" ::
          [sampleLine "10:45:00" "0" "plugin=face&src=pull"])).queries
      (logStatics (lit "a") 600 ([sampleLine "10:25:00" "0" "r"] ++
        [sampleLine "10:45:00" "0" "plugin=face&src=pull"])).queries := by
  refine (redone_iff (by decide) ?_ ?_ ?_ ?_).mpr fun _ ↦ ?_
  · simp only [sampleLine_eq]
    decide +kernel
  · simp only [sampleLine_eq]
    decide +kernel
  · simp only [sampleLine_eq]
    decide +kernel
  · simp only [sampleLine_eq]
    decide +kernel
  · unfold NothingAdded
    simp only [sampleLine_eq]
    decide +kernel

end Repaired

end ImgPredictor
