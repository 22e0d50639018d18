import ImgPredictor.Lib.UniqueKey
import ImgPredictor.Statics.Keys

/-!
# Several servers and one database

Every server runs the statistics over its own log, and all of them insert into the same two tables.
The rows of `imaginx_http_statics` are told apart by the server, those of `imaginx_log_statics` are
not: `server_addr` is a column of the table, but not of the key `plugin_dt`.

`nothingLost_iff`: rows get lost exactly if two servers have windows that begin in the same second
and name the same plugin.
-/

set_option autoImplicit false

namespace ImgPredictor

open Bytes Lists UniqueKey

/-! ## The tables -/

/-- The values of the unique keys of the two tables. -/
inductive KeyValue where
  /-- `plugin_dt`, of `imaginx_log_statics`. -/
  | pluginDt (plugin dateTime : Bytes)
  /-- `ser_dt`, of `imaginx_http_statics`. -/
  | serDt (serverAddr dateTime : Bytes)
  deriving DecidableEq

/-- The key of a row, in the table it is inserted into. -/
def Query.key : Query → KeyValue
  | .log plugin _ _ _ _ _ _ dateTime => .pluginDt plugin dateTime
  | .http serverAddr _ _ dateTime => .serDt serverAddr dateTime

/-- Both tables. -/
abbrev Database : Type := Table Query.key

/-- Every row that is issued ends up in its table. -/
structure NothingLost (queries : List Query) : Prop where
  /-- The tables, which were empty, have exactly these rows. -/
  rows : ((Table.empty : Database).insertAll queries).1.rows = queries
  /-- No insert was refused. -/
  refused : ((Table.empty : Database).insertAll queries).2 = []

theorem nothingLost_iff_nodup {queries : List Query} :
    NothingLost queries ↔ (queries.map Query.key).Nodup := by
  have hrefused := Table.refused_eq_nil_iff (Table.empty : Database) queries
  rw [Table.empty, List.nil_append] at hrefused
  exact ⟨fun h ↦ hrefused.mp h.refused,
    fun h ↦ ⟨Table.rows_insertAll (hrefused.mpr h), hrefused.mpr h⟩⟩

theorem pluginDt_mem {queries : List Query} {plugin dateTime : Bytes} :
    .pluginDt plugin dateTime ∈ queries.map Query.key ↔
      (plugin, dateTime) ∈ queries.filterMap Query.logKey := by
  rw [List.mem_map, List.mem_filterMap]
  refine exists_congr fun q ↦ and_congr_right fun _ ↦ ?_
  cases q <;> simp [Query.key, Query.logKey]

theorem serDt_mem {queries : List Query} {serverAddr dateTime : Bytes} :
    .serDt serverAddr dateTime ∈ queries.map Query.key ↔
      (serverAddr, dateTime) ∈ queries.filterMap Query.httpKey := by
  rw [List.mem_map, List.mem_filterMap]
  refine exists_congr fun q ↦ and_congr_right fun _ ↦ ?_
  cases q <;> simp [Query.key, Query.httpKey]

/-- The keys are all different if those of each table are. -/
theorem nodup_key {queries : List Query} (hlog : (queries.filterMap Query.logKey).Nodup)
    (hhttp : (queries.filterMap Query.httpKey).Nodup) : (queries.map Query.key).Nodup := by
  rw [List.Nodup, List.pairwise_filterMap] at hlog hhttp
  rw [List.Nodup, List.pairwise_map]
  refine hlog.imp₂ (fun q q' hq hq' ↦ ?_) hhttp
  rintro heq
  cases q <;> cases q' <;> cases heq
  · exact hq _ rfl _ rfl rfl
  · exact hq' _ rfl _ rfl rfl

/-! ## The servers -/

/-- A server: its address, the length of its windows and its log, the times of which never go
back. -/
structure Server where
  /-- `local_srv_addr` -/
  localSrvAddr : Bytes
  /-- `step_seconds` -/
  stepSeconds : ℤ
  /-- The lines of `log_file`. -/
  lines : List Bytes
  /-- Windows are not empty. -/
  step : 1 ≤ stepSeconds
  /-- The times never go back. -/
  chronological : Chronological lines

namespace Server

/-- The inserts of the server.  A refused one is printed and skipped, so they do not depend on what
the other servers do. -/
def queries (s : Server) : List Query := (logStatics s.localSrvAddr s.stepSeconds s.lines).queries

/-- In the window of the server that begins at `start`, a line names `plugin`. -/
def Reports (s : Server) (start : DateTime) (plugin : Bytes) : Prop :=
  ∃ w ∈ windowsOf s.stepSeconds s.lines, w.head?.map Entry.dt = some start ∧
    ∃ e ∈ w, ∃ src, requestOf e.request = some (plugin, src)

end Server

/-- No two servers have windows that begin in the same second and name the same plugin. -/
def Apart {ι : Type} (servers : ι → Server) : Prop :=
  ∀ i j, i ≠ j → ∀ start plugin,
    ¬ ((servers i).Reports start plugin ∧ (servers j).Reports start plugin)

theorem nodup_keys_queries (s : Server) : (s.queries.map Query.key).Nodup :=
  nodup_key (nodup_logKeys _ s.step s.chronological) (nodup_httpKeys _ s.step s.chronological)

/-- **The plugin rows of a server**: one for each plugin that a window names, at the time it
begins. -/
theorem pluginDt_mem_queries {s : Server} {plugin dateTime : Bytes} :
    .pluginDt plugin dateTime ∈ s.queries.map Query.key ↔
      ∃ start, s.Reports start plugin ∧ start.str = dateTime := by
  rw [pluginDt_mem, Server.queries, logStatics_eq, Run.queries, List.flatMap_map,
    List.filterMap_flatMap, List.mem_flatMap]
  constructor
  · rintro ⟨w, hw, hmem⟩
    obtain ⟨head, tail, rfl, hstamp⟩ := stamped_of_mem s.localSrvAddr s.step hw
    rw [logKeys_insertDb hstamp, List.mem_map] at hmem
    obtain ⟨p, hp, heq⟩ := hmem
    obtain ⟨rfl, rfl⟩ := Prod.mk.inj heq
    exact ⟨head.dt, ⟨_, hw, rfl, mem_countWindow.mp (Std.ExtTreeMap.mem_keys.mp hp)⟩, rfl⟩
  · rintro ⟨start, ⟨w, hw, hstart, hnames⟩, rfl⟩
    obtain ⟨head, tail, rfl, hstamp⟩ := stamped_of_mem s.localSrvAddr s.step hw
    obtain rfl := Option.some.inj hstart
    refine ⟨_, hw, ?_⟩
    rw [logKeys_insertDb hstamp]
    exact List.mem_map_of_mem (Std.ExtTreeMap.mem_keys.mpr (mem_countWindow.mpr hnames))

/-- The other rows carry the address of the server. -/
theorem serDt_mem_queries {s : Server} {serverAddr dateTime : Bytes}
    (h : .serDt serverAddr dateTime ∈ s.queries.map Query.key) : serverAddr = s.localSrvAddr := by
  rw [serDt_mem, Server.queries, logStatics_eq, Run.queries, List.flatMap_map,
    List.filterMap_flatMap, List.mem_flatMap] at h
  obtain ⟨w, hw, hmem⟩ := h
  obtain ⟨head, tail, rfl, hstamp⟩ := stamped_of_mem s.localSrvAddr s.step hw
  rw [httpKeys_insertDb hstamp] at hmem
  split at hmem
  · exact congrArg Prod.fst (List.mem_singleton.mp hmem)
  · exact absurd hmem (by simp)

/-! ## All of them -/

section Servers

variable {ι : Type} [DecidableEq ι]

/-- **Rows get lost exactly if two servers have windows that begin in the same second and name the
same plugin**, in whatever order the servers insert. -/
theorem nothingLost_iff {servers : ι → Server}
    (hdistinct : Function.Injective fun i ↦ (servers i).localSrvAddr)
    {inserts : List (ι × Query)}
    (hinserts : Interleaving (fun i ↦ (servers i).queries) inserts) :
    NothingLost (inserts.map Prod.snd) ↔ Apart servers := by
  rw [nothingLost_iff_nodup, List.map_map]
  refine (nodup_keys_iff inserts).trans ?_
  simp only [show ∀ i, partOf i inserts = (servers i).queries from hinserts]
  refine ⟨fun h i j hij start plugin hboth ↦ ?_, fun h ↦ ⟨fun i ↦ nodup_keys_queries _, ?_⟩⟩
  · obtain ⟨q, hq, hkey⟩ := List.mem_map.mp (pluginDt_mem_queries.mpr ⟨start, hboth.1, rfl⟩)
    obtain ⟨q', hq', hkey'⟩ := List.mem_map.mp (pluginDt_mem_queries.mpr ⟨start, hboth.2, rfl⟩)
    exact h.2 i j hij q hq q' hq' (hkey.trans hkey'.symm)
  · intro i j hij q hq q' hq' heq
    have hmem := List.mem_map_of_mem (f := Query.key) hq
    have hmem' := List.mem_map_of_mem (f := Query.key) hq'
    rw [← heq] at hmem'
    rcases hkey : Query.key q with ⟨plugin, dateTime⟩ | ⟨serverAddr, dateTime⟩
    · rw [hkey] at hmem hmem'
      obtain ⟨start, hreports, rfl⟩ := pluginDt_mem_queries.mp hmem
      obtain ⟨start', hreports', hsame⟩ := pluginDt_mem_queries.mp hmem'
      obtain rfl := DateTime.str_inj hsame
      exact h i j hij start' plugin ⟨hreports, hreports'⟩
    · rw [hkey] at hmem hmem'
      exact hij (hdistinct ((serDt_mem_queries hmem).symm.trans (serDt_mem_queries hmem')))

end Servers

theorem chronological_singleton (line : Bytes) : Chronological [line] := by
  rw [Chronological, entriesOf]
  rcases h : entryOf line with _ | e <;> simp [h]

theorem step_tenMinutes : (1 : ℤ) ≤ 600 := by decide

/-- Two servers with one line each in their logs, for the examples. -/
def sampleServers (line line' : Bytes) : Bool → Server
  | true => ⟨lit "a", 600, [line], by decide, chronological_singleton line⟩
  | false => ⟨lit "b", 600, [line'], by decide, chronological_singleton line'⟩

theorem sampleServers_injective (line line' : Bytes) :
    Function.Injective fun i ↦ (sampleServers line line' i).localSrvAddr := by
  intro i j h
  cases i <;> cases j
  · rfl
  · exact absurd h (show lit "b" ≠ lit "a" by decide)
  · exact absurd h (show lit "a" ≠ lit "b" by decide)
  · rfl

/-- Two servers with requests a second apart, which insert in turns. -/
theorem nothingLost_secondApart :
    Apart (sampleServers (sampleLine "10:25:00" "0" "plugin=face&src=pull")
      (sampleLine "10:25:01" "0" "plugin=face&src=pull")) := by
  let inserts : List (Bool × Query) := [
    (false, .log (lit "face") (lit "b") 0 1 0 1 0 (lit "2016-03-08 10:25:01")),
    (true, .log (lit "face") (lit "a") 0 1 0 1 0 (lit "2016-03-08 10:25:00")),
    (false, .http (lit "b") 1 0 (lit "2016-03-08 10:25:01")),
    (true, .http (lit "a") 1 0 (lit "2016-03-08 10:25:00"))]
  refine (nothingLost_iff (sampleServers_injective _ _) ?_).mp
    (?_ : NothingLost (inserts.map Prod.snd))
  · unfold Interleaving
    decide +kernel
  · exact ⟨by decide +kernel, by decide +kernel⟩

/-- Two servers with requests in the same second: the one that inserts last loses its row. -/
theorem rowLost_sameSecond :
    ∃ inserts,
      (Function.Injective fun i ↦ (sampleServers (sampleLine "10:25:00" "0" "plugin=face&src=pull")
        (sampleLine "10:25:00" "0" "plugin=face&src=pull") i).localSrvAddr) ∧
      Interleaving (fun i ↦ (sampleServers (sampleLine "10:25:00" "0" "plugin=face&src=pull")
        (sampleLine "10:25:00" "0" "plugin=face&src=pull") i).queries) inserts ∧
      ¬ NothingLost (inserts.map Prod.snd) := by
  refine ⟨[
    (true, .log (lit "face") (lit "a") 0 1 0 1 0 (lit "2016-03-08 10:25:00")),
    (true, .http (lit "a") 1 0 (lit "2016-03-08 10:25:00")),
    (false, .log (lit "face") (lit "b") 0 1 0 1 0 (lit "2016-03-08 10:25:00")),
    (false, .http (lit "b") 1 0 (lit "2016-03-08 10:25:00"))], sampleServers_injective _ _, ?_, ?_⟩
  · unfold Interleaving
    decide +kernel
  · exact fun h ↦ absurd h.refused (by decide +kernel)

end ImgPredictor
