import Mathlib.Algebra.Order.BigOperators.Group.List
import Mathlib.Algebra.Order.Ring.Nat
import ImgPredictor.Deployment
import ImgPredictor.Statics.Files

/-!
# All hosts and the database

Every host serves its requests and counts them every night, and all rows go into the two tables of
one database.  The unique keys are there against rows that are sent twice, and they refuse any row
under whose key there is one.

`served_stored`: **what the tables hold is what was served**, but for the requests that are still in
the logs, if no windows of the files that were read get in each other's way; rows are refused
exactly if there are such windows; and the tables never hold more.

A `Host` carries what is assumed of it.

* Its days come one after the other, and on each of them all workers open the new log between the
  rotation and the statistics (`Day.reopened`).
* Of the lines its workers write, those that match the pattern are the lines of the answers, each as
  `Access.Of` has it: it fits the buffer of nginx, can be read back, and has the plugin and the
  source the module looked up for its last pair of arguments.  A request with the two the other way
  round has no such line.
* The parsers take the answers (`Client.Accepts`), so no run of the statistics raises an exception.
* In each file that is read the times never go back, and the address is digits and dots.

The tables are the ones with the collation, and the names of the plugins are taken to fit their
column.  That two hosts have different addresses is not assumed: files of hosts with the same one
are apart or not like any others.

All hosts have the same number of workers; where there are fewer, some get no requests and only open
the new log.
-/

set_option autoImplicit false

namespace ImgPredictor

open Bytes Lists Site UniqueKey

/-- A host, over some days: what its workers do, and what they write of it. -/
structure Host (ι κ : Type) [DecidableEq ι] [DecidableEq κ] where
  /-- `local_srv_addr` -/
  localSrvAddr : Bytes
  /-- The days. -/
  days : List (Day ι)
  /-- The plugin table. -/
  slot : PluginSlot PluginInfo
  /-- The requests that come to each worker. -/
  clients : ι → κ → Client
  /-- The events of each worker. -/
  actions : ι → List (Action κ)
  /-- What nginx makes of an answer that is logged. -/
  access : ι → κ → Access
  /-- The address is digits and dots. -/
  address : ∀ b ∈ localSrvAddr, isDigit b = true ∨ b = 46
  /-- The days come one after the other. -/
  ordered : days.Pairwise fun d d' ↦ d.today.toOrdinal < d'.today.toOrdinal
  /-- The events can happen. -/
  runs : ∀ w, ∃ s, Location.run (clients w) (.start slot) (actions w) = some s
  /-- The lines that the script looks at are those of the answers. -/
  lines : ∀ w, (linesBy w (days.flatMap Day.work)).filter isLogLine
    = answerLines (access w) ((Location.start slot).answerLog (clients w) (actions w))
  /-- They can be read back. -/
  of : ∀ w, ∀ p ∈ (Location.start slot).answerLog (clients w) (actions w),
    (access w p.1).Of (clients w p.1) p.2
  /-- The parsers take the answers. -/
  accepts : ∀ w, ∀ p ∈ (Location.start slot).answerLog (clients w) (actions w),
    (clients w p.1).Accepts p.2
  /-- In each file that is read, the times never go back. -/
  chronological : ∀ lines ∈ ((Site.init : Site ι).run (days.flatMap Day.events)).inputs,
    Chronological lines

namespace Host

variable {ι κ : Type} [DecidableEq ι] [DecidableEq κ]

/-- The files of the host, after all days. -/
def site (host : Host ι κ) : Site ι := (Site.init : Site ι).run (host.days.flatMap Day.events)

/-- The rows that were sent. -/
def rows (host : Host ι κ) : List Query := nightlyRows host.localSrvAddr host.site.inputs

/-- A file of the host, as a server with that log. -/
def file (host : Host ι κ) (lines : List Bytes) (h : Chronological lines) : Server :=
  ⟨host.localSrvAddr, nightlyStep, lines, step_tenMinutes, h⟩

theorem chronological_site (host : Host ι κ) : ∀ lines ∈ host.site.inputs, Chronological lines :=
  host.chronological

/-- The files that were read. -/
def files (host : Host ι κ) : List Server :=
  host.site.inputs.pmap host.file host.chronological_site

/-- What is still in the log, as far as it counts. -/
def waiting (host : Host ι κ) (plugin column : Bytes) : ℕ :=
  ((entriesOf host.site.left).map (Entry.countsFor plugin column)).sum

/-- The requests that were answered and count. -/
def served [Fintype ι] (host : Host ι κ) (plugin column : Bytes) : ℕ :=
  ∑ w, ((Location.start host.slot).answerLog (host.clients w) (host.actions w)).countP fun p ↦
    (host.clients w p.1).counts plugin column p.2

theorem flatMap_files (host : Host ι κ) : host.files.flatMap Server.queries = host.rows := by
  have hfile : ∀ lines h, (host.file lines h).queries
      = (logStatics host.localSrvAddr nightlyStep lines).queries := fun _ _ ↦ rfl
  rw [files, List.flatMap, List.map_pmap, rows, nightlyRows, List.flatMap]
  simp only [hfile, List.pmap_eq_map]

theorem numeric_files (host : Host ι κ) : ∀ s ∈ host.files, s.Numeric := by
  intro s hs
  obtain ⟨lines, hlines, rfl⟩ := List.mem_pmap.mp hs
  exact host.address

variable [Fintype ι] [Nonempty ι]

/-- The rows of a host and what is still in its log are the requests it answered. -/
theorem sum_rows (host : Host ι κ) (plugin : Bytes) {column : Bytes}
    (h : column ∈ counterColumns) :
    (host.rows.map (Query.counter plugin column)).sum + host.waiting plugin column
      = host.served plugin column := by
  choose s hs using host.runs
  have hquiet := quiet_days host.ordered hs host.lines host.of host.accepts host.localSrvAddr
  rw [rows, site, sum_counter_nightlyRows host.localSrvAddr hquiet plugin h]
  exact sum_entries_days host.ordered hs host.lines host.of plugin

end Host

/-! ## The tables -/

section

variable {ι κ : Type} [DecidableEq ι] [DecidableEq κ] [Fintype ι] [Nonempty ι]

/-- The counters of the rows that are in the tables. -/
def stored (inserts : List Query) (plugin column : Bytes) : ℕ :=
  (((Table.empty : CollatedDatabase).insertAll inserts).1.rows.map
    (Query.counter plugin column)).sum

/-- **What the tables hold is what was served**, for any number of hosts, over any number of days,
in whatever order the rows come. -/
theorem served_stored (hosts : List (Host ι κ)) {inserts : List Query}
    (hinserts : inserts.Perm (hosts.flatMap Host.rows)) (plugin : Bytes) {column : Bytes}
    (h : column ∈ counterColumns) :
    (Kept inserts ↔ AllClear (hosts.flatMap Host.files)) ∧
      (AllClear (hosts.flatMap Host.files) →
        stored inserts plugin column + (hosts.map fun host ↦ host.waiting plugin column).sum
          = (hosts.map fun host ↦ host.served plugin column).sum) ∧
      stored inserts plugin column + (hosts.map fun host ↦ host.waiting plugin column).sum
        ≤ (hosts.map fun host ↦ host.served plugin column).sum := by
  have hiff : Kept inserts ↔ AllClear (hosts.flatMap Host.files) := by
    refine kept_iff (fun s hs ↦ ?_) ?_
    · obtain ⟨host, -, hfile⟩ := List.mem_flatMap.mp hs
      exact host.numeric_files s hfile
    · rw [List.flatMap_assoc]
      simpa only [Host.flatMap_files] using hinserts
  have hsum : (inserts.map (Query.counter plugin column)).sum
      + (hosts.map fun host ↦ host.waiting plugin column).sum
        = (hosts.map fun host ↦ host.served plugin column).sum := by
    rw [(hinserts.map _).sum_eq]
    clear hinserts hiff
    induction hosts with
    | nil => rfl
    | cons host hosts ih =>
      have hhost := host.sum_rows plugin h
      simp only [List.flatMap_cons, List.map_append, List.sum_append, List.map_cons,
        List.sum_cons] at ih ⊢
      omega
  refine ⟨hiff, fun hclear ↦ ?_, ?_⟩
  · rw [stored, (hiff.mpr hclear).rows, hsum]
  · have hsub := Table.rows_insertAll_sublist (Table.empty : CollatedDatabase) inserts
    rw [Table.empty, List.nil_append] at hsub
    have hle := (hsub.map (Query.counter plugin column)).sum_le_sum fun _ _ ↦ Nat.zero_le _
    rw [← hsum]
    exact Nat.add_le_add_right hle _

end

theorem ordered_faceDay : [faceDay].Pairwise fun d d' ↦ d.today.toOrdinal < d'.today.toOrdinal :=
  List.pairwise_singleton ..

theorem of_faceWork (worker : Bool) :
    ∀ p ∈ (Location.start World.withFace.glcf.pluginSlot).answerLog (fun _ : Bool ↦ facePull)
      (faceWork worker), faceAccess.Of facePull p.2 := by
  intro p hp
  rw [text_faceWork worker p hp]
  exact faceAccess_of

theorem accepts_faceWork (worker : Bool) :
    ∀ p ∈ (Location.start World.withFace.glcf.pluginSlot).answerLog (fun _ : Bool ↦ facePull)
      (faceWork worker), facePull.Accepts p.2 := by
  intro p hp
  rw [text_faceWork worker p hp]
  exact facePull_accepts

theorem chronological_faceDay :
    ∀ lines ∈ ((Site.init : Site Bool).run ([faceDay].flatMap Day.events)).inputs,
      Chronological lines := by
  decide +kernel

/-- A host with that day. -/
def faceHost : Host Bool Bool where
  localSrvAddr := lit "10.0.0.1"
  days := [faceDay]
  slot := World.withFace.glcf.pluginSlot
  clients _ _ := facePull
  actions := faceWork
  access _ _ := faceAccess
  address := numeric_sampleAddr
  ordered := ordered_faceDay
  runs := run_faceWork
  lines := lines_faceDay
  of := of_faceWork
  accepts := accepts_faceWork
  chronological := chronological_faceDay

theorem kept_faceHost : Kept ([faceHost].flatMap Host.rows) where
  rows := by decide +kernel
  refused := by decide +kernel

/-- The host alone: of its two answers one is in the tables, and one waits in the log. -/
theorem served_stored_faceHost :
    AllClear ([faceHost].flatMap Host.files) ∧
      stored ([faceHost].flatMap Host.rows) (lit "face") (lit "pull")
          + ([faceHost].map fun host ↦ host.waiting (lit "face") (lit "pull")).sum
        = ([faceHost].map fun host ↦ host.served (lit "face") (lit "pull")).sum := by
  obtain ⟨hiff, hstored, -⟩ := @served_stored Bool Bool _ _ _ _ [faceHost] _ (.refl _)
    (lit "face") (lit "pull") (by decide)
  have hclear := hiff.mp kept_faceHost
  exact ⟨hclear, hstored hclear⟩

end ImgPredictor
