import ImgPredictor.Statics.Servers

/-!
# The collation of the tables

Both tables are declared with `default charset=utf8`, and so compare their texts by
`utf8_general_ci`, which does not tell upper case from lower case.  The dictionary of the script
does: a request may name `face` and another one `Face`, and the window has a record of each, but the
tables take only one of the two rows.

`collated_iff`: the tables hold a part of the rows that they would hold if they compared bytes, and
**they hold all of them exactly if no plugin is spelled in two ways** by windows that begin in the
same second.

What is assumed of MySQL: the collation of a table is the default of its charset, and on ASCII,
which is all that `\w` and an address have, `utf8_general_ci` compares letters without their case
and nothing else.  A row whose key is there is refused, and leaves the tables as they are.  Names
are taken to fit their columns, a `varchar(128)`.
-/

set_option autoImplicit false

namespace ImgPredictor

open Bytes Lists UniqueKey

/-! ## Keys without case -/

/-- `utf8_general_ci`, of texts in ASCII. -/
def generalCi (text : Bytes) : Bytes := text.map toLower

/-- A key, as its table compares it. -/
def KeyValue.collated : KeyValue → KeyValue
  | .pluginDt plugin dateTime => .pluginDt (generalCi plugin) dateTime
  | .serDt serverAddr dateTime => .serDt (generalCi serverAddr) dateTime

/-- The key of a row, as its table compares it. -/
def Query.collatedKey (q : Query) : KeyValue := q.key.collated

/-- Both tables, as they are declared. -/
abbrev CollatedDatabase : Type := Table Query.collatedKey

/-- An address is digits and dots. -/
def Server.Numeric (s : Server) : Prop := ∀ b ∈ s.localSrvAddr, isDigit b = true ∨ b = 46

theorem generalCi_of_numeric {addr : Bytes} (h : ∀ b ∈ addr, isDigit b = true ∨ b = 46) :
    generalCi addr = addr := by
  have hlower : ∀ b ∈ addr, toLower b = id b := by
    intro b hb
    have hupper : ¬(65 ≤ b ∧ b ≤ 90) := by
      rcases h b hb with hdigit | rfl
      · rw [isDigit, Bool.and_eq_true, decide_eq_true_iff, decide_eq_true_iff] at hdigit
        exact fun hb ↦ absurd (UInt8.le_trans hb.1 hdigit.2) (by decide)
      · decide
    rw [toLower, if_neg (by simpa using hupper), id_eq]
  rw [generalCi, List.map_congr_left hlower, List.map_id]

/-! ## Plugins -/

/-- Windows of these files that begin in the same second spell a plugin in one way. -/
def OneSpelling (files : List Server) : Prop :=
  ∀ s ∈ files, ∀ s' ∈ files, ∀ start plugin plugin', s.Reports start plugin →
    s'.Reports start plugin' → generalCi plugin = generalCi plugin' → plugin = plugin'

section

variable {files : List Server} {inserts : List Query}

/-- **The keys are told apart exactly if the plugins are.** -/
theorem collatedKey_inj_iff (haddr : ∀ s ∈ files, s.Numeric) :
    (∀ q ∈ files.flatMap Server.queries, ∀ q' ∈ files.flatMap Server.queries,
      q.collatedKey = q'.collatedKey → q.key = q'.key) ↔ OneSpelling files := by
  constructor
  · intro h s hs s' hs' start plugin plugin' hreports hreports' hsame
    obtain ⟨q, hq, hkey⟩ := List.mem_map.mp (pluginDt_mem_queries.mpr ⟨start, hreports, rfl⟩)
    obtain ⟨q', hq', hkey'⟩ := List.mem_map.mp (pluginDt_mem_queries.mpr ⟨start, hreports', rfl⟩)
    have heq := h q (List.mem_flatMap.mpr ⟨s, hs, hq⟩) q' (List.mem_flatMap.mpr ⟨s', hs', hq'⟩)
      (by rw [Query.collatedKey, Query.collatedKey, hkey, hkey', KeyValue.collated,
        KeyValue.collated, hsame])
    rw [hkey, hkey'] at heq
    exact (KeyValue.pluginDt.inj heq).1
  · intro h q hq q' hq' hsame
    obtain ⟨s, hs, hq⟩ := List.mem_flatMap.mp hq
    obtain ⟨s', hs', hq'⟩ := List.mem_flatMap.mp hq'
    have hmem := List.mem_map_of_mem (f := Query.key) hq
    have hmem' := List.mem_map_of_mem (f := Query.key) hq'
    rw [Query.collatedKey, Query.collatedKey] at hsame
    rcases hkey : q.key with ⟨plugin, dateTime⟩ | ⟨serverAddr, dateTime⟩ <;>
      rcases hkey' : q'.key with ⟨plugin', dateTime'⟩ | ⟨serverAddr', dateTime'⟩ <;>
      rw [hkey] at hmem hsame <;> rw [hkey'] at hmem' hsame
    · obtain ⟨hplugin, rfl⟩ := KeyValue.pluginDt.inj hsame
      obtain ⟨start, hreports, rfl⟩ := pluginDt_mem_queries.mp hmem
      obtain ⟨start', hreports', hdate⟩ := pluginDt_mem_queries.mp hmem'
      obtain rfl := DateTime.str_inj hdate
      rw [h s hs s' hs' start' plugin plugin' hreports hreports' hplugin]
    · exact absurd hsame KeyValue.noConfusion
    · exact absurd hsame KeyValue.noConfusion
    · obtain ⟨hserver, rfl⟩ := KeyValue.serDt.inj hsame
      obtain rfl := serDt_mem_queries hmem
      obtain rfl := serDt_mem_queries hmem'
      rw [generalCi_of_numeric (haddr s hs), generalCi_of_numeric (haddr s' hs')] at hserver
      rw [hserver]

/-- **The tables hold a part of the rows with different keys, and all of them exactly if no plugin
is spelled in two ways**, whatever the order of the rows and however often each is sent. -/
theorem collated_iff (haddr : ∀ s ∈ files, s.Numeric)
    (hinserts : ∀ q, q ∈ inserts ↔ q ∈ files.flatMap Server.queries) :
    ((Table.empty : CollatedDatabase).insertAll inserts).1.rows.Sublist
        ((Table.empty : Database).insertAll inserts).1.rows ∧
      (((Table.empty : CollatedDatabase).insertAll inserts).1.rows
        = ((Table.empty : Database).insertAll inserts).1.rows ↔ OneSpelling files) := by
  have hcoarse : ∀ q q' : Query, q.key = q'.key → q.collatedKey = q'.collatedKey :=
    fun _ _ h ↦ congrArg KeyValue.collated h
  refine ⟨Table.rows_insertAll_coarser hcoarse (List.Sublist.refl _)
    (fun _ h ↦ absurd h List.not_mem_nil) inserts, ?_⟩
  rw [Table.rows_insertAll_coarser_iff hcoarse, ← collatedKey_inj_iff haddr]
  simp only [hinserts]

end

/-- A log with a request for `face` and one for `Face`. -/
def faceFaceLines : List Bytes :=
  [sampleLine "10:25:00" "0" "plugin=face&src=pull",
    sampleLine "10:25:01" "0" "plugin=Face&src=pull"]

theorem chronological_faceFace : Chronological faceFaceLines := by
  unfold faceFaceLines
  simp only [sampleLine_eq]
  decide +kernel

theorem numeric_sampleAddr : ∀ b ∈ lit "10.0.0.1", isDigit b = true ∨ b = 46 := by decide +kernel

/-- A server with that log. -/
def faceFace : Server :=
  ⟨lit "10.0.0.1", 600, faceFaceLines, step_tenMinutes, chronological_faceFace⟩

/-- One of its plugins has no row. -/
theorem collated_faceFace : ¬OneSpelling [faceFace] := by
  rw [← (@collated_iff [faceFace] _ (List.forall_mem_singleton.mpr numeric_sampleAddr)
    fun _ ↦ .rfl).2]
  rw [List.flatMap_singleton]
  simp only [Server.queries, faceFace, faceFaceLines, sampleLine_eq]
  decide +kernel

end ImgPredictor
