import ImgPredictor.Statics.Collation

/-!
# Many files and one database

The statistics are run on every host and every night, each time over another file, and all that is
sent goes into the same two tables.  In the rows of one host the address is the same every night, so
here the key `ser_dt` does not tell two runs apart as it tells two servers apart.

* `disjoint_keys_iff` — two files have no key in common exactly if they are `Clear` of each other.
* `kept_iff` — nothing is refused exactly if any two files are, and each spells its plugins in one
  way.
-/

set_option autoImplicit false

namespace ImgPredictor

open Bytes Lists UniqueKey

/-! ## Two files -/

/-- Windows of the two files that begin in the same second name different plugins, and are from
different hosts. -/
def Server.Clear (s s' : Server) : Prop :=
  ∀ start plugin plugin', s.Reports start plugin → s'.Reports start plugin' →
    generalCi plugin ≠ generalCi plugin' ∧ s.localSrvAddr ≠ s'.localSrvAddr

/-- **The rows of a host**: one for each window that names a plugin, at the time it begins. -/
theorem serDt_mem_queries_iff {s : Server} {serverAddr dateTime : Bytes} :
    .serDt serverAddr dateTime ∈ s.queries.map Query.key ↔
      serverAddr = s.localSrvAddr ∧ ∃ start plugin, s.Reports start plugin ∧
        start.str = dateTime := by
  rw [serDt_mem, Server.queries, logStatics_eq, Run.queries, List.flatMap_map,
    List.filterMap_flatMap, List.mem_flatMap]
  constructor
  · rintro ⟨w, hw, hmem⟩
    obtain ⟨head, tail, rfl, hstamp⟩ := stamped_of_mem s.localSrvAddr s.step hw
    rw [httpKeys_insertDb hstamp] at hmem
    split at hmem
    · rename_i hsize
      obtain ⟨plugin, hplugin⟩ := (Dict.size_pos_iff _).mp hsize
      obtain ⟨rfl, rfl⟩ := Prod.mk.inj (List.mem_singleton.mp hmem)
      exact ⟨rfl, head.dt, plugin, ⟨_, hw, rfl, mem_countWindow.mp hplugin⟩, rfl⟩
    · exact absurd hmem List.not_mem_nil
  · rintro ⟨rfl, start, plugin, ⟨w, hw, hstart, hnames⟩, rfl⟩
    obtain ⟨head, tail, rfl, hstamp⟩ := stamped_of_mem s.localSrvAddr s.step hw
    obtain rfl := Option.some.inj hstart
    refine ⟨_, hw, ?_⟩
    rw [httpKeys_insertDb hstamp,
      if_pos ((Dict.size_pos_iff _).mpr ⟨plugin, mem_countWindow.mpr hnames⟩)]
    exact List.mem_singleton_self _

theorem pluginDt_mem_collated {s : Server} {plugin dateTime : Bytes} :
    .pluginDt plugin dateTime ∈ s.queries.map Query.collatedKey ↔
      ∃ start plugin', s.Reports start plugin' ∧ generalCi plugin' = plugin ∧
        start.str = dateTime := by
  have hmap : s.queries.map Query.collatedKey
      = (s.queries.map Query.key).map KeyValue.collated := (List.map_map ..).symm
  rw [hmap, List.mem_map]
  constructor
  · rintro ⟨key, hkey, heq⟩
    rcases key with ⟨plugin', dateTime'⟩ | _
    · obtain ⟨rfl, rfl⟩ := KeyValue.pluginDt.inj heq
      obtain ⟨start, hreports, rfl⟩ := pluginDt_mem_queries.mp hkey
      exact ⟨start, plugin', hreports, rfl, rfl⟩
    · exact absurd heq KeyValue.noConfusion
  · rintro ⟨start, plugin', hreports, rfl, rfl⟩
    exact ⟨_, pluginDt_mem_queries.mpr ⟨start, hreports, rfl⟩, rfl⟩

theorem serDt_mem_collated {s : Server} (haddr : s.Numeric) {serverAddr dateTime : Bytes} :
    .serDt serverAddr dateTime ∈ s.queries.map Query.collatedKey ↔
      serverAddr = s.localSrvAddr ∧ ∃ start plugin, s.Reports start plugin ∧
        start.str = dateTime := by
  have hmap : s.queries.map Query.collatedKey
      = (s.queries.map Query.key).map KeyValue.collated := (List.map_map ..).symm
  rw [hmap, List.mem_map]
  constructor
  · rintro ⟨key, hkey, heq⟩
    rcases key with _ | ⟨serverAddr', dateTime'⟩
    · exact absurd heq KeyValue.noConfusion
    · obtain ⟨rfl, rfl⟩ := KeyValue.serDt.inj heq
      obtain ⟨rfl, hreports⟩ := serDt_mem_queries_iff.mp hkey
      exact ⟨generalCi_of_numeric haddr, hreports⟩
  · rintro ⟨rfl, hreports⟩
    refine ⟨_, serDt_mem_queries_iff.mpr ⟨rfl, hreports⟩, ?_⟩
    rw [KeyValue.collated, generalCi_of_numeric haddr]

/-- **Two files have no key in common exactly if they are clear of each other.** -/
theorem disjoint_keys_iff {s s' : Server} (haddr : s.Numeric) (haddr' : s'.Numeric) :
    List.Disjoint (s.queries.map Query.collatedKey) (s'.queries.map Query.collatedKey) ↔
      s.Clear s' := by
  constructor
  · intro h start plugin plugin' hs hs'
    refine ⟨fun hsame ↦ ?_, fun hsame ↦ ?_⟩
    · exact h (pluginDt_mem_collated.mpr ⟨start, plugin, hs, rfl, rfl⟩)
        (pluginDt_mem_collated.mpr ⟨start, plugin', hs', hsame.symm, rfl⟩)
    · exact h ((serDt_mem_collated haddr).mpr ⟨rfl, start, plugin, hs, rfl⟩)
        ((serDt_mem_collated haddr').mpr ⟨hsame, start, plugin', hs', rfl⟩)
  · intro h k hk hk'
    cases k with
    | pluginDt plugin dateTime =>
      obtain ⟨start, plugin₁, hs, hplugin, rfl⟩ := pluginDt_mem_collated.mp hk
      obtain ⟨start', plugin₂, hs', hplugin', hsame⟩ := pluginDt_mem_collated.mp hk'
      obtain rfl := DateTime.str_inj hsame
      exact (h start' plugin₁ plugin₂ hs hs').1 (hplugin.trans hplugin'.symm)
    | serDt serverAddr dateTime =>
      obtain ⟨rfl, start, plugin, hs, rfl⟩ := (serDt_mem_collated haddr).mp hk
      obtain ⟨hsame, start', plugin', hs', hdate⟩ := (serDt_mem_collated haddr').mp hk'
      obtain rfl := DateTime.str_inj hdate
      exact (h start' plugin plugin' hs hs').2 hsame

/-- The keys of a file are all different if it spells its plugins in one way. -/
theorem nodup_collatedKey_iff {s : Server} (haddr : s.Numeric) :
    (s.queries.map Query.collatedKey).Nodup ↔ OneSpelling [s] := by
  have hkeys := nodup_keys_queries s
  have hinj := collatedKey_inj_iff (List.forall_mem_singleton.mpr haddr)
  rw [List.flatMap_singleton] at hinj
  rw [← hinj, List.nodup_map_iff_inj_on (List.Nodup.of_map _ hkeys)]
  refine ⟨fun h q hq q' hq' hsame ↦ congrArg Query.key (h q hq q' hq' hsame),
    fun h q hq q' hq' hsame ↦ ?_⟩
  exact List.inj_on_of_nodup_map hkeys hq hq' (h q hq q' hq' hsame)

/-! ## All of them -/

/-- Each file spells its plugins in one way, and any two are clear of each other. -/
structure AllClear (files : List Server) : Prop where
  /-- Each by itself. -/
  spelling : ∀ s ∈ files, OneSpelling [s]
  /-- Any two. -/
  clear : files.Pairwise Server.Clear

/-- Every row ends up in its table. -/
structure Kept (queries : List Query) : Prop where
  /-- The tables, which were empty, have exactly these rows. -/
  rows : ((Table.empty : CollatedDatabase).insertAll queries).1.rows = queries
  /-- No insert was refused. -/
  refused : ((Table.empty : CollatedDatabase).insertAll queries).2 = []

/-- **Nothing is lost exactly if all files are clear**, in whatever order the rows come. -/
theorem kept_iff {files : List Server} {inserts : List Query} (haddr : ∀ s ∈ files, s.Numeric)
    (h : inserts.Perm (files.flatMap Server.queries)) : Kept inserts ↔ AllClear files := by
  have hnodup : Kept inserts ↔ (inserts.map Query.collatedKey).Nodup :=
    ⟨fun h ↦ Table.insertAll_empty_iff.mp ⟨h.rows, h.refused⟩,
      fun h ↦ ⟨(Table.insertAll_empty_iff.mpr h).1, (Table.insertAll_empty_iff.mpr h).2⟩⟩
  rw [hnodup, (h.map _).nodup_iff, List.map_flatMap, List.nodup_flatMap]
  have hclear : files.Pairwise (fun s s' ↦ List.Disjoint (s.queries.map Query.collatedKey)
      (s'.queries.map Query.collatedKey)) ↔ files.Pairwise Server.Clear :=
    List.Pairwise.iff_of_mem fun hs hs' ↦ disjoint_keys_iff (haddr _ hs) (haddr _ hs')
  have hspelling : (∀ s ∈ files, (s.queries.map Query.collatedKey).Nodup) ↔
      ∀ s ∈ files, OneSpelling [s] :=
    forall₂_congr fun s hs ↦ nodup_collatedKey_iff (haddr s hs)
  exact ⟨fun ⟨hown, hother⟩ ↦ ⟨hspelling.mp hown, hclear.mp hother⟩,
    fun ⟨hown, hother⟩ ↦ ⟨hspelling.mpr hown, hclear.mpr hother⟩⟩

end ImgPredictor
