import ImgPredictor.Statics.Collation
import ImgPredictor.Statics.Injection

/-!
# The tables and the texts

`nginx_log_statics.sql` declares the two tables, and `insert_db` fills them with statements that
are texts.  The results about what the tables hold are stated for rows, `Query`, and for their
keys; here the texts are read as a database would read them, with the names of the columns next to
the values.

`stored_rows`: **the database that executes the texts holds the rows**, each under its key, as long
as they fit the columns, and never a row that does not fit as it stands.

What is assumed of MySQL is in `ColumnType.Takes` and `Engine`:

* `varchar(n)` takes texts of up to `n` characters.  All texts of the script are ASCII, where a
  character is a byte.
* `int unsigned` takes numbers below `2 ^ 32`.
* `timestamp` takes the times from a second after the beginning of 1970 to `2 ^ 31 - 1` seconds
  after it, in the time zone of the session, which is taken to be a fixed number of seconds away
  from UTC, and the zero date.
* What becomes of other values is up to the mode of the server: in strict mode the row is refused,
  otherwise the value is cut, clipped or zeroed.  An `Engine` can do either.
* A column that a statement does not name is left out of the row.  The statements of the script
  name all but `id`.
-/

set_option autoImplicit false

namespace ImgPredictor

open Bytes Sql UniqueKey

/-! ## The declarations -/

/-- The types of the columns. -/
inductive ColumnType where
  /-- `int(10) unsigned` -/
  | unsigned
  /-- `varchar` of a width. -/
  | varchar (width : ℕ)
  /-- `timestamp` -/
  | timestamp

/-- The beginning of 1970. -/
def epoch : DateTime := ⟨1970, 1, 1, 0, 0, 0, by decide, by decide⟩

/-- A time that a `timestamp` can hold, in a time zone that is `zone` seconds east of UTC. -/
def IsTimestamp (zone : ℤ) (t : DateTime) : Prop :=
  1 ≤ t.since epoch - zone ∧ t.since epoch - zone < 2 ^ 31

/-- The date that is none, the default of the columns. -/
def zeroDate : Bytes := lit "0000-00-00 00:00:00"

/-- A column can hold a value. -/
def ColumnType.Takes (zone : ℤ) : ColumnType → Bytes → Prop
  | .unsigned, v => ∃ n < 2 ^ 32, v = DateTime.decimal n
  | .varchar width, v => v.length ≤ width
  | .timestamp, v => v = zeroDate ∨ ∃ t, IsTimestamp zone t ∧ v = t.str

/-- What a column compares of a value: a text has its collation. -/
def ColumnType.compared : ColumnType → Bytes → Bytes
  | .varchar _, v => generalCi v
  | _, v => v

/-- A table, without the `id` that counts its rows. -/
structure Schema where
  /-- The name. -/
  name : Bytes
  /-- The columns. -/
  columns : List (Bytes × ColumnType)
  /-- The columns of the unique key. -/
  uniqueKey : List Bytes

/-- `imaginx_log_statics` -/
def imaginxLogStatics : Schema where
  name := lit "imaginx_log_statics"
  columns := [(lit "plugin", .varchar 128), (lit "server_addr", .varchar 128),
    (lit "push", .unsigned), (lit "pull", .unsigned), (lit "detect", .unsigned),
    (lit "sum", .unsigned), (lit "err", .unsigned), (lit "date_time", .timestamp)]
  uniqueKey := [lit "plugin", lit "date_time"]

/-- `imaginx_http_statics` -/
def imaginxHttpStatics : Schema where
  name := lit "imaginx_http_statics"
  columns := [(lit "server_addr", .varchar 128), (lit "sum", .unsigned), (lit "err", .unsigned),
    (lit "date_time", .timestamp)]
  uniqueKey := [lit "server_addr", lit "date_time"]

/-- The declarations of `nginx_log_statics.sql`. -/
def schemas : List Schema := [imaginxLogStatics, imaginxHttpStatics]

/-- The table of a row. -/
def schemaOf (row : Insert) : Option Schema := schemas.find? (·.name == row.table)

/-- The columns of the unique key. -/
def Schema.keyColumns (schema : Schema) : List (Bytes × ColumnType) :=
  schema.columns.filter fun column ↦ schema.uniqueKey.contains column.1

/-- What is compared of a row: the values under the unique key of its table. -/
def uniqueKeyOf (row : Insert) : Bytes × List (Option Bytes) :=
  (row.table, (((schemaOf row).map Schema.keyColumns).getD []).map fun column ↦
    (row.values.lookup column.1).map column.2.compared)

/-- The row gives every column of its table a value that it can hold. -/
def Fits (zone : ℤ) (row : Insert) : Prop :=
  ∃ schema ∈ schemaOf row, row.values.map Prod.fst = schema.columns.map Prod.fst ∧
    ∀ p ∈ row.values, ∃ type ∈ schema.columns.lookup p.1, type.Takes zone p.2

/-- How the server puts a value into a column. -/
structure Engine where
  /-- The time zone of its sessions, in seconds east of UTC. -/
  zone : ℤ
  /-- What is stored of a value; `none` if the row is refused for it. -/
  store : ColumnType → Bytes → Option Bytes
  /-- A value that the column can hold is stored as it stands. -/
  stored : ∀ type v, type.Takes zone v → store type v = some v
  /-- Whatever is stored, the column can hold. -/
  takes : ∀ type v w, store type v = some w → type.Takes zone w

open Classical in
/-- A server in strict mode: it refuses what a column cannot hold. -/
noncomputable def Engine.strict (zone : ℤ) : Engine where
  zone := zone
  store type v := if type.Takes zone v then some v else none
  stored _ _ h := if_pos h
  takes type v w h := by
    rw [Option.ite_none_right_eq_some] at h
    exact Option.some.inj h.2 ▸ h.1

/-- What is stored of the values of a row, column by column. -/
def Engine.storeAll (engine : Engine) (columns : List (Bytes × ColumnType)) :
    List (Bytes × Bytes) → Option (List (Bytes × Bytes))
  | [] => some []
  | p :: values =>
    (columns.lookup p.1).bind fun type ↦
      (engine.store type p.2).bind fun v ↦
        (engine.storeAll columns values).map ((p.1, v) :: ·)

/-- What is stored of a row. -/
def Engine.storeRow (engine : Engine) (row : Insert) : Option Insert :=
  (schemaOf row).bind fun schema ↦
    (engine.storeAll schema.columns row.values).map fun values ↦ ⟨row.table, values⟩

/-- The tables, filled by statements.  What cannot be read is not executed. -/
def execute (engine : Engine) (statements : List Bytes) : Table uniqueKeyOf :=
  (Table.empty.insertAll
    (statements.filterMap fun statement ↦ (readInsert statement).bind engine.storeRow)).1

/-! ## The rows -/

/-- The table of a query. -/
def Query.schema : Query → Schema
  | .log .. => imaginxLogStatics
  | .http .. => imaginxHttpStatics

/-- The row of a query. -/
def Query.row (q : Query) : Insert :=
  ⟨q.schema.name, (q.schema.columns.map Prod.fst).zip q.values⟩

/-- The row fits its columns: the texts are short enough, the numbers small enough, and the time is
one that a `timestamp` can hold. -/
def Query.InRange (zone : ℤ) : Query → Prop
  | .log plugin serverAddr push pull detect sum err dateTime =>
    plugin.length ≤ 128 ∧ serverAddr.length ≤ 128 ∧
      (∀ n ∈ [push, pull, detect, sum, err], n < 2 ^ 32) ∧
      ∃ t, IsTimestamp zone t ∧ dateTime = t.str
  | .http serverAddr sum err dateTime =>
    serverAddr.length ≤ 128 ∧ (∀ n ∈ [sum, err], n < 2 ^ 32) ∧
      ∃ t, IsTimestamp zone t ∧ dateTime = t.str

/-- **A row of harmless values is read back from its text.** -/
theorem readInsert_of_plain {localSrvAddr : Bytes} (haddr : Clean localSrvAddr) {q : Query}
    (hq : q.Plain localSrvAddr) : readInsert q.text = some q.row := by
  have hlog : lexemes (logTemplate.head.map .byte)
      = insertHead imaginxLogStatics.name (imaginxLogStatics.columns.map Prod.fst) := by
    decide +kernel
  have hhttp : lexemes (httpTemplate.head.map .byte)
      = insertHead imaginxHttpStatics.name (imaginxHttpStatics.columns.map Prod.fst) := by
    decide +kernel
  have hclean := clean_values haddr hq
  rw [q.text_eq]
  rcases q with _ | _
  · exact readInsert_eq hlog logTemplate_plain hclean (List.cons_ne_nil _ _) rfl
  · exact readInsert_eq hhttp httpTemplate_plain hclean (List.cons_ne_nil _ _) rfl

/-! ## What fits -/

theorem decimal_injective {n m : ℕ} (h : DateTime.decimal n = DateTime.decimal m) : n = m := by
  rw [← DateTime.spelled_decimal n, h, DateTime.spelled_decimal]

theorem takes_unsigned {zone : ℤ} (n : ℕ) :
    ColumnType.unsigned.Takes zone (DateTime.decimal n) ↔ n < 2 ^ 32 := by
  constructor
  · rintro ⟨m, hm, h⟩
    exact decimal_injective h ▸ hm
  · exact fun h ↦ ⟨n, h, rfl⟩

theorem takes_varchar {zone : ℤ} {width : ℕ} {v : Bytes} :
    (ColumnType.varchar width).Takes zone v ↔ v.length ≤ width := .rfl

/-- No time is written as the zero date: there is no year zero. -/
theorem str_ne_zeroDate (t : DateTime) : t.str ≠ zeroDate := by
  intro h
  have hzero : zeroDate = DateTime.padded 4 0 ++ 45 :: lit "00-00 00:00:00" := by decide
  rw [t.str_eq, hzero] at h
  have hyear := (DateTime.padded_append_inj rfl h).1
  exact absurd t.date.1 (by omega)

theorem takes_timestamp {zone : ℤ} (t : DateTime) :
    ColumnType.timestamp.Takes zone t.str ↔ ∃ t', IsTimestamp zone t' ∧ t.str = t'.str :=
  or_iff_right (str_ne_zeroDate t)

/-- Where the values come in the order of the columns, each is looked up at its place. -/
theorem forall_lookup_iff {columns : List (Bytes × ColumnType)} {values : List (Bytes × Bytes)}
    (hnodup : (columns.map Prod.fst).Nodup) (hnames : values.map Prod.fst = columns.map Prod.fst)
    (P : ColumnType → Bytes → Prop) :
    (∀ p ∈ values, ∃ type ∈ columns.lookup p.1, P type p.2) ↔
      List.Forall₂ (fun p column ↦ P column.2 p.2) values columns := by
  induction columns generalizing values with
  | nil =>
    obtain rfl := List.map_eq_nil_iff.mp hnames
    simp
  | cons column columns ih =>
    cases values with
    | nil => exact absurd hnames (by simp)
    | cons p values =>
      obtain ⟨hname, hrest⟩ := List.cons.inj hnames
      rw [List.map_cons, List.nodup_cons] at hnodup
      have hlater : ∀ q ∈ values, (column :: columns).lookup q.1 = columns.lookup q.1 := by
        intro q hq
        have hne : q.1 ≠ column.1 := by
          intro heq
          refine hnodup.1 ?_
          rw [← hrest, ← heq]
          exact List.mem_map_of_mem hq
        rw [List.lookup_cons, beq_false_of_ne hne]
      rw [List.forall_mem_cons, List.forall₂_cons, ← ih hnodup.2 hrest, List.lookup_cons, hname,
        beq_self_eq_true]
      refine and_congr (by simp) (forall₂_congr fun q hq ↦ ?_)
      rw [hlater q hq]

theorem nodup_columns (q : Query) : (q.schema.columns.map Prod.fst).Nodup := by
  have hlog : (imaginxLogStatics.columns.map Prod.fst).Nodup := by decide +kernel
  have hhttp : (imaginxHttpStatics.columns.map Prod.fst).Nodup := by decide +kernel
  cases q with
  | log => exact hlog
  | http => exact hhttp

theorem schemaOf_row (q : Query) : schemaOf q.row = some q.schema := by cases q <;> rfl

theorem names_row (q : Query) : q.row.values.map Prod.fst = q.schema.columns.map Prod.fst := by
  cases q <;> rfl

/-- **A row fits its table exactly if it is in range.** -/
theorem fits_iff {localSrvAddr : Bytes} {q : Query} (hq : q.Plain localSrvAddr) (zone : ℤ) :
    Fits zone q.row ↔ q.InRange zone := by
  rw [Fits, schemaOf_row]
  simp only [Option.mem_def, Option.some.injEq, exists_eq_left', names_row, true_and]
  refine (forall_lookup_iff (nodup_columns q) (names_row q) _).trans ?_
  rcases q with ⟨plugin, serverAddr, push, pull, detect, sum, err, dateTime⟩ |
    ⟨serverAddr, sum, err, dateTime⟩
  · obtain ⟨-, -, t, rfl⟩ := hq
    simp [Query.row, Query.schema, imaginxLogStatics, Query.values, Query.InRange, takes_unsigned,
      takes_varchar, takes_timestamp, and_assoc]
  · obtain ⟨-, t, rfl⟩ := hq
    simp [Query.row, Query.schema, imaginxHttpStatics, Query.values, Query.InRange, takes_unsigned,
      takes_varchar, takes_timestamp, and_assoc]

/-- Values that their columns can hold are stored as they stand. -/
theorem storeAll_of_takes (engine : Engine) {columns : List (Bytes × ColumnType)}
    {values : List (Bytes × Bytes)}
    (h : ∀ p ∈ values, ∃ type ∈ columns.lookup p.1, type.Takes engine.zone p.2) :
    engine.storeAll columns values = some values := by
  induction values with
  | nil => rfl
  | cons p values ih =>
    rw [List.forall_mem_cons] at h
    obtain ⟨⟨type, htype, htakes⟩, hrest⟩ := h
    rw [Engine.storeAll, Option.mem_def.mp htype, Option.bind_some, engine.stored type _ htakes,
      Option.bind_some, ih hrest, Option.map_some]

/-- What is stored, the columns can hold. -/
theorem takes_of_storeAll {engine : Engine} {columns : List (Bytes × ColumnType)}
    {values stored : List (Bytes × Bytes)} (h : engine.storeAll columns values = some stored) :
    ∀ p ∈ stored, ∃ type ∈ columns.lookup p.1, type.Takes engine.zone p.2 := by
  induction values generalizing stored with
  | nil =>
    obtain rfl := Option.some.inj h
    exact fun p hp ↦ absurd hp List.not_mem_nil
  | cons p values ih =>
    obtain ⟨type, htype, h⟩ := Option.bind_eq_some_iff.mp h
    obtain ⟨v, hv, h⟩ := Option.bind_eq_some_iff.mp h
    obtain ⟨rest, hrest, rfl⟩ := Option.map_eq_some_iff.mp h
    exact List.forall_mem_cons.mpr ⟨⟨type, htype, engine.takes type p.2 v hv⟩, ih hrest⟩

/-- **A row that fits is stored as it stands**, and no other row is stored so. -/
theorem storeRow_of_fits {engine : Engine} {row : Insert} (h : Fits engine.zone row) :
    engine.storeRow row = some row := by
  obtain ⟨schema, hschema, -, htakes⟩ := h
  rw [Engine.storeRow, Option.mem_def.mp hschema, Option.bind_some, storeAll_of_takes engine htakes,
    Option.map_some]

theorem fits_of_storeRow {engine : Engine} {row stored : Insert}
    (h : engine.storeRow row = some stored) {schema : Schema}
    (hschema : schemaOf stored = some schema)
    (hnames : stored.values.map Prod.fst = schema.columns.map Prod.fst) :
    Fits engine.zone stored := by
  obtain ⟨schema', hschema', h⟩ := Option.bind_eq_some_iff.mp h
  obtain ⟨values, hvalues, rfl⟩ := Option.map_eq_some_iff.mp h
  obtain rfl : schema' = schema := Option.some.inj (hschema'.symm.trans hschema)
  exact ⟨schema', hschema', hnames, takes_of_storeAll hvalues⟩

/-! ## What is stored -/

/-- Rows have the same key exactly if their queries have. -/
theorem uniqueKeyOf_row_eq_iff (q q' : Query) :
    uniqueKeyOf q.row = uniqueKeyOf q'.row ↔ q.collatedKey = q'.collatedKey := by
  have hlog : ∀ (plugin serverAddr : Bytes) (push pull detect sum err : ℕ) (dateTime : Bytes),
      uniqueKeyOf (Query.log plugin serverAddr push pull detect sum err dateTime).row
        = (imaginxLogStatics.name, [some (generalCi plugin), some dateTime]) :=
    fun _ _ _ _ _ _ _ _ ↦ rfl
  have hhttp : ∀ (serverAddr : Bytes) (sum err : ℕ) (dateTime : Bytes),
      uniqueKeyOf (Query.http serverAddr sum err dateTime).row
        = (imaginxHttpStatics.name, [some (generalCi serverAddr), some dateTime]) :=
    fun _ _ _ _ ↦ rfl
  have hname : imaginxLogStatics.name ≠ imaginxHttpStatics.name := by decide +kernel
  rcases q with _ | _ <;> rcases q' with _ | _ <;>
    simp [hlog, hhttp, hname, Ne.symm hname, Query.collatedKey, Query.key, KeyValue.collated]

/-- The row says what the query is. -/
theorem row_injective : Function.Injective Query.row := by
  have hname : imaginxLogStatics.name ≠ imaginxHttpStatics.name := by decide +kernel
  intro q q' h
  have htable : q.row.table = q'.row.table := congrArg Insert.table h
  have hvalues : q.row.values.map Prod.snd = q'.row.values.map Prod.snd :=
    congrArg (fun row ↦ row.values.map Prod.snd) h
  rcases q with ⟨plugin, serverAddr, push, pull, detect, sum, err, dateTime⟩ |
      ⟨serverAddr, sum, err, dateTime⟩ <;>
    rcases q' with ⟨plugin', serverAddr', push', pull', detect', sum', err', dateTime'⟩ |
      ⟨serverAddr', sum', err', dateTime'⟩
  · change (Query.log plugin serverAddr push pull detect sum err dateTime).values
      = (Query.log plugin' serverAddr' push' pull' detect' sum' err' dateTime').values at hvalues
    simp only [Query.values, List.map_cons, List.map_nil, List.cons_append, List.nil_append,
      List.cons.injEq, and_true] at hvalues
    obtain ⟨rfl, rfl, hpush, hpull, hdetect, hsum, herr, rfl⟩ := hvalues
    rw [decimal_injective hpush, decimal_injective hpull, decimal_injective hdetect,
      decimal_injective hsum, decimal_injective herr]
  · exact absurd htable hname
  · exact absurd htable hname.symm
  · change (Query.http serverAddr sum err dateTime).values
      = (Query.http serverAddr' sum' err' dateTime').values at hvalues
    simp only [Query.values, List.map_cons, List.map_nil, List.cons_append, List.nil_append,
      List.cons.injEq, and_true] at hvalues
    obtain ⟨rfl, hsum, herr, rfl⟩ := hvalues
    rw [decimal_injective hsum, decimal_injective herr]

theorem clean_addr {localSrvAddr : Bytes} (h : ∀ b ∈ localSrvAddr, isDigit b ∨ b = 46) :
    Clean localSrvAddr :=
  clean_of_class (p := fun b ↦ isDigit b || b == 46) (by decide) (by simpa using h)

/-- The statement is one of some run of the script, on a server with an address. -/
def Issued (q : Query) : Prop :=
  ∃ (localSrvAddr : Bytes) (stepSeconds : ℤ) (lines : List Bytes),
    (∀ b ∈ localSrvAddr, isDigit b ∨ b = 46) ∧
      q ∈ (logStatics localSrvAddr stepSeconds lines).queries

/-- **The database that executes the texts holds the rows**, whatever servers the statements come
from and in whatever order, if all of them are in range; a row that is not is never held as it
stands. -/
theorem stored_rows (engine : Engine) {inserts : List Query} (h : ∀ q ∈ inserts, Issued q) :
    ((∀ q ∈ inserts, q.InRange engine.zone) →
      (execute engine (inserts.map Query.text)).rows
        = ((Table.empty : CollatedDatabase).insertAll inserts).1.rows.map Query.row) ∧
      (∀ q ∈ inserts, ¬q.InRange engine.zone →
        q.row ∉ (execute engine (inserts.map Query.text)).rows) ∧
      ∀ q ∈ inserts, ∀ q' ∈ inserts, q.text = q'.text → q = q' := by
  have hplain : ∀ q ∈ inserts, ∃ localSrvAddr, Clean localSrvAddr ∧ q.Plain localSrvAddr := by
    intro q hq
    obtain ⟨localSrvAddr, stepSeconds, lines, haddr, hmem⟩ := h q hq
    exact ⟨localSrvAddr, clean_addr haddr, plain_of_mem_queries _ _ _ q hmem⟩
  have hread : ∀ q ∈ inserts, readInsert q.text = some q.row := by
    intro q hq
    obtain ⟨_, haddr, hq⟩ := hplain q hq
    exact readInsert_of_plain haddr hq
  refine ⟨fun hrange ↦ ?_, fun q hq hrange hmem ↦ ?_, fun q hq q' hq' htext ↦ ?_⟩
  · have hrows : (inserts.map Query.text).filterMap
        (fun statement ↦ (readInsert statement).bind engine.storeRow) = inserts.map Query.row := by
      rw [List.filterMap_map, ← List.filterMap_eq_map]
      refine List.filterMap_congr fun q hq ↦ ?_
      obtain ⟨_, -, hplain⟩ := hplain q hq
      rw [Function.comp_apply, hread q hq, Option.bind_some,
        storeRow_of_fits ((fits_iff hplain _).mpr (hrange q hq))]
      rfl
    rw [execute, hrows]
    exact (Table.insertAll_map (fun q _ q' _ ↦ uniqueKeyOf_row_eq_iff q q') rfl).1
  · obtain ⟨_, -, hq⟩ := hplain q hq
    rw [execute] at hmem
    have hstored := (Table.rows_insertAll_sublist Table.empty _).subset hmem
    obtain ⟨statement, -, hstatement⟩ := List.mem_filterMap.mp hstored
    obtain ⟨row, -, hrow⟩ := Option.bind_eq_some_iff.mp hstatement
    exact hrange ((fits_iff hq _).mp (fits_of_storeRow hrow (schemaOf_row q) (names_row q)))
  · refine row_injective (Option.some.inj ?_)
    rw [← hread q hq, htext, hread q' hq']

/-- A log in which a request tries to end the statement. -/
def quoteLines : List Bytes := [sampleLine "10:25:00" "0" "plugin=a&src=sum'); --"]

theorem queries_quoteLines : (logStatics (lit "10.0.0.1") 600 quoteLines).queries
    = [.log (lit "a") (lit "10.0.0.1") 0 0 0 2 1 (sampleTime 10 25 0).str,
      .http (lit "10.0.0.1") 1 1 (sampleTime 10 25 0).str] := by
  unfold quoteLines
  simp only [sampleLine_eq]
  decide +kernel

/-- A server in strict mode, eight hours east, holds its rows. -/
theorem stored_rows_quote :
    (execute (.strict 28800)
        ((logStatics (lit "10.0.0.1") 600 quoteLines).queries.map Query.text)).rows
      = ((Table.empty : CollatedDatabase).insertAll
          (logStatics (lit "10.0.0.1") 600 quoteLines).queries).1.rows.map Query.row := by
  refine (stored_rows (.strict 28800) fun _ hq ↦ ⟨_, _, _, by decide +kernel, hq⟩).1 ?_
  have htime : IsTimestamp 28800 (sampleTime 10 25 0) := ⟨by decide +kernel, by decide +kernel⟩
  rw [queries_quoteLines]
  exact List.forall_mem_cons.mpr
    ⟨⟨by decide +kernel, by decide +kernel, by decide, _, htime, rfl⟩,
      List.forall_mem_singleton.mpr ⟨by decide +kernel, by decide, _, htime, rfl⟩⟩

end ImgPredictor
