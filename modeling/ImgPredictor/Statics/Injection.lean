import ImgPredictor.Agreement
import ImgPredictor.Lib.Sql
import ImgPredictor.Statics.Keys

/-!
# What a log can put into a statement

`insert_db` pastes its values into the text of a statement, in quotes and unescaped, and most of a
line of the log is up to the client.  What saves it is how little of the line gets that far: the
plugin is a run of `\w`, the date has gone through `strptime`, and whatever key a request makes up,
what is under it is a counter.

* `IsInsert` is a statement the server reads as one of the two templates, with that many literals.
* `Query.Plain` is a row that is made of harmless values; the rows of a run are, by
  `plain_of_mem_queries`.
-/

set_option autoImplicit false

namespace ImgPredictor

open Bytes Sql

/-! ## The two templates -/

/-- An `insert` statement with its values left out. -/
structure Template where
  /-- The text up to and including the bracket before the values. -/
  head : Bytes
  /-- How many values there are. -/
  arity : ℕ
  /-- Where among them the counters are. -/
  counters : List ℕ

/-- The tokens of the statement, with these values. -/
def Template.tokens (t : Template) (values : List Bytes) : List Token :=
  t.head.map .byte ++ literals values ++ [.byte 41]

/-- The statement for `imaginx_log_statics`. -/
def logTemplate : Template where
  head := lit "insert into imaginx_log_statics " ++
    lit "\t\t\t\t(plugin,server_addr,push,pull,detect,sum,err,date_time) " ++
    lit "\t\t\t\tvalues ("
  arity := 8
  counters := [2, 3, 4, 5, 6]

/-- The statement for `imaginx_http_statics`. -/
def httpTemplate : Template where
  head := lit "insert into imaginx_http_statics " ++
    lit "\t\t\t(server_addr,sum,err,date_time) " ++ lit "\t\t\tvalues ("
  arity := 4
  counters := [1, 2]

/-- A decimal number. -/
def IsDecimal (value : Bytes) : Prop := value ≠ [] ∧ ∀ b ∈ value, isDigit b = true

/-- The server reads the statement as the template: as many quoted literals as it has values, none
with a quote or a backslash in it, and numbers where the counters are. -/
def IsInsert (t : Template) (statement : Bytes) : Prop :=
  ∃ values, Sql.tokens statement = some (t.tokens values) ∧ values.length = t.arity ∧
    (∀ v ∈ values, Clean v) ∧ ∀ i ∈ t.counters, ∀ v ∈ values[i]?, IsDecimal v

namespace Query

/-- The template a query fills in. -/
def template : Query → Template
  | .log .. => logTemplate
  | .http .. => httpTemplate

/-- The values it fills in. -/
def values : Query → List Bytes
  | .log plugin serverAddr push pull detect sum err dateTime =>
    [plugin, serverAddr] ++ [push, pull, detect, sum, err].map DateTime.decimal ++ [dateTime]
  | .http serverAddr sum err dateTime =>
    [serverAddr] ++ [sum, err].map DateTime.decimal ++ [dateTime]

theorem text_eq (q : Query) : q.text = q.template.head ++ quotes q.values ++ [41] := by
  rcases q with _ | _ <;> rfl

theorem length_values (q : Query) : q.values.length = q.template.arity := by
  rcases q with _ | _ <;> rfl

end Query

/-! ## Harmless values -/

/-- Values of a class of bytes that has neither quotes nor backslashes. -/
theorem clean_of_class {p : UInt8 → Bool} (hp : p 39 = false ∧ p 34 = false ∧ p 92 = false)
    {v : Bytes} (hv : ∀ b ∈ v, p b = true) : Clean v := by
  have hnot : ∀ c, p c = false → c ∉ v := fun c hc hmem ↦ by simp [hv c hmem] at hc
  exact ⟨hnot 39 hp.1, hnot 34 hp.2.1, hnot 92 hp.2.2⟩

theorem isDecimal_decimal (n : ℕ) : IsDecimal (DateTime.decimal n) := by
  refine ⟨?_, DateTime.isDigit_decimal n⟩
  rw [DateTime.decimal_eq]
  exact List.append_ne_nil_of_right_ne_nil _ (List.cons_ne_nil _ _)

theorem IsDecimal.clean {v : Bytes} (h : IsDecimal v) : Clean v := clean_of_class (by decide) h.2

theorem IsWord.clean {v : Bytes} (h : IsWord v) : Clean v := clean_of_class (by decide) h.2

/-- The bytes of a written date. -/
def isDateByte (b : UInt8) : Bool := isDigit b || b == 45 || b == 32 || b == 58

theorem clean_str (t : DateTime) : Clean t.str := by
  have hpadded : ∀ width n, ∀ b ∈ DateTime.padded width n, isDateByte b = true := by
    intro width n b hb
    have hdigit : isDigit b = true := by
      by_contra hno
      exact DateTime.notMem_padded width n (by simpa using hno) hb
    simp [isDateByte, hdigit]
  have hlit : ∀ b ∈ lit "-" ++ lit " " ++ lit ":", isDateByte b = true := by decide +kernel
  refine clean_of_class (p := isDateByte) (by decide) fun b hb ↦ ?_
  simp only [DateTime.str, List.mem_append] at hb hlit
  grind

/-- A row of harmless values: the plugin is a word, the address is the server's, and the date is
one. -/
def Query.Plain (localSrvAddr : Bytes) : Query → Prop
  | .log plugin serverAddr _ _ _ _ _ dateTime =>
    IsWord plugin ∧ serverAddr = localSrvAddr ∧ ∃ t : DateTime, dateTime = t.str
  | .http serverAddr _ _ dateTime => serverAddr = localSrvAddr ∧ ∃ t : DateTime, dateTime = t.str

theorem logTemplate_plain : ∀ b ∈ logTemplate.head, isQuote b = false := by decide +kernel

theorem httpTemplate_plain : ∀ b ∈ httpTemplate.head, isQuote b = false := by decide +kernel

theorem clean_values {localSrvAddr : Bytes} (haddr : Clean localSrvAddr) {q : Query}
    (hq : q.Plain localSrvAddr) : ∀ v ∈ q.values, Clean v := by
  have hdecimal := fun n ↦ (isDecimal_decimal n).clean
  rcases q with ⟨plugin, serverAddr, push, pull, detect, sum, err, dateTime⟩ |
    ⟨serverAddr, sum, err, dateTime⟩
  · obtain ⟨hplugin, hsrv, t, hdate⟩ := hq
    simp [Query.values, hplugin.clean, hsrv, hdate, haddr, hdecimal, clean_str]
  · obtain ⟨hsrv, t, hdate⟩ := hq
    simp [Query.values, hsrv, hdate, haddr, hdecimal, clean_str]

/-- **A row of harmless values is read as the template it was made from.** -/
theorem isInsert_of_plain {localSrvAddr : Bytes} (haddr : Clean localSrvAddr) {q : Query}
    (hq : q.Plain localSrvAddr) : IsInsert q.template q.text := by
  have hclean := clean_values haddr hq
  have hhead : ∀ b ∈ q.template.head, isQuote b = false := by
    rcases q with _ | _
    · exact logTemplate_plain
    · exact httpTemplate_plain
  refine ⟨q.values, ?_, q.length_values, hclean, ?_⟩
  · rw [q.text_eq, tokens_values hhead (by decide +kernel) hclean]
    rfl
  · rcases q with _ | _ <;>
      simp [Query.template, logTemplate, httpTemplate, Query.values, isDecimal_decimal]

/-! ## The rows of a run -/

/-- **A request names its plugin by a word.** -/
theorem isWord_of_requestOf {request plugin src : Bytes}
    (h : requestOf request = some (plugin, src)) : IsWord plugin := by
  rw [requestOf_eq, Option.map_eq_some_iff] at h
  obtain ⟨caps, hcaps, h⟩ := h
  rw [requestPat_eq, Regex.captures_many_seq] at hcaps
  obtain ⟨cut, -, hcut⟩ := List.exists_of_findSome?_eq_some hcaps
  obtain ⟨plugin', src', rest, -, hword, -, -, rfl⟩ := (captures_pair_iff cut.2 caps).mp hcut
  obtain ⟨rfl, -⟩ := Prod.mk.inj h
  exact hword

theorem plain_of_mem_insertDb {localSrvAddr : Bytes} {startDt : DateTime} {c : Counts}
    (hstamp : c.Stamped localSrvAddr startDt) (hwords : ∀ plugin ∈ c.res, IsWord plugin)
    {q : Query} (hq : q ∈ insertDb c) : q.Plain localSrvAddr := by
  rw [insertDb, List.mem_append] at hq
  rcases hq with hq | hq
  · obtain ⟨p, hp, rfl⟩ := List.mem_map.mp hq
    obtain ⟨hdate, haddr⟩ := hstamp.of_mem hp
    have hmem : p.1 ∈ c.res := Std.ExtTreeMap.mem_iff_isSome_getElem?.mpr (by
      rw [Std.ExtTreeMap.mem_toList_iff_getElem?_eq_some.mp hp]
      rfl)
    exact ⟨hwords _ hmem, haddr, startDt, hdate⟩
  · rcases hl : c.res.toList.getLast? with _ | p
    · rw [hl] at hq
      exact absurd hq (by simp)
    · rw [hl, List.mem_singleton] at hq
      subst hq
      obtain ⟨hdate, haddr⟩ := hstamp.of_mem (List.mem_of_getLast? hl)
      exact ⟨haddr, startDt, hdate⟩

/-- **Every row of a run is made of harmless values.** -/
theorem plain_of_mem_queries (localSrvAddr : Bytes) (stepSeconds : ℤ) (lines : List Bytes) :
    ∀ q ∈ (logStatics localSrvAddr stepSeconds lines).queries, q.Plain localSrvAddr := by
  intro q hq
  rw [logStatics_eq, Run.queries, List.flatMap_map, List.mem_flatMap] at hq
  obtain ⟨w, -, hq⟩ := hq
  have hwords : ∀ plugin ∈ (countWindow localSrvAddr w).res, IsWord plugin := by
    intro plugin hplugin
    obtain ⟨e, -, src, hnamed⟩ := mem_countWindow.mp hplugin
    exact isWord_of_requestOf hnamed
  rcases w with _ | ⟨start, w⟩
  · -- a window without lines has no rows
    have hnone : (Counts.empty.res.toList) = [] := Std.ExtTreeMap.toList_eq_nil_iff.mpr rfl
    exact absurd hq (by simp [countWindow, insertDb, hnone])
  · exact plain_of_mem_insertDb (stamped_countWindow start w) hwords hq

/-- The server reads every statement of the run as the template it was made from. -/
def Run.Safe (run : Run) : Prop := ∀ q ∈ run.queries, IsInsert q.template q.text

/-- **No statement can be broken out of**, whatever the log says. -/
theorem logStatics_safe {localSrvAddr : Bytes} (haddr : ∀ b ∈ localSrvAddr, isDigit b ∨ b = 46)
    (stepSeconds : ℤ) (lines : List Bytes) : (logStatics localSrvAddr stepSeconds lines).Safe := by
  have hclean : Clean localSrvAddr :=
    clean_of_class (p := fun b ↦ isDigit b || b == 46) (by decide) (by simpa using haddr)
  exact fun q hq ↦ isInsert_of_plain hclean (plain_of_mem_queries _ _ _ q hq)

/-- A request that names a counter and goes on with a quote. -/
theorem logStatics_safe_quote :
    (logStatics (lit "10.0.0.1") 600 [sampleLine "10:25:00" "0" "plugin=a&src=sum'); --"]).Safe :=
  logStatics_safe (by decide +kernel) 600 _

end ImgPredictor
