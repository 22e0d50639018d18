import ImgPredictor.Lib.Lists
import ImgPredictor.Statics.Run

/-!
# Every request is in the totals

The row of `imaginx_http_statics` is inserted with variables of the loop over the plugins, and not
at all if there is none.  A window in which no line names a plugin is closed all the same, and its
lines are gone.  `conserved_iff` says that nothing else gets lost.
-/

set_option autoImplicit false

namespace ImgPredictor

open Bytes Lists

/-! ## The totals -/

/-- `sum` of a row of `imaginx_http_statics`. -/
def Query.httpSum : Query → ℕ
  | .http _ sum _ _ => sum
  | .log .. => 0

/-- `err` of a row of `imaginx_http_statics`. -/
def Query.httpErr : Query → ℕ
  | .http _ _ err _ => err
  | .log .. => 0

/-- The line matches the line pattern. -/
def isLogLine (line : Bytes) : Bool := (linePat.first line).isSome

/-- The line is one of those that count as errors. -/
def isErrorLine (line : Bytes) : Bool :=
  match readLine line with
  | some (.ok e) => e.isError
  | _ => false

/-- The totals of `imaginx_http_statics` add up to the lines of the log. -/
structure Conserved (localSrvAddr : Bytes) (stepSeconds : ℤ) (lines : List Bytes) : Prop where
  /-- `sum` -/
  sum : ((logStatics localSrvAddr stepSeconds lines).queries.map Query.httpSum).sum
    = lines.countP isLogLine
  /-- `err` -/
  err : ((logStatics localSrvAddr stepSeconds lines).queries.map Query.httpErr).sum
    = lines.countP isErrorLine

/-- What is read of a line. -/
def entryOf (line : Bytes) : Option Entry := (readLine line).bind Except.toOption

/-- The lines that are read. -/
def entriesOf (lines : List Bytes) : List Entry := lines.filterMap entryOf

section

variable {line : Bytes} {e : Entry}

theorem entryOf_of_skip (h : readLine line = none) : entryOf line = none := by
  rw [entryOf, h, Option.bind_none]

theorem entryOf_of_ok (h : readLine line = some (.ok e)) : entryOf line = some e := by
  rw [entryOf, h]
  rfl

theorem readLine_of_entryOf (h : entryOf line = some e) : readLine line = some (.ok e) := by
  obtain ⟨r, hr, hre⟩ := Option.bind_eq_some_iff.mp h
  cases r with
  | error err => exact absurd hre (by simp [Except.toOption])
  | ok e' =>
    obtain rfl := Option.some.inj hre
    exact hr

theorem entriesOf_append (lines lines' : List Bytes) :
    entriesOf (lines ++ lines') = entriesOf lines ++ entriesOf lines' :=
  List.filterMap_append

theorem entriesOf_cons_none (h : entryOf line = none) (lines : List Bytes) :
    entriesOf (line :: lines) = entriesOf lines :=
  List.filterMap_cons_none h

theorem entriesOf_cons_some (h : entryOf line = some e) (lines : List Bytes) :
    entriesOf (line :: lines) = e :: entriesOf lines :=
  List.filterMap_cons_some h

end

/-- A run without exceptions gets to all lines that match. -/
theorem seen_eq {lines : List Bytes} (h : (seen lines).2 = none) :
    (seen lines).1 = entriesOf lines ∧ lines.countP isLogLine = (entriesOf lines).length ∧
      lines.countP isErrorLine = (entriesOf lines).countP Entry.isError := by
  induction lines with
  | nil => exact ⟨rfl, rfl, rfl⟩
  | cons line lines ih =>
    have hlog : isLogLine line = (readLine line).isSome := by
      rw [isLogLine, readLine, Option.isSome_map]
    rw [List.countP_cons, List.countP_cons, hlog, isErrorLine]
    cases hline : readLine line with
    | none =>
      rw [seen_cons_skip hline] at h ⊢
      rw [entriesOf_cons_none (entryOf_of_skip hline)]
      exact ih h
    | some r =>
      cases r with
      | error e =>
        rw [seen_cons_error hline] at h
        exact absurd h (by simp)
      | ok entry =>
        cases hf : entry.fault with
        | some e =>
          rw [seen_cons_fault hline hf] at h
          exact absurd h (by simp)
        | none =>
          rw [seen_cons_ok hline hf] at h ⊢
          obtain ⟨hseen, hlen, herr⟩ := ih h
          rw [entriesOf_cons_some (entryOf_of_ok hline), hlen, herr, List.countP_cons]
          exact ⟨congrArg (entry :: ·) hseen, rfl, rfl⟩

/-! ## The rows of a window -/

theorem sum_insertDb {f : Query → ℕ} {c : Counts} {n : ℕ} (hlog : ∀ p r, f (logRow p r) = 0)
    (hhttp : ∀ a d, f (.http a c.sum c.err d) = n) :
    ((insertDb c).map f).sum = if 0 < c.res.size then n else 0 := by
  have hzero : ((c.res.toList.map fun p ↦ logRow p.1 p.2).map f).sum = 0 := by
    simp [hlog, Function.comp_def]
  rw [insertDb, List.map_append, List.sum_append, hzero, Nat.zero_add,
    ← Std.ExtTreeMap.length_toList]
  cases hl : c.res.toList.getLast? with
  | none =>
    rw [List.getLast?_eq_none_iff.mp hl]
    rfl
  | some p =>
    obtain ⟨l, hl⟩ := List.getLast?_eq_some_iff.mp hl
    rw [hl, if_pos (by simp)]
    simp [hhttp]

theorem sum_err_countWindow (localSrvAddr : Bytes) (w : List Entry) :
    (countWindow localSrvAddr w).sum = w.length ∧
      (countWindow localSrvAddr w).err = w.countP Entry.isError := by
  have hfold : ∀ (startDt : DateTime) (w : List Entry) (c : Counts),
      (w.foldl (tally localSrvAddr startDt) c).sum = c.sum + w.length ∧
        (w.foldl (tally localSrvAddr startDt) c).err = c.err + w.countP Entry.isError := by
    intro startDt w
    induction w with
    | nil => simp
    | cons e w ih =>
      intro c
      obtain ⟨h₁, h₂⟩ := ih (tally localSrvAddr startDt c e)
      rw [List.foldl_cons, h₁, h₂, List.countP_cons, tally]
      refine ⟨by simp; omega, ?_⟩
      cases e.isError with
      | true => simp; omega
      | false => simp
  cases w with
  | nil => exact ⟨rfl, rfl⟩
  | cons e w =>
    obtain ⟨hsum, herr⟩ := hfold e.dt (e :: w) .empty
    exact ⟨hsum.trans (Nat.zero_add _), herr.trans (Nat.zero_add _)⟩

/-- The rows of some windows account for the lines of those that name a plugin. -/
theorem sum_queries (localSrvAddr : Bytes) (ws : List (List Entry)) :
    let queries := (ws.map (countWindow localSrvAddr)).flatMap insertDb
    (queries.map Query.httpSum).sum = (ws.filter namesPlugin).flatten.length ∧
      (queries.map Query.httpErr).sum = (ws.filter namesPlugin).flatten.countP Entry.isError := by
  induction ws with
  | nil => exact ⟨rfl, rfl⟩
  | cons w ws ih =>
    obtain ⟨ihsum, iherr⟩ := ih
    obtain ⟨hsum, herr⟩ := sum_err_countWindow localSrvAddr w
    simp only [List.map_cons, List.flatMap_cons, List.map_append, List.sum_append, ihsum, iherr]
    rw [sum_insertDb (f := Query.httpSum) (fun _ _ ↦ rfl) (fun _ _ ↦ hsum),
      sum_insertDb (f := Query.httpErr) (fun _ _ ↦ rfl) (fun _ _ ↦ herr)]
    simp only [size_pos_iff_namesPlugin, List.filter_cons]
    split
    · simp
    · simp

/-! ## The totals of a run -/

variable {localSrvAddr : Bytes} {stepSeconds : ℤ} {lines : List Bytes}

/-- The totals of a run are those of the windows that name a plugin. -/
theorem sum_queries_logStatics (localSrvAddr : Bytes) (hstep : 1 ≤ stepSeconds)
    (hok : (seen lines).2 = none) :
    let kept := ((windows (closesAt stepSeconds) keep (entriesOf lines)).filter namesPlugin).flatten
    ((logStatics localSrvAddr stepSeconds lines).queries.map Query.httpSum).sum = kept.length ∧
      ((logStatics localSrvAddr stepSeconds lines).queries.map Query.httpErr).sum
        = kept.countP Entry.isError := by
  rw [logStatics_eq, Run.queries, windowsOf, cutWindows_eq hstep, hok, lastWindow,
    ← filter_windows, (seen_eq hok).1]
  exact sum_queries localSrvAddr _

/-- **The totals of a run without exceptions add up exactly if every window names a plugin.** -/
theorem conserved_iff (hstep : 1 ≤ stepSeconds)
    (hok : (logStatics localSrvAddr stepSeconds lines).raised = none) :
    Conserved localSrvAddr stepSeconds lines ↔
      ∀ w ∈ windows (closesAt stepSeconds) keep (entriesOf lines),
        ∃ e ∈ w, (requestOf e.request).isSome = true := by
  rw [logStatics_eq] at hok
  obtain ⟨hsum, herr⟩ := sum_queries_logStatics localSrvAddr hstep hok
  obtain ⟨-, hlen, hcount⟩ := seen_eq hok
  have hall := flatten_windows (closesAt stepSeconds) (entriesOf lines)
  have hnames : ∀ w, (∃ e ∈ w, (requestOf e.request).isSome = true) ↔ namesPlugin w = true :=
    fun w ↦ List.any_eq_true.symm
  simp only [hnames]
  constructor
  · rintro ⟨h, -⟩ w hw
    rw [hsum, hlen] at h
    -- a window that is left out would be empty
    have hflat := (List.filter_sublist.flatten).eq_of_length (h.trans (congrArg _ hall.symm))
    rw [← List.flatMap_id, ← List.flatMap_id, flatMap_filter_eq_iff] at hflat
    cases hn : namesPlugin w with
    | true => rfl
    | false => exact absurd (hflat w hw hn) (ne_nil_of_mem_windows hw)
  · intro h
    rw [List.filter_eq_self.mpr h, hall] at hsum herr
    exact ⟨hsum.trans hlen.symm, herr.trans hcount.symm⟩

/-- Two windows of one line each. -/
theorem conserved_face :
    Conserved (lit "a") 600 [sampleLine "10:25:00" "0" "plugin=face&src=pull",
      sampleLine "10:45:00" "0" "plugin=x&src=pull"] :=
  (conserved_iff (by decide) (by simp only [sampleLine_eq]; decide +kernel)).mpr
    (by simp only [sampleLine_eq]; decide +kernel)

/-- A line that names no plugin, and one that closes its window: the first is in no total. -/
theorem not_conserved_unnamed :
    (logStatics (lit "a") 600 [sampleLine "10:25:00" "0" "r",
        sampleLine "10:45:00" "0" "plugin=face&src=pull"]).raised = none ∧
      ¬ Conserved (lit "a") 600 [sampleLine "10:25:00" "0" "r",
        sampleLine "10:45:00" "0" "plugin=face&src=pull"] := by
  simp only [sampleLine_eq]
  exact ⟨by decide +kernel, fun h ↦ absurd h.sum (by decide +kernel)⟩

end ImgPredictor
