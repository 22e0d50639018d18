import ImgPredictor.Lib.Windows
import ImgPredictor.Statics.Log

/-!
# What a run of the statistics amounts to

The loop of `log_statics` cuts the lines into windows and counts each window by itself:
`logStatics_eq` says that `insert_db` is called with the counts of the windows one by one.

* `Entry.fault` is the exception a line raises.  It does not depend on the counters, so the lines a
  run gets to, `seen`, are known beforehand.
* `tally` is what a line that raises none does to the counters, and `countWindow` adds up a window.
* `windowsOf` are the windows: the last one is dropped if the run ends with an exception, or if none
  of its lines names a plugin.
-/

set_option autoImplicit false

namespace ImgPredictor

open Bytes Lists

/-! ## One line -/

namespace Entry

/-- The exception the line raises. -/
def fault (e : Entry) : Option PyError :=
  match e.named with
  | none => none
  | some (_, src) =>
    if src == lit "datetime" || src == lit "server_addr" then some .typeError
    else match e.parser with
      | none => none
      | some parse => match parse e.resJson with
        | .error err => some err
        | .ok _ => none

/-- The line counts as an error: it names no plugin and source, or a source that is not one of
`src_type`, or a plugin that is not in `plugin_dict`. -/
def isError (e : Entry) : Bool := e.parser.isNone

/-- The parser returns `True`. -/
def isHit (e : Entry) : Bool :=
  e.parser.any fun parse ↦ match parse e.resJson with
    | .ok b => b
    | .error _ => false

end Entry

/-- What a line does to the record of the plugin it names. -/
def Record.note (r : Record) (src : Bytes) (e : Entry) : Record :=
  let r := (r.add src).add (lit "sum")
  if e.isError then r.add (lit "err") else if e.isHit then r.add (lit "detect") else r

/-- What a line does to the counters. -/
def tally (localSrvAddr : Bytes) (startDt : DateTime) (c : Counts) (e : Entry) : Counts where
  res := match e.named with
    | none => c.res
    | some (plugin, src) =>
      c.res.insert plugin ((c.res.getD plugin (.new startDt.str localSrvAddr)).note src e)
  sum := c.sum + 1
  err := if e.isError then c.err + 1 else c.err

/-- **A line either raises its exception or does what `tally` says.** -/
theorem countEntry_eq (localSrvAddr : Bytes) (startDt : DateTime) (c : Counts) (e : Entry) :
    countEntry localSrvAddr startDt c e = match e.fault with
      | some err => .error err
      | none => .ok (tally localSrvAddr startDt c e) := by
  rw [countEntry, Entry.fault, tally, Entry.isError, Entry.parser, Entry.named]
  cases hreq : requestOf e.request with
  | none => rfl
  | some named =>
    obtain ⟨plugin, src⟩ := named
    simp only [Record.bump]
    split
    · rfl
    · simp only [Record.note, Entry.isError, Entry.isHit, Entry.parser, Entry.named, hreq]
      by_cases hsrc : src ∈ srcType
      · simp only [hsrc, not_true, if_true, if_false]
        cases hp : pluginDict.lookup plugin with
        | none => rfl
        | some parse =>
          cases hr : parse e.resJson with
          | error err => simp [hr]; rfl
          | ok b => cases b <;> simp [hr] <;> rfl
      · simp only [hsrc, not_false_eq_true, if_true, if_false]
        rfl

/-! ## The lines a run gets to -/

/-- The lines that are read, up to the one that raises an exception, and the exception. -/
def seen : List Bytes → List Entry × Option PyError
  | [] => ([], none)
  | line :: lines =>
    match readLine line with
    | none => seen lines
    | some (.error e) => ([], some e)
    | some (.ok entry) =>
      match entry.fault with
      | some e => ([entry], some e)
      | none => (entry :: (seen lines).1, (seen lines).2)

section Seen

variable {line : Bytes} {lines : List Bytes} {e : PyError} {entry : Entry}

theorem seen_cons_skip (h : readLine line = none) : seen (line :: lines) = seen lines := by
  rw [seen, h]

theorem seen_cons_error (h : readLine line = some (.error e)) :
    seen (line :: lines) = ([], some e) := by
  rw [seen, h]

theorem seen_cons_fault (h : readLine line = some (.ok entry)) (hf : entry.fault = some e) :
    seen (line :: lines) = ([entry], some e) := by
  rw [seen, h]
  simp only [hf]

theorem seen_cons_ok (h : readLine line = some (.ok entry)) (hf : entry.fault = none) :
    seen (line :: lines) = (entry :: (seen lines).1, (seen lines).2) := by
  rw [seen, h]
  simp only [hf]

end Seen

theorem seen_append {a : List Bytes} (ha : (seen a).2 = none) (b : List Bytes) :
    seen (a ++ b) = ((seen a).1 ++ (seen b).1, (seen b).2) := by
  induction a with
  | nil => rfl
  | cons line a ih =>
    rw [List.cons_append]
    cases hline : readLine line with
    | none =>
      rw [seen_cons_skip hline] at ha ⊢
      rw [seen_cons_skip hline, ih ha]
    | some r =>
      cases r with
      | error e =>
        rw [seen_cons_error hline] at ha
        exact absurd ha (by simp)
      | ok entry =>
        cases hf : entry.fault with
        | some e =>
          rw [seen_cons_fault hline hf] at ha
          exact absurd ha (by simp)
        | none =>
          rw [seen_cons_ok hline hf] at ha ⊢
          rw [seen_cons_ok hline hf, ih ha, List.cons_append]

theorem seen_append_of_raised {a : List Bytes} (ha : (seen a).2 ≠ none) (b : List Bytes) :
    seen (a ++ b) = seen a := by
  induction a with
  | nil => exact absurd rfl ha
  | cons line a ih =>
    rw [List.cons_append]
    cases hline : readLine line with
    | none =>
      rw [seen_cons_skip hline] at ha ⊢
      rw [seen_cons_skip hline, ih ha]
    | some r =>
      cases r with
      | error e => rw [seen_cons_error hline, seen_cons_error hline]
      | ok entry =>
        cases hf : entry.fault with
        | some e => rw [seen_cons_fault hline hf, seen_cons_fault hline hf]
        | none =>
          rw [seen_cons_ok hline hf] at ha ⊢
          rw [seen_cons_ok hline hf, ih ha]

/-- Where a line that is seen stands among the others. -/
theorem seen_split {lines : List Bytes} {a b : List Entry} {x : Entry}
    (h : (seen lines).1 = a ++ x :: b) :
    ∃ pre line post, lines = pre ++ line :: post ∧ seen pre = (a, none) ∧
      readLine line = some (.ok x) := by
  induction lines generalizing a with
  | nil => exact absurd h (by simp [seen])
  | cons line lines ih =>
    cases hline : readLine line with
    | none =>
      rw [seen_cons_skip hline] at h
      obtain ⟨pre, line', post, rfl, hpre, hx⟩ := ih h
      exact ⟨line :: pre, line', post, rfl, (seen_cons_skip hline).trans hpre, hx⟩
    | some r =>
      cases r with
      | error e =>
        rw [seen_cons_error hline] at h
        exact absurd h (by simp)
      | ok entry =>
        cases hf : entry.fault with
        | some e =>
          rw [seen_cons_fault hline hf, List.singleton_eq_append_iff] at h
          rcases h with ⟨rfl, h⟩ | ⟨-, h⟩
          · obtain ⟨rfl, -⟩ := List.cons.inj h
            exact ⟨[], line, lines, rfl, rfl, hline⟩
          · exact absurd h (by simp)
        | none =>
          rw [seen_cons_ok hline hf] at h
          cases a with
          | nil =>
            obtain ⟨rfl, -⟩ := List.cons.inj h
            exact ⟨[], line, lines, rfl, rfl, hline⟩
          | cons y a =>
            obtain ⟨rfl, htail⟩ := List.cons.inj h
            obtain ⟨pre, line', post, rfl, hpre, hx⟩ := ih htail
            exact ⟨line :: pre, line', post, rfl, by rw [seen_cons_ok hline hf, hpre], hx⟩

/-! ## Windows -/

/-- Does the second line close the window the first began? -/
def closesAt (stepSeconds : ℤ) (start e : Entry) : Bool := closes stepSeconds start.dt e.dt

/-- The counts of a window. -/
def countWindow (localSrvAddr : Bytes) : List Entry → Counts
  | [] => .empty
  | e :: w => (e :: w).foldl (tally localSrvAddr e.dt) .empty

theorem countWindow_concat (localSrvAddr : Bytes) {w : List Entry} {head e : Entry}
    (h : (w ++ [e]).head? = some head) :
    countWindow localSrvAddr (w ++ [e])
      = tally localSrvAddr head.dt (countWindow localSrvAddr w) e := by
  cases w with
  | nil =>
    obtain rfl := Option.some.inj h
    rfl
  | cons x w =>
    obtain rfl := Option.some.inj h
    rw [List.cons_append, countWindow, ← List.cons_append, List.foldl_append]
    rfl

/-- Some line of the window names a plugin. -/
def namesPlugin (w : List Entry) : Bool := w.any fun e ↦ e.named.isSome

/-- What becomes of the last window. -/
def lastWindow : Option PyError → List Entry → List (List Entry)
  | none => keepIf namesPlugin
  | some _ => discard

/-- The windows of lines, the first one beginning at the first line before that is asked whether it
closes it. -/
def cutWindows (stepSeconds : ℤ) (fin : List Entry → List (List Entry)) :
    List Entry → List (List Entry)
  | [] => []
  | e :: es => windowsFrom (closesAt stepSeconds) fin e [] (e :: es)

theorem lastWindow_isPrefix (err : Option PyError) (w : List Entry) : lastWindow err w <+: [w] := by
  cases err with
  | none =>
    rw [lastWindow, keepIf]
    split
    · exact List.prefix_rfl
    · exact List.nil_prefix
  | some e => exact List.nil_prefix

/-- The windows of a log that `insert_db` is called for. -/
def windowsOf (stepSeconds : ℤ) (lines : List Bytes) : List (List Entry) :=
  cutWindows stepSeconds (lastWindow (seen lines).2) (seen lines).1

theorem closesAt_self {stepSeconds : ℤ} (hstep : 1 ≤ stepSeconds) (e : Entry) :
    closesAt stepSeconds e e = false := by
  rw [closesAt, closes, DateTime.secondsSince, DateTime.since, Int.sub_self, Int.zero_emod]
  exact decide_eq_false (by omega)

/-- When a line does not close the window it begins, these are the windows of the library. -/
theorem cutWindows_eq {stepSeconds : ℤ} (hstep : 1 ≤ stepSeconds)
    (fin : List Entry → List (List Entry)) (es : List Entry) :
    cutWindows stepSeconds fin es = windows (closesAt stepSeconds) fin es := by
  cases es with
  | nil => rfl
  | cons e es =>
    rw [cutWindows, windowsFrom, closesAt_self hstep, if_neg Bool.false_ne_true]
    rfl

/-- They are the first of all the windows there are. -/
theorem windowsOf_isPrefix {stepSeconds : ℤ} (hstep : 1 ≤ stepSeconds) (lines : List Bytes) :
    windowsOf stepSeconds lines <+: windows (closesAt stepSeconds) keep (seen lines).1 := by
  rw [windowsOf, cutWindows_eq hstep]
  exact windows_isPrefix _ (lastWindow_isPrefix _) _

/-! ## The loop -/

variable (localSrvAddr : Bytes) (stepSeconds : ℤ)

section Loop

variable {line : Bytes} {entry : Entry}

theorem logLoop_fault {e : PyError} (h : readLine line = some (.ok entry))
    (hf : entry.fault = some e) (s : LogState) (lines : List Bytes) :
    logLoop localSrvAddr stepSeconds s (line :: lines)
      = ((s.turn stepSeconds entry.dt).2, some e) := by
  rw [logLoop, h]
  simp only [countEntry_eq, hf]

theorem logLoop_ok (h : readLine line = some (.ok entry)) (hf : entry.fault = none) (s : LogState)
    (lines : List Bytes) :
    logLoop localSrvAddr stepSeconds s (line :: lines)
      = logLoop localSrvAddr stepSeconds
          { (s.turn stepSeconds entry.dt).2 with
            counts := tally localSrvAddr (s.turn stepSeconds entry.dt).1
              (s.turn stepSeconds entry.dt).2.counts entry } lines := by
  rw [logLoop, h]
  simp only [countEntry_eq, hf]

theorem logLoop_append {s : LogState} {a : List Bytes}
    (ha : (logLoop localSrvAddr stepSeconds s a).2 = none) (b : List Bytes) :
    logLoop localSrvAddr stepSeconds s (a ++ b)
      = logLoop localSrvAddr stepSeconds (logLoop localSrvAddr stepSeconds s a).1 b := by
  induction a generalizing s with
  | nil => rfl
  | cons line a ih =>
    rw [List.cons_append]
    rw [logLoop] at ha ⊢
    rw [logLoop]
    cases hline : readLine line with
    | none =>
      rw [hline] at ha
      exact ih ha
    | some r =>
      cases r with
      | error e =>
        rw [hline] at ha
        exact absurd ha (by simp)
      | ok entry =>
        rw [hline] at ha
        dsimp only at ha ⊢
        split at ha
        · exact absurd ha (by simp)
        · exact ih ha

/-- The test of the window, as the library asks it. -/
theorem turn_eq (head entry : Entry) (c : Counts) (inserted : List Counts) :
    LogState.turn stepSeconds ⟨some head.dt, c, inserted⟩ entry.dt =
      if closesAt stepSeconds head entry then
        (entry.dt, ⟨some entry.dt, .empty, inserted ++ [c]⟩)
      else (head.dt, ⟨some head.dt, c, inserted⟩) := rfl

end Loop

/-- **The loop, from inside a window on.** -/
theorem logLoop_eq (head : Entry) (cur : List Entry) (inserted : List Counts) (lines : List Bytes)
    (h : ∀ e ∈ (cur ++ (seen lines).1).head?, e = head) :
    ∃ counts,
      logLoop localSrvAddr stepSeconds
          ⟨some head.dt, countWindow localSrvAddr cur, inserted⟩ lines
        = (⟨some (headAfter (closesAt stepSeconds) head (seen lines).1).dt, counts,
            inserted ++ (windowsFrom (closesAt stepSeconds) Lists.discard head cur
              (seen lines).1).map (countWindow localSrvAddr)⟩, (seen lines).2) ∧
      ((seen lines).2 = none → counts = countWindow localSrvAddr
        (openAfter (closesAt stepSeconds) head cur (seen lines).1)) := by
  induction lines generalizing head cur inserted with
  | nil =>
    refine ⟨countWindow localSrvAddr cur, ?_, fun _ ↦ rfl⟩
    simp [logLoop, seen, headAfter, windowsFrom, Lists.discard]
  | cons line lines ih =>
    cases hline : readLine line with
    | none =>
      rw [seen_cons_skip hline] at h ⊢
      rw [logLoop, hline]
      exact ih head cur inserted h
    | some r =>
      cases r with
      | error e =>
        rw [seen_cons_error hline, logLoop, hline]
        refine ⟨countWindow localSrvAddr cur, ?_, fun he ↦ absurd he (by simp)⟩
        simp [headAfter, windowsFrom, Lists.discard]
      | ok entry =>
        -- the test of the window comes before the exception
        cases hf : entry.fault with
        | some e =>
          rw [seen_cons_fault hline hf, logLoop_fault _ _ hline hf, turn_eq]
          refine ⟨if closesAt stepSeconds head entry then .empty else countWindow localSrvAddr cur,
            ?_, fun he ↦ absurd he (by simp)⟩
          simp only [headAfter, windowsFrom, Lists.discard]
          split <;> simp
        | none =>
          rw [seen_cons_ok hline hf] at h ⊢
          rw [logLoop_ok _ _ hline hf, turn_eq]
          simp only [headAfter, windowsFrom, openAfter]
          cases hclose : closesAt stepSeconds head entry with
          | true =>
            obtain ⟨counts, hloop, hcounts⟩ :=
              ih entry [entry] (inserted ++ [countWindow localSrvAddr cur]) (by simp)
            refine ⟨counts, ?_, hcounts⟩
            simpa [countWindow] using hloop
          | false =>
            have hhead : (cur ++ [entry]).head? = some head := by
              cases cur with
              | nil => simp [h entry (by simp)]
              | cons x cur => simp [h x (by simp)]
            obtain ⟨counts, hloop, hcounts⟩ := ih head (cur ++ [entry]) inserted (by
              simpa using h)
            refine ⟨counts, ?_, hcounts⟩
            simpa [countWindow_concat _ hhead] using hloop

/-- **The loop, from the start.**  Its first line begins a window. -/
theorem logLoop_init (lines : List Bytes) :
    logLoop localSrvAddr stepSeconds .init lines = match (seen lines).1 with
      | [] => (.init, (seen lines).2)
      | head :: _ => logLoop localSrvAddr stepSeconds ⟨some head.dt, .empty, []⟩ lines := by
  induction lines with
  | nil => rfl
  | cons line lines ih =>
    cases hline : readLine line with
    | none =>
      rw [seen_cons_skip hline, logLoop, hline]
      simp only [ih]
      cases (seen lines).1 with
      | nil => rfl
      | cons head es => simp only [logLoop, hline]
    | some r =>
      cases r with
      | error e => rw [seen_cons_error hline, logLoop, hline]
      | ok entry =>
        have hturn : LogState.turn stepSeconds .init entry.dt
          = LogState.turn stepSeconds ⟨some entry.dt, .empty, []⟩ entry.dt := rfl
        cases hf : entry.fault with
        | some e =>
          rw [seen_cons_fault hline hf, logLoop_fault _ _ hline hf, hturn]
          exact (logLoop_fault _ _ hline hf _ _).symm
        | none =>
          rw [seen_cons_ok hline hf, logLoop_ok _ _ hline hf, hturn]
          exact (logLoop_ok _ _ hline hf _ _).symm

/-- **The loop**: where it stops, when its window began, and what it has called `insert_db` with. -/
theorem logLoop_spec (lines : List Bytes) :
    (logLoop localSrvAddr stepSeconds .init lines).2 = (seen lines).2 ∧
      (logLoop localSrvAddr stepSeconds .init lines).1.startDt = (seen lines).1.head?.map
        (fun head ↦ (headAfter (closesAt stepSeconds) head (seen lines).1).dt) ∧
      (logLoop localSrvAddr stepSeconds .init lines).1.inserted
        = (cutWindows stepSeconds Lists.discard (seen lines).1).map (countWindow localSrvAddr) := by
  rw [logLoop_init]
  cases hes : (seen lines).1 with
  | nil => exact ⟨rfl, rfl, rfl⟩
  | cons head es =>
    obtain ⟨counts, hloop, -⟩ :=
      logLoop_eq localSrvAddr stepSeconds head [] [] lines (by simp [hes])
    rw [countWindow] at hloop
    dsimp only
    rw [hloop, hes, List.nil_append, List.head?_cons, Option.map_some, cutWindows]
    exact ⟨rfl, rfl, rfl⟩

/-! ## The records of a window -/

variable {localSrvAddr}

theorem mem_tally {startDt : DateTime} {c : Counts} {e : Entry} {plugin : Bytes} :
    plugin ∈ (tally localSrvAddr startDt c e).res ↔
      plugin ∈ c.res ∨ ∃ src, e.named = some (plugin, src) := by
  rw [tally]
  cases hn : e.named with
  | none => simp
  | some named =>
    obtain ⟨plugin', src⟩ := named
    simp only [Dict.mem_insert, Option.some.injEq, Prod.mk.injEq]
    constructor
    · rintro (rfl | h)
      · exact .inr ⟨src, rfl, rfl⟩
      · exact .inl h
    · rintro (h | ⟨_, rfl, -⟩)
      · exact .inr h
      · exact .inl rfl

/-- The plugins of a window are the ones its lines name. -/
theorem mem_countWindow {w : List Entry} {plugin : Bytes} :
    plugin ∈ (countWindow localSrvAddr w).res ↔ ∃ e ∈ w, ∃ src, e.named = some (plugin, src) := by
  have hfold : ∀ (startDt : DateTime) (w : List Entry) (c : Counts),
      plugin ∈ (w.foldl (tally localSrvAddr startDt) c).res ↔
        plugin ∈ c.res ∨ ∃ e ∈ w, ∃ src, e.named = some (plugin, src) := by
    intro startDt w
    induction w with
    | nil => simp
    | cons e w ih => simp [ih, mem_tally, or_assoc]
  cases w with
  | nil => simp [countWindow, Counts.empty]
  | cons e w => rw [countWindow, hfold]; simp [Counts.empty]

theorem size_pos_iff_namesPlugin {w : List Entry} :
    0 < (countWindow localSrvAddr w).res.size ↔ namesPlugin w = true := by
  rw [Dict.size_pos_iff, namesPlugin, List.any_eq_true]
  simp only [mem_countWindow, Option.isSome_iff_exists, Prod.exists]
  grind

@[simp] theorem note_datetime (r : Record) (src : Bytes) (e : Entry) :
    (r.note src e).datetime = r.datetime := by
  rw [Record.note]
  split
  · rfl
  · split <;> rfl

@[simp] theorem note_serverAddr (r : Record) (src : Bytes) (e : Entry) :
    (r.note src e).serverAddr = r.serverAddr := by
  rw [Record.note]
  split
  · rfl
  · split <;> rfl

/-- All records carry this time and this address. -/
def Counts.Stamped (localSrvAddr : Bytes) (startDt : DateTime) (c : Counts) : Prop :=
  ∀ (plugin : Bytes) (r : Record), c.res[plugin]? = some r →
    r.datetime = startDt.str ∧ r.serverAddr = localSrvAddr

theorem stamped_tally {startDt : DateTime} {c : Counts} (hc : c.Stamped localSrvAddr startDt)
    (e : Entry) : (tally localSrvAddr startDt c e).Stamped localSrvAddr startDt := by
  intro p r hr
  rw [tally] at hr
  cases hn : e.named with
  | none =>
    rw [hn] at hr
    exact hc p r hr
  | some named =>
    obtain ⟨plugin, src⟩ := named
    rw [hn] at hr
    simp only [Dict.getElem?_insert] at hr
    split at hr
    · obtain rfl := Option.some.inj hr
      rw [note_datetime, note_serverAddr, Std.ExtTreeMap.getD_eq_getD_getElem?]
      cases hold : c.res[plugin]? with
      | none => exact ⟨rfl, rfl⟩
      | some old => exact hc plugin old hold
    · exact hc p r hr

/-- The records of a window carry the time of its first line. -/
theorem stamped_countWindow (start : Entry) (w : List Entry) :
    (countWindow localSrvAddr (start :: w)).Stamped localSrvAddr start.dt := by
  have hfold : ∀ (w : List Entry) (c : Counts), c.Stamped localSrvAddr start.dt →
      (w.foldl (tally localSrvAddr start.dt) c).Stamped localSrvAddr start.dt := by
    intro w
    induction w with
    | nil => exact fun c hc ↦ hc
    | cons e w ih => exact fun c hc ↦ ih _ (stamped_tally hc e)
  exact hfold (start :: w) .empty fun p r h ↦ absurd h (by simp [Counts.empty])

/-! ## The run -/

variable (localSrvAddr)

/-- **`insert_db` is called with the counts of the windows, one by one.** -/
theorem logStatics_eq (lines : List Bytes) :
    logStatics localSrvAddr stepSeconds lines
      = ⟨(windowsOf stepSeconds lines).map (countWindow localSrvAddr), (seen lines).2⟩ := by
  rw [logStatics, windowsOf, logLoop_init]
  cases hes : (seen lines).1 with
  | nil =>
    cases (seen lines).2 <;> simp [cutWindows, LogState.init, Counts.empty]
  | cons head es =>
    obtain ⟨counts, hloop, hcounts⟩ :=
      logLoop_eq localSrvAddr stepSeconds head [] [] lines (by simp [hes])
    rw [countWindow] at hloop
    simp only [hloop, cutWindows]
    rw [hes, List.nil_append, windowsFrom_eq _ (lastWindow (seen lines).2)]
    cases herr : (seen lines).2 with
    | some e => simp [lastWindow, Lists.discard]
    | none =>
      obtain rfl := hcounts herr
      simp only [lastWindow, keepIf, size_pos_iff_namesPlugin, hes]
      split <;> simp

end ImgPredictor
