import ImgPredictor.Agreement
import ImgPredictor.Graph.Modes
import ImgPredictor.Graph.Served
import ImgPredictor.Statics.GroupBy
import ImgPredictor.Statics.Extract
import ImgPredictor.Statics.Order
import ImgPredictor.Statics.Strptime

/-!
# From the requests to the rows

The module answers requests and logs what it answered, nginx puts the time and the request in front
of and behind it, and the statistics read the log again.  Here the three are put together:
`reported` says that **the statistics of a log are the requests that were served**, grouped by the
window they fall in and the plugin that was run for them.

What has to hold for that is said line by line (`Access.Of`, `Client.Accepts`): that the line fits
the buffer nginx writes it with and can be read back, that the last pair of arguments in it is the
one the module looked up, and that the answer is one that the parser of the plugin can take.

Other lines may stand in between as long as they do not match the pattern.  Not every line does
that by itself: the module logs a URL that it could not fetch as the client sent it, and a URL with
`, res_json:` in it makes a line that matches.  So this is assumed of the file.
-/

set_option autoImplicit false

namespace ImgPredictor

open Bytes Lists

/-! ## Lines -/

/-- The size of the buffer `ngx_log_error` makes a line in, the line feed included. -/
def ngxMaxErrorStr : ℕ := 2048

/-- The line `ngx_log_error` writes of a text: what does not fit is cut off. -/
def errorLine (text : Bytes) : Bytes := text.take (ngxMaxErrorStr - 1) ++ [10]

theorem errorLine_of_lt {text : Bytes} (h : text.length < ngxMaxErrorStr) :
    errorLine text = text ++ [10] := by
  rw [errorLine, List.take_of_length_le (Nat.le_sub_one_of_lt h)]

/-- What nginx puts around an answer. -/
structure Access where
  /-- The line. -/
  line : LogLine
  /-- The time it was written. -/
  time : DateTime
  /-- The line begins with it. -/
  stamped : line.date = time.stamp
  /-- The year has four digits. -/
  year : 1000 ≤ time.year

/-- The plugin the module looks up for a request. -/
def Client.plugin (c : Client) : Option Bytes := argOf c.request (lit "plugin")

/-- The source it looks up. -/
def Client.src (c : Client) : Option Bytes := argOf c.request (lit "src")

/-- The line is what nginx makes of an answer to the client, and the statistics can read it. -/
structure Access.Of (a : Access) (c : Client) (text : Bytes) : Prop where
  /-- The answer. -/
  answer : a.line.resJson = text
  /-- Nothing of it is cut off. -/
  fits : a.line.text.length < ngxMaxErrorStr
  /-- It can be read back. -/
  readable : Extracted a.line (a.line.text ++ [10])
  /-- The last pair of arguments is what the module looked up. -/
  pair : ∃ plugin src, c.plugin = some plugin ∧ c.src = some src ∧
    LastPair ((quote a.line.request).splitOn 38) plugin src

/-- What the statistics read of the line. -/
def Access.entry (a : Access) (text : Bytes) : Entry := ⟨a.time, text, quote a.line.request⟩

theorem readLine_access {a : Access} {c : Client} {text : Bytes} (h : a.Of c text) :
    readLine (errorLine a.line.text) = some (.ok (a.entry text)) := by
  obtain ⟨hit, hfirst, hdate, hanswer, hrequest⟩ := h.readable
  rw [errorLine_of_lt h.fits, readLine, hfirst, Option.map_some, hdate, a.stamped,
    DateTime.strptime_stamp a.year, hanswer, hrequest, h.answer]
  rfl

/-- The line names what the module looked up. -/
theorem named_entry {a : Access} {c : Client} {text : Bytes} (h : a.Of c text) :
    ∃ plugin src, c.plugin = some plugin ∧ c.src = some src ∧
      (a.entry text).named = some (plugin, src) := by
  obtain ⟨plugin, src, hplugin, hsrc, hlast⟩ := h.pair
  have hline : (10 : UInt8) ∉ quote a.line.request := by
    have hrequest := a.line.oneLine a.line.request (by simp)
    simpa [quote] using hrequest
  exact ⟨plugin, src, hplugin, hsrc, (requestOf_iff hline plugin src).mpr hlast⟩

/-! ## Requests -/

/-- The parser the answer to a request goes to. -/
def Client.parser (c : Client) : Option (Bytes → Except PyError Bool) :=
  c.plugin.bind fun plugin ↦ c.src.bind fun src ↦
    if srcType.contains src then pluginDict.lookup plugin else none

/-- Something was detected in the answer. -/
def Client.detects (c : Client) (text : Bytes) : Bool :=
  c.parser.any fun parse ↦ match parse text with
    | .ok b => b
    | .error _ => false

/-- The parser can take the answer. -/
def Client.Accepts (c : Client) (text : Bytes) : Prop :=
  ∀ parse ∈ c.parser, ∃ b, parse text = .ok b

theorem parser_entry {a : Access} {c : Client} {text : Bytes} (h : a.Of c text) :
    (a.entry text).parser = c.parser := by
  obtain ⟨plugin, src, hplugin, hsrc, hnamed⟩ := named_entry h
  rw [Entry.parser, hnamed, Client.parser, hplugin, hsrc]
  simp only [Option.bind_some, List.contains_iff_mem]

theorem plugin_entry {a : Access} {c : Client} {text : Bytes} (h : a.Of c text) :
    (a.entry text).plugin = c.plugin := by
  obtain ⟨plugin, src, hplugin, -, hnamed⟩ := named_entry h
  rw [Entry.plugin, hnamed, hplugin]
  rfl

theorem sourceFor_entry {a : Access} {c : Client} {text : Bytes} (h : a.Of c text)
    (plugin src : Bytes) : (a.entry text).sourceFor plugin = some src ↔
      c.plugin = some plugin ∧ c.src = some src := by
  obtain ⟨plugin', src', hplugin, hsrc, hnamed⟩ := named_entry h
  rw [sourceFor_eq_some_iff, hnamed, hplugin, hsrc]
  simp

theorem isError_entry {a : Access} {c : Client} {text : Bytes} (h : a.Of c text) :
    (a.entry text).isError = c.parser.isNone := by
  rw [Entry.isError, parser_entry h]

theorem isHit_entry {a : Access} {c : Client} {text : Bytes} (h : a.Of c text) :
    (a.entry text).isHit = c.detects text := by
  rw [Entry.isHit, parser_entry h]
  rfl

/-- A source the handler lets through begins with a `p`, if there is any of it. -/
theorem head?_src {c : Client} (hcalled : c.called.isSome = true) {src : Bytes}
    (hsrc : c.src = some src) : ∀ b ∈ src.head?, b = 112 := by
  obtain ⟨⟨r, handler⟩, hcalled⟩ := Option.isSome_iff_exists.mp hcalled
  obtain ⟨r', hd, -⟩ := handler_of_called hcalled
  obtain ⟨v, hv, rfl⟩ := Option.map_eq_some_iff.mp hsrc
  have hvalue : srcValue c.value c.request = some v := by
    rw [srcValue, if_neg, hv]
    rw [List.isEmpty_iff]
    intro hargs
    rw [ngxHttpArg, hargs] at hv
    exact absurd hv (by simp [argFrom])
  have hmode : (∃ rest, v.data = 112 :: rest) := by
    rw [Client.dispatch, handler_eq (read_of_handler hd).1 hvalue
      (readable_of_read hd hvalue)] at hd
    split at hd
    · rename_i hpull
      obtain ⟨rest, hrest⟩ := hpull
      exact ⟨_, hrest.symm⟩
    · split at hd
      · rename_i hpush
        obtain ⟨rest, hrest⟩ := hpush
        exact ⟨_, hrest.symm⟩
      · exact absurd hd (by simp)
  obtain ⟨rest, hrest⟩ := hmode
  intro b hb
  rw [Slice.toBytes, hrest] at hb
  cases hlen : v.len with
  | zero => simp [hlen] at hb
  | succ n => simpa [hlen] using hb.symm

/-- It is not one of the words that are taken. -/
theorem src_ne {c : Client} (hcalled : c.called.isSome = true) {src : Bytes}
    (hsrc : c.src = some src) :
    src ∉ fixedKeys ∧ src ≠ lit "datetime" ∧ src ≠ lit "server_addr" := by
  have hhead : src.head?.all (· == 112) = true := by
    simpa [Option.all_eq_true] using head?_src hcalled hsrc
  have hother : ∀ key ∈ lit "datetime" :: lit "server_addr" :: fixedKeys,
      ¬ key.head?.all (· == 112) = true := by decide
  refine ⟨fun hmem ↦ ?_, ?_, ?_⟩
  · exact hother src (List.mem_cons_of_mem _ (List.mem_cons_of_mem _ hmem)) hhead
  · rintro rfl
    exact hother _ List.mem_cons_self hhead
  · rintro rfl
    exact hother _ (List.mem_cons_of_mem _ List.mem_cons_self) hhead

/-- The line raises no exception if the parser can take the answer. -/
theorem fault_entry {a : Access} {c : Client} {text : Bytes} (h : a.Of c text)
    (hcalled : c.called.isSome = true) (haccepts : c.Accepts text) :
    (a.entry text).fault = none := by
  obtain ⟨plugin, src, -, hsrc, hnamed⟩ := named_entry h
  obtain ⟨-, hdatetime, hserver⟩ := src_ne hcalled hsrc
  have hreserved : (src == lit "datetime" || src == lit "server_addr") = false := by
    simp [hdatetime, hserver]
  rw [Entry.fault, hnamed]
  simp only [hreserved, Bool.false_eq_true, if_false]
  rw [parser_entry h]
  cases hparser : c.parser with
  | none => rfl
  | some parse =>
    obtain ⟨b, hb⟩ := haccepts parse hparser
    have hjson : (a.entry text).resJson = text := rfl
    simp [hjson, hb]

/-! ## The report of a window -/

section

variable {ι : Type}

/-- The counters are the requests of a window, grouped by the plugin that was run. -/
structure Reports (localSrvAddr : Bytes) (clients : ι → Client) (access : ι → Access)
    (w : List (ι × Bytes)) (c : Counts) : Prop where
  /-- There is a record for every plugin that was run. -/
  plugins : ∀ plugin, plugin ∈ c.res ↔ ∃ p ∈ w, (clients p.1).plugin = some plugin
  /-- It carries the time of the first request and the address of the server. -/
  stamp : ∃ first ∈ w.head?, c.Stamped localSrvAddr (access first.1).time
  /-- `sum`: the requests the plugin was run for. -/
  sum : ∀ (plugin : Bytes) (r : Record), c.res[plugin]? = some r →
    r.count (lit "sum") = w.countP fun p ↦ (clients p.1).plugin == some plugin
  /-- `push` and `pull`: those with that source. -/
  source : ∀ (plugin : Bytes) (r : Record), c.res[plugin]? = some r → ∀ src ∈ srcType,
    r.count src = w.countP fun p ↦
      (clients p.1).plugin == some plugin && (clients p.1).src == some src
  /-- `err`: those that no parser is there for. -/
  err : ∀ (plugin : Bytes) (r : Record), c.res[plugin]? = some r →
    r.count (lit "err") = w.countP fun p ↦
      (clients p.1).plugin == some plugin && (clients p.1).parser.isNone
  /-- `detect`: those whose answers the parser says `True` to. -/
  detect : ∀ (plugin : Bytes) (r : Record), c.res[plugin]? = some r →
    r.count (lit "detect") = w.countP fun p ↦
      (clients p.1).plugin == some plugin && (clients p.1).detects p.2
  /-- All requests. -/
  httpSum : c.sum = w.length
  /-- All that no parser is there for. -/
  httpErr : c.err = w.countP fun p ↦ (clients p.1).parser.isNone

variable {clients : ι → Client} {access : ι → Access}

/-- What the statistics read of an answer in the log. -/
def entryFor (access : ι → Access) (p : ι × Bytes) : Entry := (access p.1).entry p.2

/-- What is counted over the entries is counted over the requests. -/
theorem countP_entryFor {w : List (ι × Bytes)} {f : Entry → Bool} {g : ι × Bytes → Bool}
    (h : ∀ p ∈ w, f (entryFor access p) = g p) :
    (w.map (entryFor access)).countP f = w.countP g := by
  rw [List.countP_map]
  exact List.countP_congr fun p hp ↦ by rw [Function.comp_apply, h p hp]

/-- A window of answers is counted as the requests it answers. -/
theorem reports_countWindow (localSrvAddr : Bytes) {w : List (ι × Bytes)} (hne : w ≠ [])
    (hof : ∀ p ∈ w, (access p.1).Of (clients p.1) p.2)
    (hcalled : ∀ p ∈ w, (clients p.1).called.isSome = true) :
    Reports localSrvAddr clients access w (countWindow localSrvAddr (w.map (entryFor access))) := by
  have hunnamed : ∀ key ∈ fixedKeys, Unnamed (w.map (entryFor access)) key := by
    intro key hkey e he plugin hnamed
    obtain ⟨p, hp, rfl⟩ := List.mem_map.mp he
    obtain ⟨plugin', src, -, hsrc, hnamed'⟩ := named_entry (hof p hp)
    obtain ⟨-, rfl⟩ := Prod.mk.inj (Option.some.inj (hnamed'.symm.trans hnamed))
    exact (src_ne (hcalled p hp) hsrc).1 hkey
  have hgrouped : Grouped (w.map (entryFor access))
      (countWindow localSrvAddr (w.map (entryFor access))) := grouped_of_unnamed hunnamed
  obtain ⟨hplugins, hsum, hsrc, herr, hdetect, -, -, -, -⟩ := hgrouped
  obtain ⟨hall, hallErr⟩ := sum_err_countWindow localSrvAddr (w.map (entryFor access))
  refine ⟨fun plugin ↦ ?_, ?_, fun plugin r hr ↦ ?_, fun plugin r hr src hmem ↦ ?_,
    fun plugin r hr ↦ ?_, fun plugin r hr ↦ ?_, by rw [hall, List.length_map], ?_⟩
  · rw [hplugins]
    constructor
    · rintro ⟨e, he, hnamed⟩
      obtain ⟨p, hp, rfl⟩ := List.mem_map.mp he
      exact ⟨p, hp, (plugin_entry (hof p hp)).symm.trans hnamed⟩
    · rintro ⟨p, hp, hnamed⟩
      exact ⟨_, List.mem_map_of_mem hp, (plugin_entry (hof p hp)).trans hnamed⟩
  · cases w with
    | nil => exact absurd rfl hne
    | cons first w => exact ⟨first, rfl, stamped_countWindow (entryFor access first) _⟩
  · rw [hsum plugin r hr]
    exact countP_entryFor fun p hp ↦ by rw [entryFor, plugin_entry (hof p hp)]
  · rw [hsrc plugin r hr src hmem]
    refine countP_entryFor fun p hp ↦ Bool.eq_iff_iff.mpr ?_
    simp [entryFor, sourceFor_entry (hof p hp)]
  · rw [herr plugin r hr]
    exact countP_entryFor fun p hp ↦ by
      rw [entryFor, plugin_entry (hof p hp), isError_entry (hof p hp)]
  · rw [hdetect plugin r hr]
    exact countP_entryFor fun p hp ↦ by
      rw [entryFor, plugin_entry (hof p hp), isHit_entry (hof p hp)]
  · rw [hallErr]
    exact countP_entryFor fun p hp ↦ by rw [entryFor, isError_entry (hof p hp)]

/-! ## The run -/

variable {stepSeconds : ℤ} {lines : List Bytes}

/-- The lines of the error log that an answer is written to, in the order they were written. -/
def answerLines (access : ι → Access) (log : List (ι × Bytes)) : List Bytes :=
  log.map fun p ↦ errorLine (access p.1).line.text

/-- Does the second request close the window that the first one began? -/
def closesFor (stepSeconds : ℤ) (access : ι → Access) (p q : ι × Bytes) : Bool :=
  closes stepSeconds (access p.1).time (access q.1).time

/-- Lines that do not match are not read. -/
theorem entriesOf_filter (lines : List Bytes) :
    entriesOf (lines.filter isLogLine) = entriesOf lines := by
  rw [entriesOf, List.filterMap_filter, entriesOf]
  refine List.filterMap_congr fun line _ ↦ ?_
  split
  · rfl
  · rename_i hno
    rw [isLogLine, Bool.not_eq_true, Option.isSome_eq_false_iff, Option.isNone_iff_eq_none] at hno
    rw [entryOf_of_skip]
    rw [readLine, hno, Option.map_none]

/-- The answers of a log are what is read of it. -/
theorem entriesOf_answerLines {log : List (ι × Bytes)}
    (hlines : lines.filter isLogLine = answerLines access log)
    (hof : ∀ p ∈ log, (access p.1).Of (clients p.1) p.2) :
    entriesOf lines = log.map (entryFor access) := by
  rw [← entriesOf_filter, hlines, answerLines, entriesOf, List.filterMap_map,
    ← List.filterMap_eq_map]
  refine List.filterMap_congr fun p hp ↦ ?_
  rw [Function.comp_apply, entryOf_of_ok (readLine_access (hof p hp))]
  rfl

/-- They raise no exception if the parsers can take them. -/
theorem quiet_of_answerLines {log : List (ι × Bytes)}
    (hlines : lines.filter isLogLine = answerLines access log)
    (hof : ∀ p ∈ log, (access p.1).Of (clients p.1) p.2)
    (hcalled : ∀ p ∈ log, (clients p.1).called.isSome = true)
    (haccepts : ∀ p ∈ log, (clients p.1).Accepts p.2) : ∀ line ∈ lines, Quiet line := by
  intro line hmem r hr
  have hlog : isLogLine line = true := by
    rw [isLogLine, ← Option.isSome_map, ← readLine, hr]
    rfl
  have hanswer : line ∈ lines.filter isLogLine := List.mem_filter.mpr ⟨hmem, hlog⟩
  rw [hlines] at hanswer
  obtain ⟨p, hp, rfl⟩ := List.mem_map.mp hanswer
  obtain rfl := Option.some.inj ((readLine_access (hof p hp)).symm.trans hr)
  exact ⟨_, rfl, fault_entry (hof p hp) (hcalled p hp) (haccepts p hp)⟩

variable [DecidableEq ι] {slot : PluginSlot PluginInfo} {actions : List (Action ι)}
  {s : Location ι}

/-- **The statistics are the requests that were served**, window by window and plugin by plugin,
whatever lines that do not match the log has besides. -/
theorem reported (hrun : Location.run clients (.start slot) actions = some s)
    (localSrvAddr : Bytes) (hstep : 1 ≤ stepSeconds)
    (hlines : lines.filter isLogLine
      = answerLines access ((Location.start slot).answerLog clients actions))
    (hof : ∀ p ∈ (Location.start slot).answerLog clients actions,
      (access p.1).Of (clients p.1) p.2)
    (haccepts : ∀ p ∈ (Location.start slot).answerLog clients actions,
      (clients p.1).Accepts p.2) :
    (logStatics localSrvAddr stepSeconds lines).raised = none ∧
      List.Forall₂ (Reports localSrvAddr clients access)
        (windows (closesFor stepSeconds access) keep
          ((Location.start slot).answerLog clients actions))
        (logStatics localSrvAddr stepSeconds lines).inserted := by
  have hjournal := journal_start.run hrun
  rw [List.nil_append] at hjournal
  generalize (Location.start slot).answerLog clients actions = log at hlines hof haccepts hjournal ⊢
  have hcalled : ∀ p ∈ log, (clients p.1).called.isSome = true := fun p hp ↦ hjournal.called hp
  have hentries := entriesOf_answerLines hlines hof
  have hquiet : (seen lines).2 = none :=
    seen_raised_iff.mpr (quiet_of_answerLines hlines hof hcalled haccepts)
  have hwindow : ∀ w ∈ windows (closesFor stepSeconds access) keep log, ∀ p ∈ w, p ∈ log := by
    intro w hw p hp
    rw [← flatten_windows (closesFor stepSeconds access) log]
    exact List.mem_flatten.mpr ⟨w, hw, hp⟩
  have hcut : windowsOf stepSeconds lines
      = (windows (closesFor stepSeconds access) keep log).map (List.map (entryFor access)) := by
    have hmap : (windows (closesFor stepSeconds access) keep log).map
        (List.map (entryFor access))
          = windows (closesAt stepSeconds) keep (log.map (entryFor access)) := by
      refine map_windows _ ?_ log
      exact fun _ _ ↦ rfl
    rw [windowsOf, cutWindows_eq hstep, hquiet, lastWindow, (seen_eq hquiet).1, hentries,
      windows_keepIf, hmap]
    -- every line names a plugin, and no window is empty
    rw [← hmap]
    intro v hv
    obtain ⟨w, hw, rfl⟩ := List.mem_map.mp hv
    obtain ⟨p, w', rfl⟩ := List.exists_cons_of_ne_nil (ne_nil_of_mem_windows hw)
    obtain ⟨plugin, src, -, -, hnamed⟩ :=
      named_entry (hof p (hwindow _ hw p List.mem_cons_self))
    simp [namesPlugin, entryFor, hnamed]
  rw [logStatics_eq, hcut]
  refine ⟨hquiet, ?_⟩
  rw [List.map_map, List.forall₂_map_right_iff, List.forall₂_same]
  intro w hw
  exact reports_countWindow localSrvAddr (ne_nil_of_mem_windows hw)
    (fun p hp ↦ hof p (hwindow w hw p hp)) fun p hp ↦ hcalled p (hwindow w hw p hp)

end

/-- A pull for `face`, which answers `0`. -/
def facePull : Client where
  request := { getPull with args := lit "plugin=face&src=pull", contentLengthN := 9 }
  value := ⟨[], 0⟩
  env := { Env.smooth with handlers := fun _ _ _ _ ↦ (0, lit "0") }
  bodyFile := []
  arrivals := [⟨[(lit "imgurl:ab", [])], true, false⟩]

/-- What nginx makes of it. -/
def faceAccess : Access where
  line := sampleLogLine (lit "h") (by decide)
  time := sampleTime 10 25 0
  stamped := by decide +kernel
  year := by decide

theorem faceAccess_of : faceAccess.Of facePull (lit "0") := by
  have hread : (linePat.first (faceAccess.line.text ++ [10])).map
      (fun h ↦ (dateOf (group h 1), group h 2, group h 5))
        = some (faceAccess.line.date, lit "0", quote faceAccess.line.request) := by
    decide +kernel
  obtain ⟨h, hfirst, hfields⟩ := Option.map_eq_some_iff.mp hread
  obtain ⟨hdate, hfields⟩ := Prod.mk.inj hfields
  obtain ⟨hanswer, hrequest⟩ := Prod.mk.inj hfields
  have hrequestOf : requestOf (quote faceAccess.line.request) = some (lit "face", lit "pull") := by
    decide +kernel
  exact ⟨rfl, by decide +kernel, ⟨h, hfirst, hdate, hanswer, hrequest⟩, lit "face", lit "pull",
    by decide +kernel, by decide +kernel, (requestOf_iff (by decide +kernel) _ _).mp hrequestOf⟩

/-- Two of them, one after the other. -/
def faceActions : List (Action Bool) :=
  [.handle false, .handle true, .callback true 0, .callback false 0]

theorem log_faceActions : (Location.start World.withFace.glcf.pluginSlot).answerLog
    (fun _ : Bool ↦ facePull) faceActions = [(true, lit "0"), (false, lit "0")] := by
  decide +kernel

theorem run_faceActions : ∃ s, Location.run (fun _ : Bool ↦ facePull)
    (.start World.withFace.glcf.pluginSlot) faceActions = some s := by
  have hsome : (Location.run (fun _ : Bool ↦ facePull)
      (.start World.withFace.glcf.pluginSlot) faceActions).isSome = true := by
    decide +kernel
  exact Option.isSome_iff_exists.mp hsome

theorem facePull_accepts : facePull.Accepts (lit "0") := by
  have hparser : facePull.parser.map (fun parse ↦ (parse (lit "0")).toOption.isSome)
      = some true := by decide +kernel
  intro parse hparse
  rw [Option.mem_def.mp hparse, Option.map_some] at hparser
  cases hb : parse (lit "0") with
  | ok b => exact ⟨b, rfl⟩
  | error e => exact absurd hparser (by simp [hb, Except.toOption])

/-- The two requests, and a line of another kind between them. -/
theorem reported_face : List.Forall₂
    (Reports (lit "a") (fun _ : Bool ↦ facePull) fun _ ↦ faceAccess)
    (windows (closesFor 600 fun _ ↦ faceAccess) keep [(true, lit "0"), (false, lit "0")])
    (logStatics (lit "a") 600 [errorLine faceAccess.line.text, lit "missing graph body\n",
      errorLine faceAccess.line.text]).inserted := by
  obtain ⟨s, hs⟩ := run_faceActions
  rw [← log_faceActions]
  refine (reported hs (lit "a") (by decide) ?_ ?_ ?_).2
  · rw [log_faceActions]
    decide +kernel
  · rw [log_faceActions]
    simp [faceAccess_of]
  · rw [log_faceActions]
    simp [facePull_accepts]

end ImgPredictor
