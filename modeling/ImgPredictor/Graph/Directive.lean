import ImgPredictor.Graph.Location
import ImgPredictor.PluginSlot.Config

/-!
# The `fp` directive

`ngx_http_graph` makes a plugin slot, loads the configuration file into it, and calls the init
handlers of the records in the table, stopping at the first one that fails.  When it does not return
`NGX_CONF_OK`, nginx refuses the configuration and no request is ever served with it.

`init_before_process` is about all that follows: whatever requests come, and in whatever order, a
process handler is only ever called for a plugin whose init handler was called, once, with that
plugin's own settings, and returned zero.
-/

set_option autoImplicit false

namespace ImgPredictor

open Bytes

/-! ## `run_all_init` -/

/-- What the init handler at an address returns for a configuration and a model directory, when so
many init handlers have been called before. -/
abbrev InitHandlers := ℕ → Sym → Bytes → Bytes → ℤ

/-- A call of an init handler. -/
structure InitCall where
  /-- The name in the table under which the record stands. -/
  name : Bytes
  /-- The handler. -/
  handler : Sym
  /-- Its first argument. -/
  conf : Bytes
  /-- Its second argument. -/
  modelDir : Bytes
  /-- What it returned. -/
  rc : ℤ
  deriving DecidableEq, Repr

namespace PluginSlot

/-- The loop of `run_all_init`, over the entries in front of the iterator. -/
def initLoop (inits : InitHandlers) : List (Bytes × PluginInfo) → List InitCall → List InitCall × ℤ
  | [], calls => (calls, 0)
  | (name, pit) :: entries, calls =>
    let rc := inits calls.length pit.initHandler pit.conf pit.modelDir
    let calls := calls ++ [⟨name, pit.initHandler, pit.conf, pit.modelDir, rc⟩]
    if rc ≠ 0 then (calls, 1) else initLoop inits entries calls

/-- `run_all_init`: the calls it makes, in the order of the table, and what it returns. -/
def runAllInit (inits : InitHandlers) (slot : PluginSlot PluginInfo) : List InitCall × ℤ :=
  if slot.pinfoList.isEmpty then ([], 0) else initLoop inits slot.pinfoList.toList []

/-- The call of an entry's init handler, when it returns zero. -/
def initCallOf (entry : Bytes × PluginInfo) : InitCall :=
  ⟨entry.1, entry.2.initHandler, entry.2.conf, entry.2.modelDir, 0⟩

/-- **The loop calls every entry's handler once, or stops at one that fails.** -/
theorem initLoop_spec (inits : InitHandlers) (entries : List (Bytes × PluginInfo))
    (calls : List InitCall) :
    ∃ more, (initLoop inits entries calls).1 = calls ++ more ∧
      if (initLoop inits entries calls).2 = 0 then more = entries.map initCallOf
      else ∃ call ∈ more, call.rc ≠ 0 := by
  induction entries generalizing calls with
  | nil => exact ⟨[], (List.append_nil _).symm, rfl⟩
  | cons entry entries ih =>
    obtain ⟨name, pit⟩ := entry
    rw [initLoop]
    by_cases hrc : inits calls.length pit.initHandler pit.conf pit.modelDir = 0
    · obtain ⟨more, hmore, hspec⟩ := ih (calls ++ [initCallOf (name, pit)])
      simp only [hrc, ne_eq, not_true_eq_false, if_false]
      refine ⟨initCallOf (name, pit) :: more, hmore.trans (by simp), ?_⟩
      show if (initLoop inits entries (calls ++ [initCallOf (name, pit)])).2 = 0 then _ else _
      split
      · rename_i hret
        rw [if_pos hret] at hspec
        rw [hspec, List.map_cons]
      · rename_i hret
        rw [if_neg hret] at hspec
        obtain ⟨call, hcall, hne⟩ := hspec
        exact ⟨call, List.mem_cons_of_mem _ hcall, hne⟩
    · simp only [ne_eq, hrc, not_false_eq_true, if_true]
      refine ⟨_, rfl, ?_⟩
      rw [if_neg (by decide)]
      exact ⟨_, List.mem_singleton_self _, hrc⟩

/-- `run_all_init` returns zero when no call failed. -/
theorem runAllInit_spec (inits : InitHandlers) (slot : PluginSlot PluginInfo) :
    if (runAllInit inits slot).2 = 0 then
      (runAllInit inits slot).1 = slot.pinfoList.toList.map initCallOf
    else ∃ call ∈ (runAllInit inits slot).1, call.rc ≠ 0 := by
  rw [runAllInit]
  split
  · rename_i hempty
    rw [← Std.ExtTreeMap.isEmpty_toList, List.isEmpty_iff] at hempty
    rw [hempty]
    rfl
  · obtain ⟨more, hmore, hspec⟩ := initLoop_spec inits slot.pinfoList.toList []
    rw [hmore, List.nil_append]
    exact hspec

/-- Among entries of distinct names, one is found under its name and no other. -/
theorem filter_name_eq_singleton {entries : List (Bytes × PluginInfo)}
    (hnodup : (entries.map Prod.fst).Nodup) {name : Bytes} {pit : PluginInfo}
    (hmem : (name, pit) ∈ entries) :
    (entries.map initCallOf).filter (fun call ↦ call.name == name) = [initCallOf (name, pit)] := by
  induction entries with
  | nil => exact absurd hmem (by simp)
  | cons entry entries ih =>
    rw [List.map_cons, List.nodup_cons] at hnodup
    obtain ⟨hnew, hnodup⟩ := hnodup
    rcases List.mem_cons.mp hmem with rfl | hmem
    · have hnone : (entries.map initCallOf).filter (fun call ↦ call.name == name) = [] := by
        rw [List.filter_eq_nil_iff]
        intro call hcall
        obtain ⟨e, he, rfl⟩ := List.mem_map.mp hcall
        have hne : e.1 ≠ name := fun h ↦ hnew (List.mem_map.mpr ⟨e, he, h⟩)
        simpa [initCallOf] using hne
      rw [List.map_cons, List.filter_cons_of_pos (by simp [initCallOf]), hnone]
    · have hne : entry.1 ≠ name := fun h ↦ hnew (List.mem_map.mpr ⟨_, hmem, h.symm⟩)
      rw [List.map_cons, List.filter_cons_of_neg (by simpa [initCallOf] using hne), ih hnodup hmem]

/-- **After a `run_all_init` that returns zero, each entry has been initialised once**, with its own
settings. -/
theorem initialised_once {inits : InitHandlers} {slot : PluginSlot PluginInfo}
    (hzero : (runAllInit inits slot).2 = 0) {name : Bytes} {pit : PluginInfo}
    (hpit : slot.getPluginInfo name = some pit) :
    (runAllInit inits slot).1.filter (fun call ↦ call.name == name)
      = [⟨name, pit.initHandler, pit.conf, pit.modelDir, 0⟩] := by
  have hspec := runAllInit_spec inits slot
  rw [if_pos hzero] at hspec
  rw [hspec]
  refine filter_name_eq_singleton ?_ (Std.ExtTreeMap.mem_toList_iff_getElem?_eq_some.mpr hpit)
  refine List.pairwise_map.mpr (slot.pinfoList.distinct_keys_toList.imp ?_)
  intro a b hab heq
  exact hab (Std.LawfulEqCmp.compare_eq_iff_eq.mpr heq)

end PluginSlot

/-! ## `ngx_http_graph` -/

/-- What the directive did. -/
structure Directive where
  /-- Did it return `NGX_CONF_OK`? -/
  ok : Bool
  /-- `plugin_slot`, once it is made. -/
  slot : Option (PluginSlot PluginInfo)
  /-- The init handlers it had called. -/
  initCalls : List InitCall

/-- `ngx_http_graph`, for the words of the directive, its own name being the first.  `clcf` says
whether nginx has the core module's configuration for the location, and `file` what opening a file
yields. -/
def ngxHttpGraph (dl : DynLib) (inits : InitHandlers) (file : Bytes → Option IStream) (clcf : Bool)
    (value : List Bytes) : Option Directive :=
  if !clcf then some ⟨false, none, []⟩
  else if value.length < 2 then some ⟨false, none, []⟩
  else
    let pluginConf := value.getD 1 []
    (load dl pluginConf (file (cstr pluginConf 0)) .empty).map fun r ↦
      if !r.1 then ⟨false, some r.2.slot, []⟩
      else
        let init := r.2.slot.runAllInit inits
        ⟨init.2 == 0, some r.2.slot, init.1⟩

/-- A location under the directive: events come only when nginx accepts the configuration. -/
def Directive.serve {ι : Type} [DecidableEq ι] (d : Directive) (clients : ι → Client)
    (actions : List (Action ι)) : Option (Location ι) :=
  if d.ok then d.slot.bind fun slot ↦ Location.run clients (.start slot) actions else none

/-- **What the directive did, when it returned.** -/
theorem ngxHttpGraph_cases {dl : DynLib} {inits : InitHandlers} {file : Bytes → Option IStream}
    {clcf : Bool} {value : List Bytes} {d : Directive}
    (hd : ngxHttpGraph dl inits file clcf value = some d) :
    (d.ok = false ∧ d.initCalls = []) ∨
      ∃ slot, d.slot = some slot ∧ d.ok = ((slot.runAllInit inits).2 == 0) ∧
        d.initCalls = (slot.runAllInit inits).1 := by
  rw [ngxHttpGraph] at hd
  split at hd
  · obtain rfl := Option.some.inj hd
    exact .inl ⟨rfl, rfl⟩
  · split at hd
    · obtain rfl := Option.some.inj hd
      exact .inl ⟨rfl, rfl⟩
    · obtain ⟨⟨ok, st⟩, -, rfl⟩ := Option.map_eq_some_iff.mp hd
      rcases ok with _ | _
      · exact .inl ⟨rfl, rfl⟩
      · exact .inr ⟨st.slot, rfl, rfl, rfl⟩

/-! ## The requests that follow -/

/-- The handlers called for a request are those of the plugin it asked for. -/
def CallsOwn (slot : PluginSlot PluginInfo) (o : Observation) : Prop :=
  ∀ call ∈ o.calls, ∃ name pit, o.plugins = [name] ∧ slot.getPluginInfo name = some pit ∧
    call.handler = pit.processHandler

theorem pluginsRun_append (s t : List Event) :
    pluginsRun (s ++ t) = pluginsRun s ++ pluginsRun t :=
  List.filterMap_append

theorem pluginsRun_callbackEvents (env : Env) (r : Request) (h : BodyHandler) :
    pluginsRun (callbackEvents env r h) = [] :=
  filterMap_callbackEvents (by simp) (by simp) (by simp) (by simp) env r h

/-- A request asks for one plugin at most. -/
theorem pluginsRun_pluginEvents (env : Env) (r : Request) (glcf : LocConf) (images : ImageList) :
    pluginsRun (pluginEvents env r glcf images) = ((pluginArgs r glcf).map Prod.fst).toList := by
  have hsend : ∀ resJson, pluginsRun (sendEvents env r resJson) = [] :=
    filterMap_sendEvents (by simp) (by simp) (by simp) (by simp) env r
  have hprocess : ∀ name ext res, pluginsRun (processEvents name ext images res) = [name] := by
    intro name ext res
    rw [processEvents]
    rcases res.invoked with _ | _ <;> rfl
  rw [pluginEvents]
  rcases pluginArgs r glcf with _ | ⟨name, ext⟩
  · rfl
  · simp only [pluginsRun_append, hprocess]
    split
    · rfl
    · split
      · rfl
      · rw [hsend]
        rfl

/-- What `run_process_by_name` calls is the process handler of the entry of that name. -/
theorem runProcessByName_invoked {slot : PluginSlot PluginInfo} {handlers : ProcessHandlers}
    {ii₀ : ℤ} {name : Bytes} {images : ImageList} {extPara resJson : Bytes} {handler : Sym}
    {ext : Option Bytes}
    (h : (slot.runProcessByName handlers ii₀ name images extPara resJson).invoked
      = some (handler, ext)) :
    ∃ pit, slot.getPluginInfo name = some pit ∧ handler = pit.processHandler := by
  rw [PluginSlot.runProcessByName] at h
  rcases hpit : slot.getPluginInfo name with _ | pit
  · rw [PluginSlot.runProcessDecoding_of_none hpit] at h
    exact absurd h (by simp)
  · rw [PluginSlot.runProcessDecoding, hpit] at h
    simp only at h
    refine ⟨pit, rfl, ?_⟩
    split at h
    · split at h
      · exact absurd h (by simp)
      · split at h
        · exact absurd h (by simp)
        · exact (congrArg Prod.fst (Option.some.inj h)).symm
    · exact (congrArg Prod.fst (Option.some.inj h)).symm

/-- **A callback calls the handler of the plugin it asked for.** -/
theorem callsOwn_run {env : Env} {r : Request} {h : BodyHandler} {glcf : LocConf} {w : World}
    (hw : h.run env r ⟨glcf, []⟩ = some w) (links : List Bytes) :
    CallsOwn glcf.pluginSlot (Phase.answered w.trace links).observe := by
  intro call hcall
  simp only [Phase.observe] at hcall ⊢
  rw [run_trace hw, List.nil_append, calls_append, calls_callbackEvents, List.nil_append] at hcall
  rw [run_trace hw, List.nil_append, pluginsRun_append, pluginsRun_callbackEvents,
    List.nil_append]
  rcases himages : callbackImages env r h with _ | images
  · rw [himages] at hcall
    exact absurd hcall (by simp [imagesEvents, calls])
  · rw [himages, imagesEvents, calls_pluginEvents, pluginResult] at hcall
    rw [imagesEvents, pluginsRun_pluginEvents]
    rcases hargs : pluginArgs r glcf with _ | ⟨name, ext⟩
    · rw [hargs] at hcall
      exact absurd hcall (by simp)
    · rw [hargs, Option.map_some, Option.bind_some] at hcall
      rcases hinv : (processOf env glcf name (ext.getD []) images).invoked with _ | ⟨handler, arg⟩
      · rw [hinv] at hcall
        exact absurd hcall (by simp)
      · rw [hinv] at hcall
        obtain rfl : call = ⟨handler, images, arg⟩ := by simpa using hcall
        obtain ⟨pit, hpit, hhandler⟩ := runProcessByName_invoked hinv
        exact ⟨name, pit, rfl, hpit, hhandler⟩

/-- **In every run of a location, every request calls the handlers of the plugin it asked for.** -/
theorem callsOwn_of_run {ι : Type} [DecidableEq ι] {clients : ι → Client}
    {slot : PluginSlot PluginInfo} {actions : List (Action ι)} {s : Location ι}
    (hrun : Location.run clients (.start slot) actions = some s) (i : ι) :
    CallsOwn slot (s.phase i).observe := by
  refine (Transition.run_invariant (P := fun (s : Location ι) ↦ s.glcf.pluginSlot = slot ∧
    ∀ i, CallsOwn slot (s.phase i).observe) ?_ ?_ hrun).2 i
  · rintro s a s₁ ⟨hslot, hown⟩ hstep
    obtain ⟨p, hphase, hslot₁, hnext⟩ := step_cases hstep
    refine ⟨hslot₁.trans hslot, fun j ↦ ?_⟩
    rw [hphase]
    by_cases hj : j = a.client
    · subst hj
      rw [advance_phase_self]
      rcases hnext with hnone | ⟨env, r, h, glcf, w, hglcf, hw, rfl⟩ | ⟨events, links, hp, rfl⟩
      · intro call hcall
        exact absurd hcall (by simp [hnone])
      · rw [← hslot, ← hglcf]
        exact callsOwn_run hw _
      · -- the writing leaves the calls as they were
        have := hown a.client
        rwa [hp] at this
    · rw [advance_phase_of_ne hj]
      exact hown j
  · refine ⟨rfl, fun j call hcall ↦ ?_⟩
    exact absurd hcall (by simp [Location.start, Phase.observe])

/-- **Init before process.**  Whatever requests come after the directive was accepted, a process
handler is called only for the plugin asked for, and the init handler of that plugin's entry was
called exactly once, with the entry's own settings, and returned zero.  If an init handler fails,
the directive is rejected and nothing is served. -/
theorem init_before_process {dl : DynLib} {inits : InitHandlers} {file : Bytes → Option IStream}
    {clcf : Bool} {value : List Bytes} {d : Directive}
    (hd : ngxHttpGraph dl inits file clcf value = some d) :
    (∀ (ι : Type) [DecidableEq ι] (clients : ι → Client) (actions : List (Action ι)) s,
      d.serve clients actions = some s → ∀ i, ∀ call ∈ (s.phase i).observe.calls,
        ∃ slot name pit, d.slot = some slot ∧ (s.phase i).observe.plugins = [name] ∧
          slot.getPluginInfo name = some pit ∧ call.handler = pit.processHandler ∧
          d.initCalls.filter (fun init ↦ init.name == name)
            = [⟨name, pit.initHandler, pit.conf, pit.modelDir, 0⟩]) ∧
      ((∃ init ∈ d.initCalls, init.rc ≠ 0) → d.ok = false ∧
        ∀ (ι : Type) [DecidableEq ι] (clients : ι → Client) (actions : List (Action ι)),
          d.serve clients actions = none) := by
  constructor
  · intro ι _ clients actions s hserve i call hcall
    rw [Directive.serve] at hserve
    split at hserve
    · rename_i hok
      rcases ngxHttpGraph_cases hd with ⟨hrej, -⟩ | ⟨slot, hslot, hacc, hcalls⟩
      · exact absurd hok (by simp [hrej])
      · rw [hslot, Option.bind_some] at hserve
        obtain ⟨name, pit, hplugins, hpit, hhandler⟩ := callsOwn_of_run hserve i call hcall
        have hzero : (slot.runAllInit inits).2 = 0 := by simpa [hacc] using hok
        exact ⟨slot, name, pit, hslot, hplugins, hpit, hhandler,
          hcalls ▸ PluginSlot.initialised_once hzero hpit⟩
    · exact absurd hserve (by simp)
  · rintro ⟨init, hinit, hrc⟩
    have hrej : d.ok = false := by
      rcases ngxHttpGraph_cases hd with ⟨hrej, -⟩ | ⟨slot, -, hacc, hcalls⟩
      · exact hrej
      · rw [hacc, beq_eq_false_iff_ne]
        intro hzero
        -- with all returning zero, none of the calls failed
        have hspec := PluginSlot.runAllInit_spec inits slot
        rw [if_pos hzero] at hspec
        rw [hcalls, hspec] at hinit
        obtain ⟨entry, -, rfl⟩ := List.mem_map.mp hinit
        exact hrc rfl
    exact ⟨hrej, fun ι _ clients actions ↦ by rw [Directive.serve, hrej]; rfl⟩

/-- A configuration of two plugins whose init handlers both return zero. -/
def twoPlugins : Bytes := lit "poem|a.so|init|run|c|m|true face|a.so|init|run||"

/-- A pull for the second of them. -/
def faceRequest : Client where
  request := { getPull with
    args := lit "src=pull&plugin=face", contentLengthN := 9, requestBody := none }
  value := ⟨[], 0⟩
  env := .smooth
  bodyFile := []
  arrivals := [⟨[(lit "imgurl:ab", [])], true, false⟩]

/-- It is handled, and its callback is run. -/
def faceRun (d : Directive) : Option (Location Bool) :=
  d.serve (fun _ ↦ faceRequest) [.handle true, .callback true 0]

/-- The request is served: the handler called for it is that of `face`, which was initialised. -/
theorem init_before_process_twoPlugins :
    ∃ d s call, ngxHttpGraph (.const (fun _ ↦ some 1) fun _ _ ↦ some 2) (fun _ _ _ _ ↦ 0)
        (fun _ ↦ some (.ofText twoPlugins)) true [lit "fp", lit "p.conf"] = some d ∧
      d.initCalls = [⟨lit "face", 2, [], [], 0⟩, ⟨lit "poem", 2, lit "c", lit "m", 0⟩] ∧
      faceRun d = some s ∧ (s.phase true).observe.calls = [call] ∧
        ∃ slot name pit, d.slot = some slot ∧ (s.phase true).observe.plugins = [name] ∧
          slot.getPluginInfo name = some pit ∧ call.handler = pit.processHandler ∧
          d.initCalls.filter (fun init ↦ init.name == name)
            = [⟨name, pit.initHandler, pit.conf, pit.modelDir, 0⟩] := by
  have hrun : (ngxHttpGraph (.const (fun _ ↦ some 1) fun _ _ ↦ some 2) (fun _ _ _ _ ↦ 0)
      (fun _ ↦ some (.ofText twoPlugins)) true [lit "fp", lit "p.conf"]).map
        (fun d ↦ (d.initCalls, (faceRun d).map fun s ↦ (s.phase true).observe.calls))
          = some ([⟨lit "face", 2, [], [], 0⟩, ⟨lit "poem", 2, lit "c", lit "m", 0⟩],
            some [⟨2, [(lit "0001", lit "ab")], none⟩]) := by decide +kernel
  obtain ⟨d, hd, hdone⟩ := Option.map_eq_some_iff.mp hrun
  obtain ⟨hcalls, hserved⟩ := Prod.mk.inj hdone
  obtain ⟨s, hs, hcall⟩ := Option.map_eq_some_iff.mp hserved
  exact ⟨d, s, _, hd, hcalls, hs, hcall, (init_before_process hd).1 Bool (fun _ ↦ faceRequest)
    [.handle true, .callback true 0] s hs true _ (by rw [hcall]; exact List.mem_singleton_self _)⟩

end ImgPredictor
