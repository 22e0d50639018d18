import ImgPredictor.Graph.Directive
import ImgPredictor.Graph.Serial
import ImgPredictor.PluginSlot.Format

/-!
# From the configuration file to the calls

The directive reads the configuration file, and what the file lists decides what is called from then
on: each plugin's init handler when nginx starts, and the process handlers for the requests.

`configured`: **the calls are a function of the file, the request and what `url_decode` finds on the
stack**, and of the first two alone if the extension parameter settles the variable.  Of several
plugins of one name only the first counts, for both kinds of call.  What else is in the location,
which requests come before and which in between, does not matter.
-/

set_option autoImplicit false

namespace ImgPredictor

open Bytes Lists

/-! ## What is to be called -/

/-- The plugin that counts for a name. -/
def pluginNamed (specs : List PluginSpec) (name : Bytes) : Option PluginSpec :=
  specs.find? fun spec ↦ spec.name == name

section

variable (dlopen : Bytes → Option Handle) (dlsym : Handle → Bytes → Option Sym)

/-- The calls of init handlers for a name. -/
def initCallsFor (specs : List PluginSpec) (name : Bytes) : List InitCall :=
  (((pluginNamed specs name).bind (PluginSpec.resolve dlopen dlsym)).map fun pit ↦
    ⟨name, pit.initHandler, pit.conf, pit.modelDir, 0⟩).toList

/-- The call of a process handler that images lead to: that of the plugin asked for, with the
extension parameter if the plugin takes one. -/
def callWith (specs : List PluginSpec) (request : Request) (ii : ℤ) (images : ImageList) :
    Option HandlerCall :=
  (argOf request (lit "plugin")).bind fun name ↦
    ((pluginNamed specs name).bind (PluginSpec.resolve dlopen dlsym)).bind fun pit ↦
      if pit.hasExtIn then
        let ext := urlDecodeAny ii ((argOf request (lit "ext")).getD [])
        if ext.isEmpty then none else some ⟨pit.processHandler, images, some (cstr ext 0)⟩
      else some ⟨pit.processHandler, images, none⟩

/-- The calls of process handlers for a request: one, if its images can be got and its plugin can be
called with them. -/
def callsFor (specs : List PluginSpec) (c : Client) (ii : ℤ) : List HandlerCall :=
  ((c.called.bind fun p ↦ callbackImages c.env p.1 p.2).bind
    (callWith dlopen dlsym specs c.request ii)).toList

end

/-! ## The table -/

section

variable {dlopen : Bytes → Option Handle} {dlsym : Handle → Bytes → Option Sym}

/-- **What is found in the table** is the record of the plugin that counts. -/
theorem getPluginInfo_install {specs : List PluginSpec}
    (h : (install dlopen dlsym .empty specs).1 = true) (name : Bytes) :
    (install dlopen dlsym .empty specs).2.getPluginInfo name
      = (pluginNamed specs name).bind (PluginSpec.resolve dlopen dlsym) := by
  obtain ⟨pits, hpits, hname⟩ := exists_resolved h
  rw [install, hpits, getPluginInfo_loadRecords _ (filled_of_names hname),
    PluginSlot.getPluginInfo_empty, Option.none_or, pluginNamed]
  clear h
  induction specs generalizing pits with
  | nil =>
    obtain rfl := List.map_eq_nil_iff.mp hname.symm
    rfl
  | cons spec specs ih =>
    cases pits with
    | nil => exact absurd hname (by simp)
    | cons pit pits =>
      rw [List.map_cons, List.map_cons, List.cons.injEq] at hpits hname
      rw [List.find?_cons, List.find?_cons, hname.1]
      cases pit.name == name with
      | true => exact hpits.1.symm
      | false => exact ih pits hpits.2 hname.2

/-- **A file that is loaded lists plugins**, and the table is what they make of an empty one. -/
theorem install_of_load {conf text : Bytes} {st : LoadState}
    (h : load (.const dlopen dlsym) conf (some (.ofText text)) .empty = some (true, st)) :
    ∃ specs, specsOf text = some specs ∧ install dlopen dlsym .empty specs = (true, st.slot) := by
  have hconf : conf ≠ [] := by
    rintro rfl
    exact absurd (congrArg Prod.fst (Option.some.inj h)) Bool.false_ne_true
  have hload := outcome_load dlopen dlsym hconf text .empty
  rw [h, outcome, Option.map_some, Option.some.injEq] at hload
  have hall := (loadRecords_fst .empty _).mp (congrArg Prod.fst hload).symm
  obtain ⟨specs, hspecs, hrecords⟩ := exists_specsOf dlopen dlsym hall
  rw [hrecords] at hload
  exact ⟨specs, hspecs, hload.symm⟩

/-- An accepted directive, with the table it loaded and the init handlers it called. -/
theorem loaded_of_ok {inits : InitHandlers} {file : Bytes → Option IStream} {clcf : Bool}
    {value : List Bytes} {text : Bytes}
    (hfile : file (cstr (value.getD 1 []) 0) = some (.ofText text)) {d : Directive}
    (hd : ngxHttpGraph (.const dlopen dlsym) inits file clcf value = some d)
    (hok : d.ok = true) :
    ∃ specs slot, specsOf text = some specs ∧ install dlopen dlsym .empty specs = (true, slot) ∧
      d.slot = some slot ∧ (slot.runAllInit inits).2 = 0 ∧
      d.initCalls = (slot.runAllInit inits).1 := by
  simp only [ngxHttpGraph, hfile] at hd
  split at hd
  · obtain rfl := Option.some.inj hd
    exact absurd hok Bool.false_ne_true
  · split at hd
    · obtain rfl := Option.some.inj hd
      exact absurd hok Bool.false_ne_true
    · obtain ⟨⟨ok, st⟩, hload, rfl⟩ := Option.map_eq_some_iff.mp hd
      cases ok with
      | false => exact absurd hok Bool.false_ne_true
      | true =>
        obtain ⟨specs, hspecs, hinstall⟩ := install_of_load hload
        exact ⟨specs, st.slot, hspecs, hinstall, rfl, by simpa using hok, rfl⟩

/-- The init handlers that were called for a name. -/
theorem initCalls_eq {inits : InitHandlers} {specs : List PluginSpec}
    {slot : PluginSlot PluginInfo} (hinstall : install dlopen dlsym .empty specs = (true, slot))
    (hzero : (slot.runAllInit inits).2 = 0) (name : Bytes) :
    (slot.runAllInit inits).1.filter (fun call ↦ call.name == name)
      = initCallsFor dlopen dlsym specs name := by
  have hfound := getPluginInfo_install (congrArg Prod.fst hinstall) name
  rw [hinstall] at hfound
  rw [initCallsFor, ← hfound]
  cases hpit : slot.getPluginInfo name with
  | some pit => exact PluginSlot.initialised_once hzero hpit
  | none =>
    have hspec := PluginSlot.runAllInit_spec inits slot
    rw [if_pos hzero] at hspec
    rw [hspec, Option.map_none, Option.toList_none, List.filter_eq_nil_iff]
    intro call hcall hname
    obtain ⟨⟨key, pit⟩, hentry, rfl⟩ := List.mem_map.mp hcall
    obtain rfl : key = name := beq_iff_eq.mp hname
    rw [PluginSlot.getPluginInfo, Std.ExtTreeMap.mem_toList_iff_getElem?_eq_some.mp hentry] at hpit
    exact absurd hpit (by simp)

/-- **What a callback calls.** -/
theorem calls_of_callback {specs : List PluginSpec} {glcf : LocConf}
    (hinstall : install dlopen dlsym .empty specs = (true, glcf.pluginSlot)) {c : Client}
    (hargs : c.request.args ≠ []) {r : Request} {h : BodyHandler} (hc : c.called = some (r, h))
    {ii : ℤ} {w : World} (hw : h.run (c.env.withStack ii) r ⟨glcf, []⟩ = some w) :
    calls w.trace = callsFor dlopen dlsym specs c ii := by
  have hr := called_args hc
  have harg : ∀ name, argOf r name = argOf c.request name := by
    intro name
    rw [argOf_eq, hr, ← argOf_eq]
  rw [run_trace hw, List.nil_append, calls_append, calls_callbackEvents, List.nil_append,
    (callback_withStack c.env ii r h).2, callsFor, hc, Option.bind_some]
  cases callbackImages c.env r h with
  | none => rfl
  | some images =>
    have hplugin : pluginArgs r glcf = (argOf c.request (lit "plugin")).map
        fun name ↦ (name, argOf c.request (lit "ext")) := by
      rw [pluginArgs, if_neg (by simpa [hr] using hargs), harg, harg]
    rw [imagesEvents, calls_pluginEvents, pluginResult, hplugin, Option.bind_some, callWith,
      Option.map_map]
    cases argOf c.request (lit "plugin") with
    | none => rfl
    | some name =>
      have hfound := getPluginInfo_install (congrArg Prod.fst hinstall) name
      rw [hinstall] at hfound
      simp only [Option.map_some, Option.bind_some, Function.comp_apply, processOf,
        PluginSlot.runProcessByName, ← hfound, show (c.env.withStack ii).ii₀ = ii from rfl]
      cases hpit : glcf.pluginSlot.getPluginInfo name with
      | none =>
        rw [PluginSlot.runProcessDecoding_of_none hpit]
        rfl
      | some pit =>
        rw [Option.bind_some]
        cases hflag : pit.hasExtIn with
        | false =>
          rw [PluginSlot.runProcessDecoding_of_plain hpit hflag]
          rfl
        | true =>
          by_cases hext : (argOf c.request (lit "ext")).getD [] = []
          · rw [PluginSlot.runProcessDecoding, hpit, hext]
            simp only [hflag]
            rfl
          · rw [PluginSlot.runProcessDecoding_of_ext hpit hflag _ _ _ hext]
            simp only [if_true]
            split <;> rfl

/-- Where the parameter settles the variable, the calls do not depend on it. -/
theorem callsFor_settled (specs : List PluginSpec) {c : Client}
    (h : ∀ ext, argOf c.request (lit "ext") = some ext → Settles ext) (ii ii' : ℤ) :
    callsFor dlopen dlsym specs c ii = callsFor dlopen dlsym specs c ii' := by
  have hsettles : Settles ((argOf c.request (lit "ext")).getD []) := by
    cases hext : argOf c.request (lit "ext") with
    | none => exact (settles_iff []).mpr fun _ _ ↦ rfl
    | some ext => exact h ext hext
  have hcall : callWith dlopen dlsym specs c.request ii
      = callWith dlopen dlsym specs c.request ii' := by
    funext images
    rw [callWith, callWith]
    simp only [isEmpty_urlDecodeAny, (settles_iff _).mp hsettles ii ii']
  rw [callsFor, callsFor, hcall]

end

/-! ## A run of a location -/

section

variable {ι : Type} [DecidableEq ι] {clients : ι → Client}

/-- A request whose callback has run had it run before, or has it run now. -/
theorem callback_of_step {s s₁ : Location ι} {a : Action ι} (hstep : s.step clients a = some s₁)
    {i : ι} (hran : (s₁.phase i).Ran) :
    ((s.phase i).Ran ∧ (s₁.phase i).events = (s.phase i).events) ∨
      ∃ ii r h w, a = .callback i ii ∧ (clients i).called = some (r, h) ∧
        BodyHandler.run ((clients i).env.withStack ii) r ⟨s.glcf, []⟩ h = some w ∧
        (s₁.phase i).events = w.trace := by
  by_cases hi : i = a.client
  · subst hi
    rcases a with j | ⟨j, ii⟩ | j
    · rw [Location.step] at hstep
      split at hstep
      · obtain ⟨p, hp, rfl⟩ := Option.map_eq_some_iff.mp hstep
        rw [Action.client, advance_phase_self] at hran
        rcases Dispatch.phase_cases hp with ⟨rc, logged, -, rfl⟩ | ⟨r, handler, -, rfl⟩ <;>
          exact absurd hran id
      · exact absurd hstep (by simp)
    · rw [Location.step] at hstep
      split at hstep
      · obtain ⟨⟨r, h⟩, hc, hrun⟩ := Option.bind_eq_some_iff.mp hstep
        obtain ⟨w, hw, rfl⟩ := Option.map_eq_some_iff.mp hrun
        refine .inr ⟨ii, r, h, w, rfl, hc, hw, ?_⟩
        rw [Action.client, finish_phase_self]
        rfl
      · exact absurd hstep (by simp)
    · rw [Location.step] at hstep
      split at hstep
      · rename_i events links hp
        obtain rfl := Option.some.inj hstep
        rw [Action.client, advance_phase_self, hp]
        exact .inl ⟨trivial, rfl⟩
      · exact absurd hstep (by simp)
  · rw [phase_of_step hstep hi] at hran ⊢
    exact .inl ⟨hran, rfl⟩

/-- **The callback behind a phase.**  What a request has done is what it had done before, or what
its callback did, with the table that was there from the start. -/
theorem exists_callback_of_ran {actions : List (Action ι)} {s s' : Location ι}
    (hrun : Location.run clients s actions = some s') {i : ι} (hran : (s'.phase i).Ran) :
    ((s.phase i).Ran ∧ (s'.phase i).events = (s.phase i).events) ∨
      ∃ ii r h glcf w, .callback i ii ∈ actions ∧ (clients i).called = some (r, h) ∧
        glcf.pluginSlot = s.glcf.pluginSlot ∧
        BodyHandler.run ((clients i).env.withStack ii) r ⟨glcf, []⟩ h = some w ∧
        (s'.phase i).events = w.trace := by
  induction actions generalizing s with
  | nil =>
    obtain rfl := Option.some.inj hrun
    exact .inl ⟨hran, rfl⟩
  | cons a actions ih =>
    obtain ⟨s₁, h₁, hrest⟩ := (Transition.run_cons_eq_some _).mp hrun
    rcases ih hrest with ⟨hran₁, hevents⟩ | ⟨ii, r, h, glcf, w, hmem, hc, hslot, hw, htrace⟩
    · rcases callback_of_step h₁ hran₁ with ⟨hran, hevents'⟩ | ⟨ii, r, h, w, rfl, hc, hw, htrace⟩
      · exact .inl ⟨hran, hevents.trans hevents'⟩
      · exact .inr ⟨ii, r, h, s.glcf, w, List.mem_cons_self, hc, rfl, hw, hevents.trans htrace⟩
    · obtain ⟨_, -, hslot₁, -⟩ := step_cases h₁
      exact .inr ⟨ii, r, h, glcf, w, List.mem_cons_of_mem _ hmem, hc, hslot.trans hslot₁, hw,
        htrace⟩

end

/-- **The file decides what is called.**  Once the directive is accepted, the file lists plugins,
all of which could be resolved; for each name the init handler of the plugin that counts was called,
once; and in every run, every request with a query string has called the process handler of the
plugin that counts for the name it asked for, with its own images and its own parameter, or none.
Only a parameter whose first escape does not convert lets the stack have a say. -/
theorem configured {dlopen : Bytes → Option Handle} {dlsym : Handle → Bytes → Option Sym}
    {inits : InitHandlers} {file : Bytes → Option IStream} {clcf : Bool} {value : List Bytes}
    {text : Bytes} (hfile : file (cstr (value.getD 1 []) 0) = some (.ofText text)) {d : Directive}
    (hd : ngxHttpGraph (.const dlopen dlsym) inits file clcf value = some d) (hok : d.ok = true) :
    ∃ specs, specsOf text = some specs ∧
      (∀ spec ∈ specs, (spec.resolve dlopen dlsym).isSome = true) ∧
      (∀ name, d.initCalls.filter (fun call ↦ call.name == name)
        = initCallsFor dlopen dlsym specs name) ∧
      ∀ (ι : Type) [DecidableEq ι] (clients : ι → Client) (actions : List (Action ι)) s,
        d.serve clients actions = some s → ∀ i, (clients i).request.args ≠ [] →
          (s.phase i).Ran → ∃ ii, .callback i ii ∈ actions ∧
            calls (s.phase i).events = callsFor dlopen dlsym specs (clients i) ii ∧
            ((∀ ext, argOf (clients i).request (lit "ext") = some ext → Settles ext) →
              ∀ ii', calls (s.phase i).events
                = callsFor dlopen dlsym specs (clients i) ii') := by
  obtain ⟨specs, slot, hspecs, hinstall, hslot, hzero, hinit⟩ := loaded_of_ok hfile hd hok
  refine ⟨specs, hspecs, fun spec hspec ↦ ?_, fun name ↦ ?_, ?_⟩
  · exact (loadRecords_fst .empty _).mp (congrArg Prod.fst hinstall) _ (List.mem_map_of_mem hspec)
  · rw [hinit]
    exact initCalls_eq hinstall hzero name
  · intro ι _ clients actions s hserve i hargs hran
    rw [Directive.serve, if_pos hok, hslot, Option.bind_some] at hserve
    rcases exists_callback_of_ran hserve hran with ⟨hnew, -⟩ | ⟨ii, r, h, glcf, w, hmem, hc, hglcf,
      hw, hevents⟩
    · exact absurd hnew id
    · have htable : install dlopen dlsym .empty specs = (true, glcf.pluginSlot) :=
        hinstall.trans (congrArg _ hglcf.symm)
      have hcalls := hevents ▸ calls_of_callback htable hargs hc hw
      exact ⟨ii, hmem, hcalls, fun hsettled ii' ↦
        hcalls.trans (callsFor_settled specs hsettled ii ii')⟩

theorem ran_of_calls {p : Phase} (h : calls p.events ≠ []) : p.Ran := by
  cases p with
  | answered events links => trivial
  | written events response => trivial
  | _ => exact absurd rfl h

/-- The pull for `face` is served: what it called is what the file and the request say. -/
theorem configured_twoPlugins : ∃ d specs s,
    ngxHttpGraph (.const (fun _ ↦ some 1) fun _ _ ↦ some 2) (fun _ _ _ _ ↦ 0)
      (fun _ ↦ some (.ofText twoPlugins)) true [lit "fp", lit "p.conf"] = some d ∧
      specsOf twoPlugins = some specs ∧
      (∀ name, d.initCalls.filter (fun call ↦ call.name == name)
        = initCallsFor (fun _ ↦ some 1) (fun _ _ ↦ some 2) specs name) ∧
      faceRun d = some s ∧
      calls (s.phase true).events = [⟨2, [(lit "0001", lit "ab")], none⟩] ∧
      callsFor (fun _ ↦ some 1) (fun _ _ ↦ some 2) specs faceRequest 65
        = [⟨2, [(lit "0001", lit "ab")], none⟩] := by
  have hrun : (ngxHttpGraph (.const (fun _ ↦ some 1) fun _ _ ↦ some 2) (fun _ _ _ _ ↦ 0)
      (fun _ ↦ some (.ofText twoPlugins)) true [lit "fp", lit "p.conf"]).map
        (fun d ↦ (d.ok, (faceRun d).map fun s ↦ calls (s.phase true).events))
          = some (true, some [⟨2, [(lit "0001", lit "ab")], none⟩]) := by decide +kernel
  obtain ⟨d, hd, hdone⟩ := Option.map_eq_some_iff.mp hrun
  obtain ⟨hok, hserved⟩ := Prod.mk.inj hdone
  obtain ⟨s, hs, hcalls⟩ := Option.map_eq_some_iff.mp hserved
  obtain ⟨specs, hspecs, -, hinit, hserve⟩ := configured rfl hd hok
  have hran : (s.phase true).Ran := ran_of_calls (by simp [hcalls])
  have hargs : faceRequest.request.args ≠ [] := by decide
  have hext : argOf faceRequest.request (lit "ext") = none := by decide +kernel
  obtain ⟨ii, -, -, hsettled⟩ := hserve Bool (fun _ ↦ faceRequest)
    [.handle true, .callback true 0] s hs true hargs hran
  refine ⟨d, specs, s, hd, hspecs, hinit, hs, hcalls, ?_⟩
  rw [← hcalls]
  exact (hsettled (fun ext h ↦ absurd (hext.symm.trans h) (by simp)) 65).symm

end ImgPredictor
