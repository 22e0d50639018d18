import ImgPredictor.Graph.Location

/-!
# What one request shows of others

The fields of the location's configuration are left as the last request had them, whichever way it
ended.  A request with a query string writes each of them before it reads it: the vector and the
index in front of the loop, `type` and `ext` when the arguments are looked up, `out_cl` when the
answer is there.  Only the plugin table is read as it is, and nothing writes it.

What is not written before it is read is the variable `ii` of `url_decode`.  `unaffected_iff` says
that a request is answered the same whatever came before it and in between, except for that: its
plugin may be given what `ii` happened to hold, when the first escape of the extension parameter
cannot be converted.
-/

set_option autoImplicit false

namespace ImgPredictor

open Bytes

/-! ## Runs side by side -/

section

variable {ι : Type}

/-- The same event of the same request, whatever is left on the stack. -/
def Action.Alike : Action ι → Action ι → Prop
  | .handle i, .handle j => i = j
  | .callback i _, .callback j _ => i = j
  | .write i, .write j => i = j
  | _, _ => False

theorem Action.Alike.cases {a a' : Action ι} (h : a.Alike a') :
    (∃ i, a = .handle i ∧ a' = .handle i) ∨
      (∃ i ii ii', a = .callback i ii ∧ a' = .callback i ii') ∨
      ∃ i, a = .write i ∧ a' = .write i := by
  rcases a with i | ⟨i, ii⟩ | i <;> rcases a' with j | ⟨j, ii'⟩ | j
  case handle.handle =>
    obtain rfl : i = j := h
    exact .inl ⟨i, rfl, rfl⟩
  case callback.callback =>
    obtain rfl : i = j := h
    exact .inr (.inl ⟨i, ii, ii', rfl, rfl⟩)
  case write.write =>
    obtain rfl : i = j := h
    exact .inr (.inr ⟨i, rfl, rfl⟩)
  all_goals exact absurd h id

variable [DecidableEq ι]

/-- The request `t` is answered as if it were the only one: in every run of the location, with any
other requests before it and in between, it is observed as in a run of its own events alone. -/
def Unaffected (clients : ι → Client) (slot : PluginSlot PluginInfo) (t : ι) : Prop :=
  ∀ actions actions' s, Location.run clients (.start slot) actions = some s →
    List.Forall₂ Action.Alike (actions.filter fun a ↦ a.client = t) actions' →
      ∃ s', Location.run clients (.start slot) actions' = some s' ∧
        (s.phase t).observe = (s'.phase t).observe

end

/-- A request that comes to a plugin with the ext flag brings an extension parameter of which the
first escape converts. -/
def Client.Steady (slot : PluginSlot PluginInfo) (c : Client) : Prop :=
  ∀ r h images name pit ext, c.called = some (r, h) → callbackImages c.env r h = some images →
    argOf c.request (lit "plugin") = some name → slot.getPluginInfo name = some pit →
      pit.hasExtIn = true → argOf c.request (lit "ext") = some ext → Settles ext

/-! ## What the plugin is given -/

/-- A request with a callback was not refused by the handler. -/
theorem handler_of_called {c : Client} {r : Request} {h : BodyHandler}
    (hc : c.called = some (r, h)) :
    ∃ r', c.dispatch = .read r' h ∧
      r = ngxHttpReadClientRequestBody r' c.bodyFile c.arrivals := by
  rw [Client.called] at hc
  split at hc
  · exact absurd hc (by simp)
  · exact absurd hc (by simp)
  · rename_i r' h' hd
    obtain ⟨rfl, rfl⟩ := Prod.mk.inj (Option.some.inj hc)
    exact ⟨r', hd, rfl⟩

theorem called_args {c : Client} {r : Request} {h : BodyHandler} (hc : c.called = some (r, h)) :
    r.args = c.request.args := by
  obtain ⟨r', hd, rfl⟩ := handler_of_called hc
  have hread : (ngxHttpReadClientRequestBody r' c.bodyFile c.arrivals).args = r'.args := by
    rw [ngxHttpReadClientRequestBody]
    split <;> rfl
  rw [hread]
  rcases (read_of_handler hd).2 with ⟨-, rfl⟩ | ⟨-, rfl⟩ <;> rfl

/-- Where the parameter settles the variable, the call of the plugin does not depend on it. -/
theorem processOf_withStack (env : Env) (ii ii' : ℤ) {glcf glcf' : LocConf}
    (hslot : glcf'.pluginSlot = glcf.pluginSlot) {name ext : Bytes} (images : ImageList)
    (h : ∀ pit, glcf.pluginSlot.getPluginInfo name = some pit → pit.hasExtIn = true →
      Settles ext) :
    processOf (env.withStack ii') glcf' name ext images
      = processOf (env.withStack ii) glcf name ext images := by
  rw [processOf, processOf, hslot, PluginSlot.runProcessByName, PluginSlot.runProcessByName]
  rcases hpit : glcf.pluginSlot.getPluginInfo name with _ | pit
  · rw [PluginSlot.runProcessDecoding_of_none hpit, PluginSlot.runProcessDecoding_of_none hpit]
  · rcases hflag : pit.hasExtIn with _ | _
    · rw [PluginSlot.runProcessDecoding_of_plain hpit hflag,
        PluginSlot.runProcessDecoding_of_plain hpit hflag]
      rfl
    · have hcstr := (settles_iff ext).mp (h pit hpit hflag) ii' ii
      rw [PluginSlot.runProcessDecoding, PluginSlot.runProcessDecoding, hpit]
      simp only [hflag, if_true, isEmpty_urlDecodeAny, Env.withStack, hcstr]

/-- **Once the images are there, a request with a query string reads nothing of the configuration
but the plugin table.** -/
theorem imagesEvents_withStack (env : Env) (ii ii' : ℤ) {r : Request} (hargs : r.args ≠ [])
    {glcf glcf' : LocConf} (hslot : glcf'.pluginSlot = glcf.pluginSlot)
    (images : Option ImageList)
    (h : ∀ im name pit ext, images = some im → argOf r (lit "plugin") = some name →
      glcf.pluginSlot.getPluginInfo name = some pit → pit.hasExtIn = true →
        argOf r (lit "ext") = some ext → Settles ext) :
    imagesEvents (env.withStack ii') r glcf' images
      = imagesEvents (env.withStack ii) r glcf images := by
  rcases images with _ | im
  · rfl
  · have hempty : r.args.isEmpty = false := by simpa using hargs
    simp only [imagesEvents, pluginEvents, pluginArgs, hempty, Bool.false_eq_true, if_false]
    rcases hname : argOf r (lit "plugin") with _ | name
    · rfl
    · have hsettles : ∀ pit, glcf.pluginSlot.getPluginInfo name = some pit → pit.hasExtIn = true →
          Settles ((argOf r (lit "ext")).getD []) := by
        intro pit hpit hflag
        rcases hext : argOf r (lit "ext") with _ | ext
        · exact (settles_iff []).mpr fun _ _ ↦ rfl
        · exact h im name pit ext rfl hname hpit hflag hext
      simp only [Option.map_some, processOf_withStack env ii ii' hslot im hsettles]
      rfl

/-! ## Two runs -/

section

variable {ι : Type} [DecidableEq ι] {clients : ι → Client} {slot : PluginSlot PluginInfo} {t : ι}

/-- The callback of a steady request comes to the same from two configurations with the same
table, whatever is left on the stack. -/
theorem callback_trace_congr {c : Client} (hargs : c.request.args ≠ []) (hsteady : c.Steady slot)
    {r : Request} {h : BodyHandler} (hc : c.called = some (r, h)) {ii ii' : ℤ}
    {glcf glcf' : LocConf} (hglcf : glcf.pluginSlot = slot) (hglcf' : glcf'.pluginSlot = slot)
    {w w' : World} (hw : h.run (c.env.withStack ii) r ⟨glcf, []⟩ = some w)
    (hw' : h.run (c.env.withStack ii') r ⟨glcf', []⟩ = some w') : w'.trace = w.trace := by
  have hr := called_args hc
  rw [run_trace hw, run_trace hw', (callback_withStack c.env ii r h).1,
    (callback_withStack c.env ii r h).2, (callback_withStack c.env ii' r h).1,
    (callback_withStack c.env ii' r h).2]
  congr 2
  refine imagesEvents_withStack c.env ii ii' (hr ▸ hargs) (hglcf'.trans hglcf.symm) _ ?_
  intro im name pit ext himages hname hpit hflag hext
  rw [argOf_eq, hr, ← argOf_eq] at hname hext
  exact hsteady r h im name pit ext hc himages hname (hglcf ▸ hpit) hflag hext

/-- An event of the request does to its phase what it does in another run, where the phase is the
same. -/
theorem step_alike (hargs : (clients t).request.args ≠ []) (hsteady : (clients t).Steady slot)
    {s s' s₁ : Location ι} {a a' : Action ι} (hs : s.glcf.pluginSlot = slot)
    (hs' : s'.glcf.pluginSlot = slot) (hview : s.phase t = s'.phase t) (hmine : a.client = t)
    (halike : a.Alike a') (hstep : s.step clients a = some s₁) :
    ∃ s₁', s'.step clients a' = some s₁' ∧ s₁.phase t = s₁'.phase t := by
  rcases halike.cases with ⟨i, rfl, rfl⟩ | ⟨i, ii, ii', rfl, rfl⟩ | ⟨i, rfl, rfl⟩
  · -- the handler looks at nothing but the request
    obtain rfl : i = t := hmine
    rw [Location.step] at hstep
    split at hstep
    · rename_i hp
      obtain ⟨p, hphase, rfl⟩ := Option.map_eq_some_iff.mp hstep
      refine ⟨s'.advance i p, by rw [Location.step, ← hview, hp, hphase]; rfl, ?_⟩
      simp only [advance_phase_self]
    · exact absurd hstep (by simp)
  · obtain rfl : i = t := hmine
    rw [Location.step] at hstep
    split at hstep
    · rename_i hp
      obtain ⟨⟨r, h⟩, hc, hrun⟩ := Option.bind_eq_some_iff.mp hstep
      obtain ⟨w, hw, rfl⟩ := Option.map_eq_some_iff.mp hrun
      obtain ⟨w', hw'⟩ : ∃ w', h.run ((clients i).env.withStack ii') r ⟨s'.glcf, []⟩
          = some w' := by
        rw [← Option.isSome_iff_exists,
          run_isSome_congr ((clients i).env.withStack ii) _ r ⟨s.glcf, []⟩, hw]
        rfl
      have htrace := callback_trace_congr hargs hsteady hc hs hs' hw hw'
      refine ⟨_, step_callback (hview ▸ hp) hc hw', ?_⟩
      rw [finish_phase_self, finish_phase_self, htrace]
    · exact absurd hstep (by simp)
  · -- the copied links are the request's own
    obtain rfl : i = t := hmine
    rw [Location.step] at hstep
    split at hstep
    · rename_i events links hp
      obtain rfl := Option.some.inj hstep
      refine ⟨_, by rw [Location.step, ← hview, hp], ?_⟩
      rw [advance_phase_self, advance_phase_self]
    · exact absurd hstep (by simp)

/-- **The other requests are not seen.** -/
theorem unwinds (hargs : (clients t).request.args ≠ []) (hsteady : (clients t).Steady slot) :
    Transition.Unwinds (Location.step clients) (fun s ↦ s.glcf.pluginSlot = slot)
      (fun a ↦ a.client = t) Action.Alike (fun s ↦ s.phase t) := by
  refine ⟨fun s a s₁ hs hstep ↦ ?_, fun s a s₁ _ hstep hmine ↦ ?_,
    fun s s' a a' s₁ hs hs' hview hmine halike hstep ↦ ?_⟩
  · obtain ⟨p, -, hslot, -⟩ := step_cases hstep
    exact hslot.trans hs
  · obtain ⟨p, hphase, -, -⟩ := step_cases hstep
    have hne : t ≠ a.client := fun h ↦ by simp [h] at hmine
    simp only [hphase, advance_phase_of_ne hne]
  · exact step_alike hargs hsteady hs hs' hview (by simpa using hmine) halike hstep

/-- A request that is alone, up to its callback. -/
theorem run_alone (slot : PluginSlot PluginInfo) {r : Request} {h : BodyHandler}
    (hc : (clients t).called = some (r, h)) {images : ImageList}
    (himages : callbackImages (clients t).env r h = some images) (ii : ℤ) :
    ∃ s w, Location.run clients (.start slot) [.handle t, .callback t ii] = some s ∧
      h.run ((clients t).env.withStack ii) r ⟨(Location.start slot : Location ι).glcf, []⟩
        = some w ∧
      s.phase t = .answered w.trace (outputs w.trace) := by
  obtain ⟨w, hw⟩ := Option.isSome_iff_exists.mp (run_isSome_of_images himages
    ((clients t).env.withStack ii) ⟨(Location.start slot : Location ι).glcf, []⟩)
  obtain ⟨r', hd, -⟩ := handler_of_called hc
  have hhandle : Location.step clients (.start slot) (.handle t)
      = some ((Location.start slot).advance t .reading) := by
    rw [Location.step, hd]
    rfl
  have hcallback := step_callback (s := (Location.start slot).advance t .reading)
    (advance_phase_self ..) hc hw
  refine ⟨_, w, ?_, hw, finish_phase_self ((Location.start slot).advance t .reading) t w⟩
  rw [Location.run, Transition.run_cons, hhandle, Option.bind_some, Transition.run_cons, hcallback]
  rfl

/-- What the plugin of such a request is called with. -/
theorem calls_of_flagged {c : Client} {r : Request} {h : BodyHandler}
    (hc : c.called = some (r, h)) {images : ImageList}
    (himages : callbackImages c.env r h = some images) {name ext : Bytes} {pit : PluginInfo}
    (hname : argOf c.request (lit "plugin") = some name)
    (hpit : slot.getPluginInfo name = some pit) (hflag : pit.hasExtIn = true)
    (hext : argOf c.request (lit "ext") = some ext) (hsize : 0 < asInt ext.length) {glcf : LocConf}
    (hslot : glcf.pluginSlot = slot) {ii : ℤ} {w : World}
    (hw : h.run (c.env.withStack ii) r ⟨glcf, []⟩ = some w) :
    calls w.trace = [⟨pit.processHandler, images, some (cstr (urlDecodeAny ii ext) 0)⟩] := by
  have hr := called_args hc
  have hargs : r.args ≠ [] := by
    intro hnil
    rw [argOf_eq, ← hr, hnil] at hname
    exact absurd hname (by simp [argValue, argFrom])
  rw [argOf_eq, ← hr, ← argOf_eq] at hname hext
  have hplugin : pluginArgs r glcf = some (name, some ext) := by
    rw [pluginArgs, if_neg (by simpa using hargs), hname, hext]
    rfl
  have hne : ext ≠ [] := by
    rintro rfl
    exact absurd hsize (by decide)
  have hcalled := PluginSlot.runProcessDecoding_of_ext hpit hflag (urlDecodeAny ii)
    (c.env.withStack ii).handlers images hne []
  rw [isEmpty_urlDecodeAny, decide_eq_false (by omega), if_neg Bool.false_ne_true] at hcalled
  rw [run_trace hw, List.nil_append, calls_append, calls_callbackEvents, List.nil_append,
    (callback_withStack c.env ii r h).2, himages, imagesEvents, calls_pluginEvents, pluginResult,
    hplugin, Option.map_some, Option.bind_some, Option.getD_some, processOf,
    PluginSlot.runProcessByName, hslot, show (c.env.withStack ii).ii₀ = ii from rfl, hcalled]
  rfl

/-- **A request with a query string is answered as if it were the only one, exactly when the
extension parameter it brings to a plugin with the ext flag starts with an escape that
converts.** -/
theorem unaffected_iff (hargs : (clients t).request.args ≠ []) :
    Unaffected clients slot t ↔ (clients t).Steady slot := by
  constructor
  · intro hun r h images name pit ext hc himages hname hpit hflag hext
    by_cases hsize : asInt ext.length ≤ 0
    · exact settlesWithin_of_nonpos hsize ext
    rw [Int.not_le] at hsize
    -- two runs of the request alone, with different bytes on the stack
    refine (settles_iff ext).mpr fun ii ii' ↦ ?_
    obtain ⟨s, w, hs, hw, hphase⟩ := run_alone slot hc himages ii
    obtain ⟨s', w', hs', hw', hphase'⟩ := run_alone slot hc himages ii'
    obtain ⟨v, hv, hobs⟩ := hun [.handle t, .callback t ii] [.handle t, .callback t ii'] s hs (by
      simp [Action.client, Action.Alike])
    obtain rfl := Option.some.inj (hs'.symm.trans hv)
    rw [hphase, hphase'] at hobs
    have hcalls : calls w.trace = calls w'.trace := congrArg Observation.calls hobs
    rw [calls_of_flagged hc himages hname hpit hflag hext hsize rfl hw,
      calls_of_flagged hc himages hname hpit hflag hext hsize rfl hw'] at hcalls
    simpa using hcalls
  · intro hsteady actions actions' s hrun halike
    obtain ⟨s', hs', hview⟩ := (unwinds hargs hsteady).purge rfl rfl rfl hrun halike
    exact ⟨s', hs', congrArg Phase.observe hview⟩

end

/-- A pull of one image for the plugin that takes a parameter, which is sent as `ext`. -/
def poemPull (ext : Bytes) : Client where
  request := { getPull with
    args := lit "src=pull&plugin=poem&ext=" ++ ext, contentLengthN := 9, requestBody := none }
  value := ⟨[], 0⟩
  env := .smooth
  bodyFile := []
  arrivals := [⟨[(lit "imgurl:ab", [])], true, false⟩]

theorem settles_of_encodes {enc x : Bytes} (h : PercentEncodes enc x)
    (hfits : enc.length < 2 ^ 31) : Settles enc :=
  (settles_iff enc).mpr fun ii ii' ↦ by
    rw [urlDecodeAny_of_encodes h hfits, urlDecodeAny_of_encodes h hfits]

theorem unaffected_sample :
    Unaffected (fun _ : Bool ↦ poemPull (lit "a+b%25")) poemSlot true := by
  refine (unaffected_iff (by decide)).mpr fun r h images name pit ext _ _ _ _ _ hext ↦ ?_
  have hsent : argOf (poemPull (lit "a+b%25")).request (lit "ext") = some (lit "a+b%25") := by
    decide +kernel
  obtain rfl := Option.some.inj (hsent.symm.trans hext)
  exact settles_of_encodes percentEncodes_sample (by decide)

/-- Two requests, the first of which decodes an `A`, and the second an escape of no digits. -/
def leakClients : Bool → Client
  | false => poemPull (lit "%41")
  | true => poemPull (lit "%zz")

/-- The handlers that the second of them calls in a run. -/
def leakCalls (actions : List (Action Bool)) : Option (List HandlerCall) :=
  (Location.run leakClients (.start poemSlot) actions).map fun s ↦ (s.phase true).observe.calls

/-- With the value on the stack that the first request decoded, the second gives it to its plugin;
on its own, with a zero there, it gives it the empty string. -/
theorem leak_through_stack :
    leakCalls [.handle false, .callback false 0, .handle true, .callback true 65]
        = some [⟨3, [(lit "0001", lit "ab")], some (lit "A")⟩] ∧
      leakCalls [.handle true, .callback true 0]
        = some [⟨3, [(lit "0001", lit "ab")], some []⟩] ∧
      ¬Unaffected leakClients poemSlot true := by
  have hboth : leakCalls [.handle false, .callback false 0, .handle true, .callback true 65]
      = some [⟨3, [(lit "0001", lit "ab")], some (lit "A")⟩] := by decide +kernel
  have halone : leakCalls [.handle true, .callback true 0]
      = some [⟨3, [(lit "0001", lit "ab")], some []⟩] := by decide +kernel
  refine ⟨hboth, halone, fun hun ↦ ?_⟩
  obtain ⟨s, hs, hcalls⟩ := Option.map_eq_some_iff.mp hboth
  obtain ⟨s', hs', hcalls'⟩ := Option.map_eq_some_iff.mp halone
  obtain ⟨v, hv, hobs⟩ := hun _ [.handle true, .callback true 0] s hs (by
    simp [Action.client, Action.Alike])
  obtain rfl := Option.some.inj (hs'.symm.trans hv)
  rw [hobs, hcalls'] at hcalls
  exact absurd hcalls (by decide)

end ImgPredictor
