import ImgPredictor.Graph.Finalize

/-!
# How the extension parameter gets to the plugin

A client sends the parameter percent-encoded in the query string.  The callbacks copy it out of
there as it stands, `run_process_by_name` decodes it for a plugin that asks for it, and the handler
is given `c_str()` of the result.

The decoder undoes every encoding whose length fits an `int`, whatever its uninitialised variable
holds, since an encoding has no escape that fails.  It is the last step that loses something: a C
string ends at its first NUL.
-/

set_option autoImplicit false

namespace ImgPredictor

open Bytes

/-- A call of a process handler. -/
structure HandlerCall where
  /-- The handler. -/
  handler : Sym
  /-- The images it is given. -/
  images : ImageList
  /-- The variadic argument, if it is given one. -/
  ext : Option Bytes
  deriving DecidableEq, Repr

/-- The calls of process handlers in a trace. -/
def calls (trace : List Event) : List HandlerCall :=
  trace.filterMap fun
    | .process handler images ext => some ⟨handler, images, ext⟩
    | _ => none

@[simp] theorem calls_append (s t : List Event) : calls (s ++ t) = calls s ++ calls t :=
  List.filterMap_append

theorem calls_sendEvents (env : Env) (r : Request) (resJson : Bytes) :
    calls (sendEvents env r resJson) = [] :=
  filterMap_sendEvents (by simp) (by simp) (by simp) (by simp) env r resJson

theorem calls_processEvents (pluginName extPara : Bytes) (images : ImageList)
    (res : ProcessResult) :
    calls (processEvents pluginName extPara images res)
      = (res.invoked.map fun p ↦ ⟨p.1, images, p.2⟩).toList := by
  rw [processEvents]
  cases res.invoked <;> rfl

/-- **A request calls what `run_process_by_name` calls**, and nothing else. -/
theorem calls_pluginEvents (env : Env) (r : Request) (glcf : LocConf) (images : ImageList) :
    calls (pluginEvents env r glcf images)
      = (((pluginResult env r glcf images).bind ProcessResult.invoked).map
          fun p ↦ ⟨p.1, images, p.2⟩).toList := by
  rw [pluginEvents, pluginResult]
  cases pluginArgs r glcf with
  | none => rfl
  | some p =>
    obtain ⟨pluginName, ext⟩ := p
    simp only [calls_append, calls_processEvents, Option.map_some, Option.bind_some]
    split
    · simp [calls, failEvents]
    · split
      · simp [calls]
      · rw [calls_sendEvents, List.append_nil]

/-- The plugin named `name` in the table has `handler` called exactly once and with the variadic
argument `ext`, if the parameter arrives as `enc`: by `run_process_by_name`, and by every request
that names the plugin. -/
structure CallsHandler (slot : PluginSlot PluginInfo) (name enc : Bytes) (handler : Sym)
    (ext : Option Bytes) : Prop where
  /-- In one call. -/
  once : ∀ handlers ii₀ images resJson,
    (slot.runProcessByName handlers ii₀ name images enc resJson).invoked = some (handler, ext)
  /-- In one request. -/
  request : ∀ (env : Env) (r : Request) (w : World) (images : ImageList),
    w.glcf.pluginSlot = slot → argOf r (lit "plugin") = some name →
      (argOf r (lit "ext")).getD [] = enc →
        calls (runPlugin env r w images).trace = calls w.trace ++ [⟨handler, images, ext⟩]

/-- What one call does, a request does. -/
theorem callsHandler_of_once {slot : PluginSlot PluginInfo} {name enc : Bytes} {handler : Sym}
    {ext : Option Bytes}
    (h : ∀ handlers ii₀ images resJson,
      (slot.runProcessByName handlers ii₀ name images enc resJson).invoked = some (handler, ext)) :
    CallsHandler slot name enc handler ext := by
  refine ⟨h, fun env r w images hslot hname henc ↦ ?_⟩
  -- a request with a plugin has a query string
  have hargs : r.args ≠ [] := by
    intro hnil
    rw [argOf_eq, hnil] at hname
    exact absurd hname (by simp [argValue, argFrom])
  have hplugin : pluginArgs r w.glcf = some (name, argOf r (lit "ext")) := by
    rw [pluginArgs, if_neg (by simpa using hargs), hname]
    rfl
  rw [runPlugin_trace, calls_append, calls_pluginEvents, pluginResult, hplugin]
  simp only [Option.map_some, Option.bind_some, processOf, hslot, henc, h]
  rfl

theorem cstr_eq_self {x : Bytes} (h : 0 ∉ x) : cstr x 0 = x := by
  rw [cstr, List.drop_zero, List.takeWhile_eq_self_iff]
  intro b hb
  simpa using fun h0 : b = 0 ↦ h (h0 ▸ hb)

/-- **The parameter gets to the plugin**, if the length of its encoding fits an `int`: the handler
is called once, with what was sent up to the first NUL, so with all of it if there is none.  A
plugin that does not ask for it gets nothing. -/
theorem ext_delivered {slot : PluginSlot PluginInfo} {name : Bytes} {pit : PluginInfo}
    (hpit : slot.getPluginInfo name = some pit) :
    (pit.hasExtIn = true → ∀ enc x, PercentEncodes enc x → x ≠ [] → enc.length < 2 ^ 31 →
      CallsHandler slot name enc pit.processHandler (some (cstr x 0)) ∧
        (0 ∉ x → CallsHandler slot name enc pit.processHandler (some x))) ∧
      (pit.hasExtIn = false → ∀ enc, CallsHandler slot name enc pit.processHandler none) := by
  refine ⟨fun hflag enc x henc hx hfits ↦ ?_, fun hflag enc ↦ ?_⟩
  · have hcalls : CallsHandler slot name enc pit.processHandler (some (cstr x 0)) := by
      refine callsHandler_of_once fun handlers ii₀ images resJson ↦ ?_
      have hxne : x.isEmpty = false := by simpa using hx
      have hdecoded := urlDecodeAny_of_encodes henc hfits ii₀
      rw [PluginSlot.runProcessByName,
        PluginSlot.runProcessDecoding_of_ext hpit hflag _ handlers images (henc.ne_nil hx),
        hdecoded, hxne]
      rfl
    exact ⟨hcalls, fun hnul ↦ cstr_eq_self hnul ▸ hcalls⟩
  · refine callsHandler_of_once fun handlers ii₀ images resJson ↦ ?_
    rw [PluginSlot.runProcessByName,
      PluginSlot.runProcessDecoding_of_plain hpit hflag _ handlers images]
    rfl

/-- `a b%` in one of its encodings. -/
theorem percentEncodes_sample : PercentEncodes (lit "a+b%25") (lit "a b%") :=
  .raw (by decide) (by decide) <| .plus <| .raw (by decide) (by decide) <|
    .escape (show hexVal 50 = some 2 from rfl) (show hexVal 53 = some 5 from rfl) rfl .nil

theorem ext_delivered_sample :
    CallsHandler poemSlot (lit "poem") (lit "a+b%25") 3 (some (lit "a b%")) :=
  ((ext_delivered poemSlot_getPluginInfo).1 rfl _ _ percentEncodes_sample (by decide)
    (by decide)).2 (by decide)

/-- What comes after a NUL is not seen by the handler. -/
theorem ext_cut_at_nul :
    poemSlot.getPluginInfo (lit "poem") = some poem ∧ poem.hasExtIn = true ∧
      PercentEncodes (lit "a%00b") [97, 0, 98] ∧
      CallsHandler poemSlot (lit "poem") (lit "a%00b") 3 (some (lit "a")) ∧
      ¬CallsHandler poemSlot (lit "poem") (lit "a%00b") 3 (some [97, 0, 98]) := by
  have henc : PercentEncodes (lit "a%00b") [97, 0, 98] :=
    .raw (by decide) (by decide) <|
      .escape (show hexVal 48 = some 0 from rfl) (show hexVal 48 = some 0 from rfl) rfl <|
        .raw (by decide) (by decide) .nil
  have hcut : ∀ handlers ii₀ images resJson,
      (poemSlot.runProcessByName handlers ii₀ (lit "poem") images (lit "a%00b") resJson).invoked
        = some (3, some (lit "a")) := by
    intro handlers ii₀ images resJson
    have hdecoded := urlDecodeAny_of_encodes henc (by decide) ii₀
    rw [PluginSlot.runProcessByName, PluginSlot.runProcessDecoding_of_ext poemSlot_getPluginInfo rfl
      _ handlers images (by decide), hdecoded]
    rfl
  refine ⟨poemSlot_getPluginInfo, rfl, henc, callsHandler_of_once hcut, fun h ↦ ?_⟩
  have := (hcut (fun _ _ _ _ ↦ (0, [])) 0 [] []).symm.trans (h.once _ 0 [] [])
  exact absurd this (by decide)

end ImgPredictor
