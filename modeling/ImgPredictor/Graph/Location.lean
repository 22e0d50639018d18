import Mathlib.Logic.Function.Basic
import ImgPredictor.Lib.Transition
import ImgPredictor.Graph.ExtPara
import ImgPredictor.Graph.MissingBody

/-!
# A location and its requests

The requests of a location run in one worker and share the location's configuration.  The worker
takes up an event at a time: the handler of a request is called, its body callback is run to its
end, or what the output filter has taken over is written to the client.  Between two events of one
request any number of events of others may come.

* `Location.step` is one event.  A handler or a callback that dies takes the worker with it, and
  there is no step then.
* `run_trace` says what a callback adds to the trace in terms of the request alone, up to the call
  of the plugin; `run_pluginSlot` that no callback touches the plugin table.
* `Phase.observe` is what the client and the plugins see of a request.

What is assumed of nginx: a worker is one thread, so a handler or a callback is run to its end
before the next event; a callback is called once, after the handler of its request has asked for the
body, and not at all for a request that was refused; and the output filter copies the links it is
given, whose bytes are in the pool of the request and stay as they are.  The body of a request
arrives as `arrivals` says, whatever happens in between.

What `ii` holds when `url_decode` is entered is chosen anew for each callback: it is what earlier
calls left on the stack.
-/

set_option autoImplicit false

namespace ImgPredictor

open Bytes

/-! ## Requests and events -/

/-- A client: its request, and how all that is called on its behalf turns out. -/
structure Client where
  /-- The request. -/
  request : Request
  /-- What the local variable `value` of the handler holds. -/
  value : Slice
  /-- The outcomes of the calls. -/
  env : Env
  /-- The name of the file nginx saves the body in, if it does. -/
  bodyFile : Bytes
  /-- How the body comes in. -/
  arrivals : List Arrival

/-- What the handler does with the request. -/
def Client.dispatch (c : Client) : Dispatch := ngxHttpGraphHandler c.value c.request

/-- The callback of a request that is not refused, and the request as the callback finds it. -/
def Client.called (c : Client) : Option (Request × BodyHandler) :=
  match c.dispatch with
  | .refuse _ _ | .fault => none
  | .read r h => some (ngxHttpReadClientRequestBody r c.bodyFile c.arrivals, h)

/-- How far a request has come. -/
inductive Phase where
  /-- Its handler has not been called. -/
  | new
  /-- The handler returned a code. -/
  | refused (rc : ℤ)
  /-- The body is being read. -/
  | reading
  /-- The callback is done, and the output filter has copied the links it was given. -/
  | answered (events : List Event) (links : List Bytes)
  /-- The copied links are written to the client. -/
  | written (events : List Event) (response : List Bytes)
  deriving DecidableEq

/-- The phase a dispatch leads to; `none` when the process died of it. -/
def Dispatch.phase : Dispatch → Option Phase
  | .refuse rc _ => some (.refused rc)
  | .read _ _ => some .reading
  | .fault => none

/-- A location: its configuration, and how far its requests have come. -/
structure Location (ι : Type) where
  /-- The configuration. -/
  glcf : LocConf
  /-- The requests. -/
  phase : ι → Phase

/-- An event of the worker. -/
inductive Action (ι : Type) where
  /-- `ngx_http_graph_handler` is called. -/
  | handle (i : ι)
  /-- The body callback runs; `ii` is what is left on the stack for `url_decode`. -/
  | callback (i : ι) (ii : ℤ)
  /-- The copied links are written. -/
  | write (i : ι)
  deriving DecidableEq

/-- Whose event it is. -/
def Action.client {ι : Type} : Action ι → ι
  | .handle i => i
  | .callback i _ => i
  | .write i => i

/-- The bodies handed to the output filter. -/
def outputs (trace : List Event) : List Bytes :=
  trace.filterMap fun
    | .output body => some body
    | _ => none

/-- The outcomes of a request, with `ii` on the stack. -/
def Env.withStack (env : Env) (ii : ℤ) : Env := { env with ii₀ := ii }

section

variable {ι : Type} [DecidableEq ι]

/-- A location with this table that has seen no request. -/
def Location.start (slot : PluginSlot PluginInfo) : Location ι :=
  ⟨⟨[], [], none, [], 0, slot⟩, fun _ ↦ .new⟩

/-- The request `i` comes to the phase `p`. -/
def Location.advance (s : Location ι) (i : ι) (p : Phase) : Location ι :=
  { s with phase := Function.update s.phase i p }

/-- The callback of the request `i` is done. -/
def Location.finish (s : Location ι) (i : ι) (w : World) : Location ι :=
  ⟨w.glcf, Function.update s.phase i (.answered w.trace (outputs w.trace))⟩

/-- One event. -/
def Location.step (clients : ι → Client) (s : Location ι) : Action ι → Option (Location ι)
  | .handle i => match s.phase i with
    | .new => (clients i).dispatch.phase.map (s.advance i)
    | _ => none
  | .callback i ii => match s.phase i with
    | .reading => (clients i).called.bind fun c ↦
      (c.2.run ((clients i).env.withStack ii) c.1 ⟨s.glcf, []⟩).map (s.finish i)
    | _ => none
  | .write i => match s.phase i with
    | .answered events links => some (s.advance i (.written events links))
    | _ => none

/-- A sequence of events. -/
abbrev Location.run (clients : ι → Client) (s : Location ι) (actions : List (Action ι)) :
    Option (Location ι) :=
  Transition.run (Location.step clients) s actions

end

/-! ## What a callback does -/

/-- What a callback does before it comes to the plugin. -/
def callbackEvents (env : Env) (r : Request) : BodyHandler → List Event
  | .handler1 => if (r.requestBody.bind RequestBody.tempFile).isSome then []
    else [.finalize ngxHttpInternalServerError]
  | .handler2 => match assemble r with
    | .noBody => [.logError (lit "Had no graph body."), .finalize ngxHttpBadRequest]
    | .fault => []
    | .text gd => if imgurl <+: gd.text then fetchEvents env 0 (urlsOf (gd.text.drop 7))
      else [.finalize ngxHttpInternalServerError]

/-- The images it comes to the plugin with, if it does. -/
def callbackImages (env : Env) (r : Request) : BodyHandler → Option ImageList
  | .handler1 => (r.requestBody.bind RequestBody.tempFile).map fun tf ↦
      [(tf.name, lit "pushed_image")]
  | .handler2 => (assembledText r).bind fun text ↦
      if imgurl <+: text then fetchImages env 0 (urlsOf (text.drop 7)) else none

/-- What it does with them. -/
def imagesEvents (env : Env) (r : Request) (glcf : LocConf) (images : Option ImageList) :
    List Event :=
  match images with
  | none => []
  | some images => pluginEvents env r glcf images

/-- **What a callback adds to the trace.** -/
theorem run_trace {env : Env} {r : Request} {w w' : World} {h : BodyHandler}
    (hrun : h.run env r w = some w') :
    w'.trace = w.trace ++ (callbackEvents env r h ++
      imagesEvents env r w.glcf (callbackImages env r h)) := by
  rcases h with _ | _
  · rw [BodyHandler.run, ngxHttpGraphClientBodyHandler1] at hrun
    rw [callbackEvents, callbackImages]
    rcases hrb : r.requestBody with _ | rb
    · rw [hrb] at hrun
      exact absurd hrun (by simp)
    · rw [hrb] at hrun
      rcases htf : rb.tempFile with _ | tf
      · simp only [htf, Option.isSome_none, Bool.false_or, Option.map_none] at hrun
        split at hrun
        · exact absurd hrun (by simp)
        · obtain rfl := Option.some.inj hrun
          simp [htf, imagesEvents]
      · simp only [htf, Option.isSome_some, Bool.true_or, if_true, Option.map_some] at hrun
        obtain rfl := Option.some.inj hrun
        rw [runPlugin_trace]
        simp [htf, imagesEvents]
  · rw [BodyHandler.run] at hrun
    rw [callbackEvents, callbackImages]
    rcases ha : assemble r with _ | _ | gd
    · rw [ngxHttpGraphClientBodyHandler2, ha] at hrun
      obtain rfl := Option.some.inj hrun
      simp [assembledText, ha, imagesEvents]
    · rw [ngxHttpGraphClientBodyHandler2, ha] at hrun
      exact absurd hrun (by simp)
    · have htext : assembledText r = some gd.text := by rw [assembledText, ha]
      obtain ⟨v, hv, htrace⟩ := handler2_trace env w htext
      obtain rfl := Option.some.inj (hrun.symm.trans hv)
      rw [htrace, htext, pullEvents]
      simp only [Option.bind_some]
      split
      · rfl
      · simp [imagesEvents]

theorem runPlugin_pluginSlot (env : Env) (r : Request) (w : World) (images : ImageList) :
    (runPlugin env r w images).glcf.pluginSlot = w.glcf.pluginSlot := by
  rw [runPlugin]
  split
  · rfl
  · simp only
    split
    · rfl
    · split
      · rfl
      · rw [sendResult]
        split
        · rfl
        · simp only [ngxHttpGraphClientSend]
          split
          · rfl
          · split <;> rfl

/-- **No callback touches the plugin table.** -/
theorem run_pluginSlot {env : Env} {r : Request} {w w' : World} {h : BodyHandler}
    (hrun : h.run env r w = some w') : w'.glcf.pluginSlot = w.glcf.pluginSlot := by
  rcases h with _ | _
  · rw [BodyHandler.run, ngxHttpGraphClientBodyHandler1] at hrun
    split at hrun
    · exact absurd hrun (by simp)
    · split at hrun
      · obtain ⟨tf, -, rfl⟩ := Option.map_eq_some_iff.mp hrun
        exact runPlugin_pluginSlot ..
      · obtain rfl := Option.some.inj hrun
        rfl
  · rw [BodyHandler.run, ngxHttpGraphClientBodyHandler2] at hrun
    split at hrun
    · obtain rfl := Option.some.inj hrun
      rfl
    · exact absurd hrun (by simp)
    · rename_i gd hgd
      rw [handleText_eq env r w (assemble_fits hgd)] at hrun
      split at hrun
      · obtain ⟨⟨v, images⟩, hv, hset, -⟩ :=
          fetchAll_eq env (urlsOf (gd.text.drop 7)) [] (w := resetTempFiles w) rfl
        have hslot : v.glcf.pluginSlot = w.glcf.pluginSlot := hset.2.2.2
        rw [hv] at hrun
        rcases images with _ | images
        · obtain rfl := Option.some.inj hrun
          exact hslot
        · obtain rfl := Option.some.inj hrun
          exact (runPlugin_pluginSlot ..).trans hslot
      · obtain rfl := Option.some.inj hrun
        rfl

/-- Whether a callback dies is up to the request. -/
theorem run_isSome_congr (env env' : Env) (r : Request) (w w' : World) (h : BodyHandler) :
    (h.run env' r w').isSome = (h.run env r w).isSome := by
  rcases h with _ | _
  · rw [BodyHandler.run, BodyHandler.run, ngxHttpGraphClientBodyHandler1,
      ngxHttpGraphClientBodyHandler1]
    rcases r.requestBody with _ | rb
    · rfl
    · simp only
      split
      · simp
      · rfl
  · rw [BodyHandler.run, BodyHandler.run, Bool.eq_iff_iff, handler2_isSome, handler2_isSome]

theorem run_isSome_of_images {env : Env} {r : Request} {h : BodyHandler} {images : ImageList}
    (himages : callbackImages env r h = some images) (env' : Env) (w : World) :
    (h.run env' r w).isSome = true := by
  rcases h with _ | _
  · obtain ⟨tf, htf, -⟩ := Option.map_eq_some_iff.mp himages
    obtain ⟨rb, hrb, htf⟩ := Option.bind_eq_some_iff.mp htf
    rw [BodyHandler.run, ngxHttpGraphClientBodyHandler1, hrb]
    simp [htf]
  · obtain ⟨text, htext, -⟩ := Option.bind_eq_some_iff.mp himages
    rw [BodyHandler.run, handler2_isSome]
    intro hfault
    exact absurd htext (by simp [assembledText, hfault])

/-! ## What is left on the stack -/

theorem fetch_withStack (env : Env) (ii : ℤ) (k : ℕ) (urls : List Bytes) :
    fetchEvents (env.withStack ii) k urls = fetchEvents env k urls ∧
      fetchImages (env.withStack ii) k urls = fetchImages env k urls := by
  induction urls generalizing k with
  | nil => exact ⟨rfl, rfl⟩
  | cons url urls ih =>
    rw [fetchEvents, fetchEvents, fetchImages, fetchImages, (ih (k + 1)).1, (ih (k + 1)).2]
    exact ⟨rfl, rfl⟩

/-- Up to the call of the plugin, a callback does not look at the stack. -/
theorem callback_withStack (env : Env) (ii : ℤ) (r : Request) (h : BodyHandler) :
    callbackEvents (env.withStack ii) r h = callbackEvents env r h ∧
      callbackImages (env.withStack ii) r h = callbackImages env r h := by
  rcases h with _ | _
  · exact ⟨rfl, rfl⟩
  · simp only [callbackEvents, callbackImages, (fetch_withStack env ii _ _).1,
      (fetch_withStack env ii _ _).2, and_self]

/-- What looks neither at downloads nor at codes nor at messages that are no answers sees nothing of
a callback before the plugin. -/
theorem filterMap_callbackEvents {β : Type} {f : Event → Option β}
    (hget : ∀ url, f (.curlGet url) = none)
    (hlog : ∀ message, isAnswer message = false → f (.logError message) = none)
    (hchunk : ∀ data written, f (.chunk data written) = none)
    (hfinal : ∀ rc, f (.finalize rc) = none) (env : Env) (r : Request) (h : BodyHandler) :
    (callbackEvents env r h).filterMap f = [] := by
  rcases h with _ | _
  · rw [callbackEvents]
    split <;> simp [hfinal]
  · rw [callbackEvents]
    split
    · simp [hlog _ (show isAnswer (lit "Had no graph body.") = false by decide), hfinal]
    · rfl
    · split
      · exact filterMap_fetchEvents hget hlog hchunk hfinal env 0 _
      · simp [hfinal]

theorem calls_callbackEvents (env : Env) (r : Request) (h : BodyHandler) :
    calls (callbackEvents env r h) = [] :=
  filterMap_callbackEvents (by simp) (by simp) (by simp) (by simp) env r h

/-! ## What is observed -/

/-- The plugins that were asked for. -/
def pluginsRun (trace : List Event) : List Bytes :=
  trace.filterMap fun
    | .runProcess pluginName _ _ => some pluginName
    | _ => none

/-- What is observed of a request. -/
structure Observation where
  /-- The codes it was ended with. -/
  codes : List ℤ
  /-- The plugins that were asked for. -/
  plugins : List Bytes
  /-- The handlers that were called, with their arguments. -/
  calls : List HandlerCall
  /-- What was written to the client. -/
  response : List Bytes

/-- What is observed of a request so far. -/
def Phase.observe : Phase → Observation
  | .new => ⟨[], [], [], []⟩
  | .refused rc => ⟨[rc], [], [], []⟩
  | .reading => ⟨[], [], [], []⟩
  | .answered events _ => ⟨finalizes events, pluginsRun events, calls events, []⟩
  | .written events response => ⟨finalizes events, pluginsRun events, calls events, response⟩

/-! ## What a step does -/

section

variable {ι : Type} [DecidableEq ι] {clients : ι → Client} {slot : PluginSlot PluginInfo}

theorem advance_phase_self (s : Location ι) (i : ι) (p : Phase) : (s.advance i p).phase i = p :=
  Function.update_self ..

theorem advance_phase_of_ne {s : Location ι} {i j : ι} (hij : j ≠ i) (p : Phase) :
    (s.advance i p).phase j = s.phase j :=
  Function.update_of_ne hij ..

theorem finish_phase_self (s : Location ι) (i : ι) (w : World) :
    (s.finish i w).phase i = .answered w.trace (outputs w.trace) :=
  Function.update_self ..

/-- A callback that does not die, as a step. -/
theorem step_callback {s : Location ι} {i : ι} (hp : s.phase i = .reading) {r : Request}
    {h : BodyHandler} (hc : (clients i).called = some (r, h)) {ii : ℤ} {w : World}
    (hw : h.run ((clients i).env.withStack ii) r ⟨s.glcf, []⟩ = some w) :
    s.step clients (.callback i ii) = some (s.finish i w) := by
  rw [Location.step, hp]
  simp only [hc, Option.bind_some, hw, Option.map_some]

/-- The phases a dispatch leads to. -/
theorem Dispatch.phase_cases {d : Dispatch} {p : Phase} (h : d.phase = some p) :
    (∃ rc logged, d = .refuse rc logged ∧ p = .refused rc) ∨
      ∃ r handler, d = .read r handler ∧ p = .reading := by
  cases d with
  | refuse rc logged => exact .inl ⟨rc, logged, rfl, (Option.some.inj h).symm⟩
  | read r handler => exact .inr ⟨r, handler, rfl, (Option.some.inj h).symm⟩
  | fault => exact absurd h (by simp [Dispatch.phase])

/-- How a request gets from one phase to the next: a handler calls no plugin, a callback does what
it does, and the writing adds nothing but the response. -/
def Phase.Next (slot : PluginSlot PluginInfo) (p p' : Phase) : Prop :=
  p'.observe.calls = [] ∨
    (∃ env r h glcf w, glcf.pluginSlot = slot ∧ BodyHandler.run env r ⟨glcf, []⟩ h = some w ∧
      p' = .answered w.trace (outputs w.trace)) ∨
    ∃ events links, p = .answered events links ∧ p' = .written events links

/-- **What a step does**: one request moves on, and the plugin table stays. -/
theorem step_cases {s s₁ : Location ι} {a : Action ι} (h : s.step clients a = some s₁) :
    ∃ p, s₁.phase = (s.advance a.client p).phase ∧ s₁.glcf.pluginSlot = s.glcf.pluginSlot ∧
      (s.phase a.client).Next s.glcf.pluginSlot p := by
  rcases a with i | ⟨i, ii⟩ | i
  · rw [Location.step] at h
    split at h
    · obtain ⟨p, hp, rfl⟩ := Option.map_eq_some_iff.mp h
      refine ⟨p, rfl, rfl, .inl ?_⟩
      rcases Dispatch.phase_cases hp with ⟨rc, logged, -, rfl⟩ | ⟨r, handler, -, rfl⟩ <;> rfl
    · exact absurd h (by simp)
  · rw [Location.step] at h
    split at h
    · obtain ⟨⟨r, h'⟩, -, hrun⟩ := Option.bind_eq_some_iff.mp h
      obtain ⟨w, hw, rfl⟩ := Option.map_eq_some_iff.mp hrun
      exact ⟨_, rfl, run_pluginSlot hw, .inr (.inl ⟨_, r, h', s.glcf, w, rfl, hw, rfl⟩)⟩
    · exact absurd h (by simp)
  · rw [Location.step] at h
    split at h
    · rename_i events links hp
      obtain rfl := Option.some.inj h
      exact ⟨_, rfl, rfl, .inr (.inr ⟨events, links, hp, rfl⟩)⟩
    · exact absurd h (by simp)

end

end ImgPredictor
