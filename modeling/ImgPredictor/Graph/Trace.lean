import ImgPredictor.Graph.ClientBody

/-!
# What a pull leaves in the trace

A pull is a chain of steps, each of which can end it: a temp file, a transfer with its chunks, the
next URL, and in the end the plugin and the answer.  Here the whole of it is written as a list of
events that depends on the outcomes of the steps and on nothing that is computed along the way.

* `fetchEvents` and `fetchImages` are what downloading a list of URLs does and yields;
  `fetchAll_eq` says that this is what the loop does, and that it never throws.
* `pluginEvents` is the second half, from the plugin's name on; `runPlugin_trace` says so.
* `handler2_trace` puts the two together for the callback.

Every result about the trace of a pull is read off these three.
-/

set_option autoImplicit false

namespace ImgPredictor

open Bytes

/-! ## Downloading -/

/-- The events of a turn of the loop that ends the request: what is logged, and the code. -/
def failEvents (messages : List Bytes) : List Event :=
  messages.map .logError ++ [.finalize ngxHttpInternalServerError]

/-- The message begins as the line with an answer does. -/
def isAnswer (message : Bytes) : Bool := (lit ", res_json:").isPrefixOf message

/-- No other message of the module begins so: it is enough to look at the first byte. -/
theorem isAnswer_append {text : Bytes} {b : UInt8} (htext : text.head? = some b) (hb : b ≠ 44)
    (rest : Bytes) : isAnswer (text ++ rest) = false := by
  obtain ⟨text, rfl⟩ : ∃ t, text = b :: t := ⟨text.tail, (List.cons_head?_tail htext).symm⟩
  rw [isAnswer, List.cons_append, show lit ", res_json:" = 44 :: lit " res_json:" by decide,
    List.isPrefixOf, beq_false_of_ne hb.symm, Bool.false_and]

theorem fetchFailed_trace (w : World) (url : Bytes) :
    (w.fetchFailed url).trace
      = w.trace ++ failEvents [lit "Failed to curl get img_file:" ++ url] := by
  simp [World.fetchFailed, failEvents]

/-- The events of downloading a list of URLs, the first of which is the `k`-th of its request. -/
def fetchEvents (env : Env) : ℕ → List Bytes → List Event
  | _, [] => []
  | k, url :: urls => match env.tempFile k with
    | .unallocated =>
      failEvents [lit "ngx_pcalloc temp file failed.", lit "Failed to create temp file"]
    | .failed => failEvents [lit "create temp file failed", lit "Failed to create temp file"]
    | .created _ => match env.curl k url with
      | none => .curlGet url :: failEvents [lit "Failed to curl get img_file:" ++ url]
      | some t => .curlGet url :: (t.events ++
          if t.ok then fetchEvents env (k + 1) urls
          else failEvents [lit "Failed to curl get img_file:" ++ url])

/-- The images it yields; `none` when a step fails. -/
def fetchImages (env : Env) : ℕ → List Bytes → Option ImageList
  | _, [] => some []
  | k, url :: urls => match env.tempFile k with
    | .created name =>
      if (env.curl k url).any Transfer.ok then
        (fetchImages env (k + 1) urls).map ((name, url) :: ·)
      else none
    | _ => none

/-- Two worlds differ in their temp files and their traces alone. -/
def World.SameSettings (w w' : World) : Prop :=
  w'.glcf.type = w.glcf.type ∧ w'.glcf.ext = w.glcf.ext ∧ w'.glcf.outCl = w.glcf.outCl ∧
    w'.glcf.pluginSlot = w.glcf.pluginSlot

theorem World.SameSettings.trans {w₁ w₂ w₃ : World} (h : w₁.SameSettings w₂)
    (h' : w₂.SameSettings w₃) : w₁.SameSettings w₃ :=
  ⟨h'.1.trans h.1, h'.2.1.trans h.2.1, h'.2.2.1.trans h.2.2.1, h'.2.2.2.trans h.2.2.2⟩

/-- What is said of a list of URLs that has been downloaded from `w` on. -/
def Fetched (env : Env) (w : World) (urls : List Bytes) (images : ImageList)
    (res : World × Option ImageList) : Prop :=
  w.SameSettings res.1 ∧ res.1.trace = w.trace ++ fetchEvents env w.glcf.tempFileCurIdx urls ∧
    res.2 = (fetchImages env w.glcf.tempFileCurIdx urls).map (images ++ ·)

/-- **Downloading a list of URLs, in full.**  It never throws: at the head of every turn the index
points behind the last file, and what it does is up to the outcomes of its steps. -/
theorem fetchAll_eq (env : Env) (urls : List Bytes) {w : World} (images : ImageList)
    (h : w.AtEnd) :
    ∃ res, fetchAll env urls w images = some res ∧ Fetched env w urls images res := by
  induction urls generalizing w images with
  | nil => exact ⟨_, rfl, ⟨rfl, rfl, rfl, rfl⟩, by simp [fetchEvents], by simp [fetchImages]⟩
  | cons url urls ih =>
    -- the index of the new file is the index of the transfer
    have hk : w.glcf.tempFileCurIdx = w.glcf.tempFileVec.length := h
    simp only [fetchAll, Fetched, fetchEvents, fetchImages, ngxHttpGraphCreateTempFile, hk]
    cases hf : env.tempFile w.glcf.tempFileVec.length with
    | unallocated =>
      exact ⟨_, rfl, ⟨rfl, rfl, rfl, rfl⟩, by simp [World.noTempFile, failEvents], rfl⟩
    | failed =>
      refine ⟨_, rfl, ⟨rfl, rfl, rfl, rfl⟩, ?_, rfl⟩
      simp [World.noTempFile, World.pushFile, failEvents]
    | created name =>
      have hidx : (w.pushFile name).glcf.tempFileCurIdx = w.glcf.tempFileVec.length := h
      simp only [fetchOne_eq url (getElem?_pushFile h name), hidx]
      cases hc : env.curl w.glcf.tempFileVec.length url with
      | none =>
        refine ⟨_, rfl, ⟨rfl, rfl, rfl, rfl⟩, ?_, by simp⟩
        simp [fetchFailed_trace, World.onFile, World.pushFile]
      | some t =>
        cases hok : t.ok with
        | false =>
          simp only [hok, Bool.false_eq_true, if_false]
          refine ⟨_, rfl, ⟨rfl, rfl, rfl, rfl⟩, ?_, by simp [hok]⟩
          simp [fetchFailed_trace, World.onFile, World.pushFile]
        | true =>
          simp only [hok, if_true, foldl_afterWrite_name]
          -- the turn is over, and the rest of the list is downloaded from the next file on
          generalize hv : World.nextFile _ = v
          have hend : v.AtEnd := by
            subst hv
            simpa [World.AtEnd, World.nextFile, World.onFile, World.pushFile] using h
          have hnext : v.glcf.tempFileCurIdx = w.glcf.tempFileVec.length + 1 := by
            subst hv
            simpa [World.nextFile, World.onFile, World.pushFile] using hk
          obtain ⟨res, hres, hset, htrace, himages⟩ := ih (images ++ [(name, url)]) hend
          refine ⟨res, hres, World.SameSettings.trans ?_ hset, ?_, ?_⟩
          · subst hv; exact ⟨rfl, rfl, rfl, rfl⟩
          · rw [htrace, hnext]
            subst hv
            simp [World.nextFile, World.onFile, World.pushFile]
          · rw [himages, hnext]
            simp [hok, Function.comp_def]

/-- What looks neither at chunks nor at codes sees nothing of a transfer. -/
theorem filterMap_transferEvents {β : Type} {f : Event → Option β}
    (hchunk : ∀ data written, f (.chunk data written) = none)
    (hfinal : ∀ rc, f (.finalize rc) = none) (t : Transfer) : t.events.filterMap f = [] := by
  rw [List.filterMap_eq_nil_iff]
  intro e he
  obtain ⟨c, -, he⟩ := List.mem_flatMap.mp he
  rcases List.mem_cons.mp he with rfl | he
  · exact hchunk _ _
  · split at he
    · exact absurd he (by simp)
    · rw [List.mem_singleton.mp he, hfinal]

/-- The messages of a failed turn of the loop are no answers. -/
theorem isAnswer_failures (url : Bytes) :
    (∀ message ∈ [lit "ngx_pcalloc temp file failed.", lit "Failed to create temp file"],
      isAnswer message = false) ∧
      (∀ message ∈ [lit "create temp file failed", lit "Failed to create temp file"],
        isAnswer message = false) ∧
      ∀ message ∈ [lit "Failed to curl get img_file:" ++ url], isAnswer message = false := by
  refine ⟨by decide, by decide, fun message h ↦ ?_⟩
  rw [List.mem_singleton.mp h]
  exact isAnswer_append (b := 70) (by decide) (by decide) url

/-- What does not look at the messages sees the code of a failure. -/
theorem filterMap_failEvents {β : Type} {f : Event → Option β} {messages : List Bytes}
    (hlog : ∀ message ∈ messages, f (.logError message) = none) :
    (failEvents messages).filterMap f
      = [Event.finalize ngxHttpInternalServerError].filterMap f := by
  have hsilent : messages.filterMap (f ∘ .logError) = [] := List.filterMap_eq_nil_iff.mpr hlog
  rw [failEvents, List.filterMap_append, List.filterMap_map, hsilent, List.nil_append]

/-- What looks neither at the calls of curl nor at messages that are no answers sees nothing of a
download. -/
theorem filterMap_fetchEvents {β : Type} {f : Event → Option β}
    (hget : ∀ url, f (.curlGet url) = none)
    (hlog : ∀ message, isAnswer message = false → f (.logError message) = none)
    (hchunk : ∀ data written, f (.chunk data written) = none)
    (hfinal : ∀ rc, f (.finalize rc) = none) (env : Env) (k : ℕ) (urls : List Bytes) :
    (fetchEvents env k urls).filterMap f = [] := by
  induction urls generalizing k with
  | nil => rfl
  | cons url urls ih =>
    have hfail : ∀ messages, (∀ message ∈ messages, isAnswer message = false) →
        (failEvents messages).filterMap f = [] := by
      intro messages h
      rw [filterMap_failEvents fun message hm ↦ hlog message (h message hm)]
      simp [hfinal]
    obtain ⟨hunallocated, hfailed, hcurl⟩ := isAnswer_failures url
    rw [fetchEvents]
    split
    · exact hfail _ hunallocated
    · exact hfail _ hfailed
    · split
      · rw [List.filterMap_cons_none (hget url), hfail _ hcurl]
      · rw [List.filterMap_cons_none (hget url), List.filterMap_append,
          filterMap_transferEvents hchunk hfinal, List.nil_append]
        split
        · exact ih _
        · exact hfail _ hcurl

/-! ## The plugin and the answer -/

/-- The return code of `ngx_http_graph_client_send`. -/
def sendRc (env : Env) (r : Request) : ℤ :=
  if !env.sendBuf then ngxHttpInternalServerError
  else if env.sendHeader = ngxError ∨ env.sendHeader > ngxOk ∨ r.headerOnly = true then
    env.sendHeader
  else env.outputFilter

/-- The events of sending a result. -/
def sendEvents (env : Env) (r : Request) (resJson : Bytes) : List Event :=
  .logError (lit ", res_json:" ++ cstr resJson 0) ::
    if !env.responseBuf then failEvents [lit "Failed to allocate response buffer."]
    else
      (if !env.sendBuf then [.logError (lit "Failed to allocate response buffer.")]
        else if env.sendHeader = ngxError ∨ env.sendHeader > ngxOk ∨ r.headerOnly = true then []
        else [.output resJson]) ++ [.clientSend (sendRc env r), .finalize ngxOk]

/-- What looks at none of these sees nothing of the sending. -/
theorem filterMap_sendEvents {β : Type} {f : Event → Option β}
    (hlog : ∀ message, f (.logError message) = none) (hout : ∀ body, f (.output body) = none)
    (hsend : ∀ rc, f (.clientSend rc) = none) (hfinal : ∀ rc, f (.finalize rc) = none)
    (env : Env) (r : Request) (resJson : Bytes) : (sendEvents env r resJson).filterMap f = [] := by
  rw [sendEvents, List.filterMap_cons_none (hlog _)]
  split
  · simp [filterMap_failEvents fun message _ ↦ hlog message, hfinal]
  · split
    · simp [hlog, hsend, hfinal]
    · split <;> simp [hout, hsend, hfinal]

theorem sendResult_trace (env : Env) (r : Request) (w : World) (resJson : Bytes) :
    (sendResult env r w resJson).trace = w.trace ++ sendEvents env r resJson := by
  rw [sendResult, sendEvents]
  cases env.responseBuf with
  | false => simp [failEvents]
  | true =>
    simp only [Bool.not_true, Bool.false_eq_true, if_false, ngxHttpGraphClientSend, sendRc]
    cases env.sendBuf with
    | false => simp
    | true =>
      simp only [Bool.not_true, Bool.false_eq_true, if_false]
      split <;> simp

/-- The outcome of the call of `run_process_by_name`, when it comes to that. -/
def pluginResult (env : Env) (r : Request) (glcf : LocConf) (images : ImageList) :
    Option ProcessResult :=
  (pluginArgs r glcf).map fun p ↦ processOf env glcf p.1 (p.2.getD []) images

/-- The events of running the plugin and answering. -/
def pluginEvents (env : Env) (r : Request) (glcf : LocConf) (images : ImageList) : List Event :=
  match pluginArgs r glcf with
  | none => [.finalize ngxHttpBadRequest]
  | some (pluginName, ext) =>
    let res := processOf env glcf pluginName (ext.getD []) images
    processEvents pluginName (ext.getD []) images res ++
      if res.rc ≠ 0 then
        failEvents [lit "run_process_by_name failed.Plugin:" ++ cstr pluginName 0]
      else if res.resJson.isEmpty then [.finalize ngxHttpInternalServerError]
      else sendEvents env r res.resJson

/-- **Running the plugin and answering, in full.** -/
theorem runPlugin_trace (env : Env) (r : Request) (w : World) (images : ImageList) :
    (runPlugin env r w images).trace = w.trace ++ pluginEvents env r w.glcf images := by
  rw [runPlugin, pluginEvents]
  cases pluginArgs r w.glcf with
  | none => rfl
  | some p =>
    obtain ⟨pluginName, ext⟩ := p
    -- the lookup leaves the table alone, which is all the call reads
    have hres : processOf env (w.lookedUp pluginName ext).glcf pluginName (ext.getD []) images
        = processOf env w.glcf pluginName (ext.getD []) images := rfl
    simp only [hres]
    split
    · simp [World.emits, World.lookedUp, failEvents]
    · split
      · simp [World.emits, World.lookedUp]
      · rw [sendResult_trace]
        simp [World.emits, World.lookedUp]

/-- The events depend on the name left behind and on the table, and on nothing else of the
configuration. -/
theorem pluginEvents_congr {env : Env} {r : Request} {w w' : World} {images : ImageList}
    (h : w.SameSettings w') :
    pluginEvents env r w'.glcf images = pluginEvents env r w.glcf images := by
  have hargs : pluginArgs r w'.glcf = pluginArgs r w.glcf := by rw [pluginArgs, pluginArgs, h.1]
  have hres : ∀ pluginName ext, processOf env w'.glcf pluginName ext images
      = processOf env w.glcf pluginName ext images := fun pluginName ext ↦ by
    rw [processOf, processOf, h.2.2.2]
  simp only [pluginEvents, hargs, hres]

/-! ## The callback -/

/-- The events of a pull whose text is `text`. -/
def pullEvents (env : Env) (r : Request) (glcf : LocConf) (text : Bytes) : List Event :=
  if imgurl <+: text then
    fetchEvents env 0 (urlsOf (text.drop 7)) ++
      match fetchImages env 0 (urlsOf (text.drop 7)) with
      | none => []
      | some images => pluginEvents env r glcf images
  else [.finalize ngxHttpInternalServerError]

/-- **The callback of a pull, in full**, once the body is assembled. -/
theorem handler2_trace (env : Env) {r : Request} (w : World) {text : Bytes}
    (h : assembledText r = some text) :
    ∃ w', ngxHttpGraphClientBodyHandler2 env r w = some w' ∧
      w'.trace = w.trace ++ pullEvents env r w.glcf text := by
  rw [assembledText] at h
  split at h
  · rename_i gd hgd
    obtain rfl := Option.some.inj h
    rw [ngxHttpGraphClientBodyHandler2, hgd]
    simp only [handleText_eq env r w (assemble_fits hgd), pullEvents]
    split
    · obtain ⟨⟨v, images⟩, hv, hset, htrace, himages⟩ :=
        fetchAll_eq env (urlsOf (gd.text.drop 7)) [] (w := resetTempFiles w) rfl
      simp only at htrace himages hset
      simp only [hv, himages]
      change v.trace = w.trace ++ fetchEvents env 0 _ at htrace
      have hset' : w.SameSettings v := hset
      -- the index is back at zero
      simp only [resetTempFiles]
      cases fetchImages env 0 (urlsOf (gd.text.drop 7)) with
      | none => exact ⟨_, rfl, by simp [htrace]⟩
      | some images =>
        refine ⟨_, rfl, ?_⟩
        rw [runPlugin_trace, htrace, pluginEvents_congr hset']
        simp
    · exact ⟨_, rfl, rfl⟩
  · exact absurd h (by simp)

end ImgPredictor
