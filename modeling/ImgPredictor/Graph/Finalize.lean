import ImgPredictor.Graph.Pull

/-!
# How often a pull is finalized

Every way out of `ngx_http_graph_client_body_handler2` finalizes the request once.  Two things
upset the count and the code.  A chunk that cannot be written finalizes the request from inside
curl's callback, which then tells curl that all is well, so that the handler goes on and finalizes
it again.  And the return code of `ngx_http_graph_client_send` is dropped: what follows it is
`NGX_OK`, whatever it was.

* `finalizes_pullEvents` counts: one code for every chunk that was not written, and one more.
* `finalized_once_iff` says for which outcomes a pull is finalized once, and with the right code.
-/

set_option autoImplicit false

namespace ImgPredictor

open Bytes

/-! ## The chunks -/

/-- The chunks curl delivers while a list of URLs is downloaded, the first of which is the `k`-th
of its request. -/
def deliveredChunks (env : Env) : ℕ → List Bytes → List Chunk
  | _, [] => []
  | k, url :: urls => match env.tempFile k with
    | .created _ => match env.curl k url with
      | none => []
      | some t => t.chunks ++ if t.ok then deliveredChunks env (k + 1) urls else []
    | _ => []

/-- The codes a chunk's callback finalizes the request with. -/
def Chunk.codes (c : Chunk) : List ℤ := if c.written then [] else [ngxHttpInternalServerError]

/-- **What a download shows** to something that looks neither at the calls of curl nor at messages:
its chunks, and a code when a step fails. -/
theorem filterMap_fetchEvents_eq {β : Type} {f : Event → Option β}
    (hget : ∀ url, f (.curlGet url) = none) (hlog : ∀ message, f (.logError message) = none)
    (env : Env) (k : ℕ) (urls : List Bytes) :
    (fetchEvents env k urls).filterMap f
      = (deliveredChunks env k urls).flatMap (fun c ↦ c.events.filterMap f) ++
        if (fetchImages env k urls).isSome then []
        else [Event.finalize ngxHttpInternalServerError].filterMap f := by
  induction urls generalizing k with
  | nil => rfl
  | cons url urls ih =>
    rw [fetchEvents, deliveredChunks, fetchImages]
    cases env.tempFile k with
    | unallocated => exact filterMap_failEvents fun message _ ↦ hlog message
    | failed => exact filterMap_failEvents fun message _ ↦ hlog message
    | created name =>
      cases env.curl k url with
      | none =>
        exact (List.filterMap_cons_none (hget url)).trans
          (filterMap_failEvents fun message _ ↦ hlog message)
      | some t =>
        have hcons : ∀ es, (.curlGet url :: (t.events ++ es)).filterMap f
            = t.chunks.flatMap (fun c ↦ c.events.filterMap f) ++ es.filterMap f := by
          intro es
          rw [List.filterMap_cons_none (hget url), List.filterMap_append, Transfer.events,
            List.filterMap_flatMap]
        simp only [hcons]
        cases hok : t.ok with
        | false => simp [hok, filterMap_failEvents fun message _ ↦ hlog message]
        | true => simp [ih, hok]

/-- **Downloading finalizes the request once for every chunk that is not written**, and once more
when a step fails. -/
theorem finalizes_fetchEvents (env : Env) (k : ℕ) (urls : List Bytes) :
    finalizes (fetchEvents env k urls) = (deliveredChunks env k urls).flatMap Chunk.codes ++
      if (fetchImages env k urls).isSome then [] else [ngxHttpInternalServerError] := by
  have hchunk : ∀ c : Chunk, finalizes c.events = c.codes := by
    intro c
    rw [Chunk.events, Chunk.codes]
    cases c.written <;> rfl
  rw [show Chunk.codes = fun c ↦ finalizes c.events from (funext hchunk).symm]
  exact filterMap_fetchEvents_eq (by simp) (by simp) env k urls

/-- The chunks of a trace. -/
def chunksOf (trace : List Event) : List Chunk :=
  trace.filterMap fun
    | .chunk data written => some ⟨data, written⟩
    | _ => none

theorem chunksOf_append (s t : List Event) : chunksOf (s ++ t) = chunksOf s ++ chunksOf t :=
  List.filterMap_append

/-- The chunks in the trace of a download are those that were delivered. -/
theorem chunksOf_fetchEvents (env : Env) (k : ℕ) (urls : List Bytes) :
    chunksOf (fetchEvents env k urls) = deliveredChunks env k urls := by
  have hchunk : ∀ c : Chunk, chunksOf c.events = [c] := by
    rintro ⟨data, written⟩
    cases written <;> rfl
  have hshown : chunksOf (fetchEvents env k urls)
      = (deliveredChunks env k urls).flatMap (fun c ↦ chunksOf c.events) ++
        if (fetchImages env k urls).isSome then [] else [] :=
    filterMap_fetchEvents_eq (by simp) (by simp) env k urls
  rw [hshown, ite_self, List.append_nil]
  simp [hchunk]

/-! ## The plugin and the answer -/

/-- `ngx_http_graph_client_send` failed, by the test it makes itself. -/
def SendFailed (rc : ℤ) : Prop := rc = ngxError ∨ rc > ngxOk

/-- The steps of sending succeed: the buffer, the header, and the body unless only the header is
asked for. -/
def SendSucceeds (env : Env) (r : Request) : Prop :=
  env.sendBuf = true ∧ ¬SendFailed env.sendHeader ∧
    (r.headerOnly = true ∨ ¬SendFailed env.outputFilter)

theorem sendRc_failed_iff (env : Env) (r : Request) :
    ¬SendFailed (sendRc env r) ↔ SendSucceeds env r := by
  rw [sendRc, SendSucceeds]
  cases env.sendBuf with
  | false => simp [SendFailed, ngxHttpInternalServerError, ngxError, ngxOk]
  | true =>
    simp only [Bool.not_true, Bool.false_eq_true, if_false, true_and]
    split
    · rename_i h
      rw [← or_assoc] at h
      rcases h with h | h
      · exact iff_of_false (fun hn ↦ hn h) (fun hn ↦ hn.1 h)
      · simp [h]
    · rename_i h
      rw [← or_assoc, not_or] at h
      exact ⟨fun hn ↦ ⟨h.1, .inr hn⟩, fun hn ↦ hn.2.resolve_left h.2⟩

/-- The plugin answers, and there is a buffer for the answer. -/
def PluginAnswers (env : Env) (r : Request) (glcf : LocConf) (images : ImageList) : Prop :=
  ∃ res, pluginResult env r glcf images = some res ∧ res.rc = 0 ∧ res.resJson ≠ [] ∧
    env.responseBuf = true

/-- The results of `run_process_by_name` in a trace. -/
def resultsOf (trace : List Event) : List (ℤ × Bytes) :=
  trace.filterMap fun
    | .returned rc resJson => some (rc, resJson)
    | _ => none

/-- The codes of `ngx_http_graph_client_send` in a trace. -/
def sendsOf (trace : List Event) : List ℤ :=
  trace.filterMap fun
    | .clientSend rc => some rc
    | _ => none

theorem resultsOf_append (s t : List Event) : resultsOf (s ++ t) = resultsOf s ++ resultsOf t :=
  List.filterMap_append

theorem sendsOf_append (s t : List Event) : sendsOf (s ++ t) = sendsOf s ++ sendsOf t :=
  List.filterMap_append

/-- What `run_process_by_name` shows of itself in a trace. -/
theorem processEvents_shows (pluginName extPara : Bytes) (images : ImageList)
    (res : ProcessResult) :
    finalizes (processEvents pluginName extPara images res) = [] ∧
      chunksOf (processEvents pluginName extPara images res) = [] ∧
      resultsOf (processEvents pluginName extPara images res) = [(res.rc, res.resJson)] ∧
      sendsOf (processEvents pluginName extPara images res) = [] := by
  rw [processEvents]
  cases res.invoked <;> exact ⟨rfl, rfl, rfl, rfl⟩

/-- What sending a result shows of itself in a trace. -/
theorem sendEvents_shows (env : Env) (r : Request) (resJson : Bytes) :
    chunksOf (sendEvents env r resJson) = [] ∧
      if env.responseBuf then
        finalizes (sendEvents env r resJson) = [ngxOk] ∧
          sendsOf (sendEvents env r resJson) = [sendRc env r]
      else finalizes (sendEvents env r resJson) = [ngxHttpInternalServerError] := by
  rw [sendEvents]
  cases env.responseBuf with
  | false => exact ⟨rfl, rfl⟩
  | true =>
    simp only [Bool.not_true, Bool.false_eq_true, if_false, if_true]
    split
    · exact ⟨rfl, rfl, rfl⟩
    · split <;> exact ⟨rfl, rfl, rfl⟩

/-- The second half shows no chunk. -/
theorem chunksOf_pluginEvents (env : Env) (r : Request) (glcf : LocConf) (images : ImageList) :
    chunksOf (pluginEvents env r glcf images) = [] := by
  rw [pluginEvents]
  split
  · rfl
  · simp only
    rw [chunksOf_append, (processEvents_shows ..).2.1, List.nil_append]
    split
    · rfl
    · split
      · rfl
      · exact (sendEvents_shows ..).1

/-- When the plugin answers, the second half ends in `NGX_OK`, and shows the plugin's result and
the code of the sending. -/
theorem pluginEvents_of_answers {env : Env} {r : Request} {glcf : LocConf} {images : ImageList}
    (h : PluginAnswers env r glcf images) :
    finalizes (pluginEvents env r glcf images) = [ngxOk] ∧
      (∃ resJson, (0, resJson) ∈ resultsOf (pluginEvents env r glcf images) ∧ resJson ≠ []) ∧
      sendsOf (pluginEvents env r glcf images) = [sendRc env r] := by
  obtain ⟨res, hres, hrc, hjson, hbuf⟩ := h
  obtain ⟨⟨pluginName, ext⟩, hargs, rfl⟩ := Option.map_eq_some_iff.mp hres
  generalize hr : processOf env glcf pluginName (ext.getD []) images = res at hrc hjson
  obtain ⟨-, hsend⟩ := sendEvents_shows env r res.resJson
  rw [if_pos hbuf] at hsend
  obtain ⟨hfin, -, hresults, hsends⟩ :=
    processEvents_shows pluginName (ext.getD []) images res
  have hempty : res.resJson.isEmpty = false := by simpa using hjson
  have hevents : pluginEvents env r glcf images
      = processEvents pluginName (ext.getD []) images res ++ sendEvents env r res.resJson := by
    simp [pluginEvents, hargs, hr, hrc, hempty]
  rw [hevents, finalizes_append, resultsOf_append, sendsOf_append, hfin, hresults, hsends,
    hsend.1, hsend.2]
  exact ⟨rfl, ⟨res.resJson, by simp [hrc], hjson⟩, rfl⟩

/-- Otherwise it ends in an error. -/
theorem pluginEvents_of_not_answers {env : Env} {r : Request} {glcf : LocConf}
    {images : ImageList} (h : ¬PluginAnswers env r glcf images) :
    ∃ rc, finalizes (pluginEvents env r glcf images) = [rc] ∧ rc ≠ ngxOk := by
  rw [PluginAnswers, pluginResult] at h
  rw [pluginEvents]
  cases hargs : pluginArgs r glcf with
  | none => exact ⟨_, rfl, by decide⟩
  | some p =>
    obtain ⟨pluginName, ext⟩ := p
    rw [hargs] at h
    simp only [Option.map_some, Option.some.injEq, exists_eq_left', not_and] at h
    simp only
    rw [finalizes_append, (processEvents_shows ..).1, List.nil_append]
    split
    · exact ⟨_, rfl, by decide⟩
    · rename_i hrc
      split
      · exact ⟨_, rfl, by decide⟩
      · rename_i hempty
        have hbuf := h (by simpa using hrc) (by simpa using hempty)
        obtain ⟨-, hsend⟩ := sendEvents_shows env r
          (processOf env glcf pluginName (ext.getD []) images).resJson
        rw [if_neg hbuf] at hsend
        exact ⟨_, hsend, by decide⟩

/-! ## The whole pull -/

/-- The URLs the loop finds in a text. -/
def urlsOfText (text : Bytes) : List Bytes :=
  if imgurl <+: text then urlsOf (text.drop 7) else []

/-- The pull is answered: its URLs are downloaded, and the plugin answers on the images. -/
def Answered (env : Env) (r : Request) (glcf : LocConf) (text : Bytes) : Prop :=
  imgurl <+: text ∧
    ∃ images, fetchImages env 0 (urlsOfText text) = some images ∧ PluginAnswers env r glcf images

/-- **The codes of a pull**: one for every chunk that was not written, and one that is `NGX_OK`
exactly when the pull is answered. -/
theorem finalizes_pullEvents (env : Env) (r : Request) (glcf : LocConf) (text : Bytes) :
    ∃ rc, finalizes (pullEvents env r glcf text)
        = (deliveredChunks env 0 (urlsOfText text)).flatMap Chunk.codes ++ [rc] ∧
      (rc = ngxOk ↔ Answered env r glcf text) := by
  rw [pullEvents, urlsOfText, Answered, urlsOfText]
  split
  · rename_i hp
    rw [finalizes_append, finalizes_fetchEvents]
    cases fetchImages env 0 (urlsOf (text.drop 7)) with
    | none => exact ⟨ngxHttpInternalServerError, by simp [finalizes], by simp [ngxOk,
        ngxHttpInternalServerError]⟩
    | some images =>
      simp only [Option.isSome_some, if_true, List.append_nil, Option.some.injEq, exists_eq_left',
        hp, true_and]
      by_cases h : PluginAnswers env r glcf images
      · exact ⟨ngxOk, by rw [(pluginEvents_of_answers h).1], iff_of_true rfl h⟩
      · obtain ⟨rc, hfin, hne⟩ := pluginEvents_of_not_answers h
        exact ⟨rc, by rw [hfin], iff_of_false hne h⟩
  · rename_i hp
    exact ⟨ngxHttpInternalServerError, rfl, iff_of_false (by decide) fun h ↦ hp h.1⟩

theorem chunksOf_pullEvents (env : Env) (r : Request) (glcf : LocConf) (text : Bytes) :
    chunksOf (pullEvents env r glcf text) = deliveredChunks env 0 (urlsOfText text) := by
  rw [pullEvents, urlsOfText]
  split
  · rw [chunksOf_append, chunksOf_fetchEvents]
    split
    · exact List.append_nil _
    · rw [chunksOf_pluginEvents, List.append_nil]
  · rfl

/-- What is asked of a pull that ends in `NGX_OK`. -/
def EarnsOk (events : List Event) : Prop :=
  (∀ c ∈ chunksOf events, c.written = true) ∧
    (∃ resJson, (0, resJson) ∈ resultsOf events ∧ resJson ≠ []) ∧
    ∃ rc ∈ sendsOf events, ¬SendFailed rc

/-- The request is finalized once, and with `NGX_OK` only when that is earned. -/
def FinalizedOnce (env : Env) (r : Request) (w : World) : Prop :=
  ∃ w' events rc, ngxHttpGraphClientBodyHandler2 env r w = some w' ∧
    w'.trace = w.trace ++ events ∧ finalizes events = [rc] ∧ (rc = ngxOk → EarnsOk events)

/-- The outcomes under which that goes well: there is a body, the chunks that curl delivers are
written, and an answer that is reached is sent. -/
def GoesWell (env : Env) (r : Request) (w : World) : Prop :=
  assemble r ≠ .fault ∧ ∀ text, assembledText r = some text →
    (∀ c ∈ deliveredChunks env 0 (urlsOfText text), c.written = true) ∧
      (Answered env r w.glcf text → SendSucceeds env r)

/-- Codes of chunks are there exactly when a chunk was not written. -/
theorem flatMap_codes_eq_nil (chunks : List Chunk) :
    chunks.flatMap Chunk.codes = [] ↔ ∀ c ∈ chunks, c.written = true := by
  rw [List.flatMap_eq_nil_iff]
  refine forall₂_congr fun c _ ↦ ?_
  rw [Chunk.codes]
  cases c.written <;> simp

/-- A chunk that was not written is reported as an error. -/
theorem Chunk.ne_ngxOk_of_mem_codes {c : Chunk} {rc : ℤ} (h : rc ∈ c.codes) : rc ≠ ngxOk := by
  rw [Chunk.codes] at h
  split at h
  · exact absurd h (by simp)
  · rw [List.mem_singleton.mp h]
    decide

/-- An answered pull earns its `NGX_OK` when its chunks are written and it is sent. -/
theorem earnsOk_iff {env : Env} {r : Request} {glcf : LocConf} {text : Bytes}
    (h : Answered env r glcf text) :
    EarnsOk (pullEvents env r glcf text) ↔
      (∀ c ∈ deliveredChunks env 0 (urlsOfText text), c.written = true) ∧ SendSucceeds env r := by
  obtain ⟨hp, images, himages, hanswers⟩ := h
  obtain ⟨-, ⟨resJson, hresult, hne⟩, hsends⟩ := pluginEvents_of_answers hanswers
  have hevents : pullEvents env r glcf text
      = fetchEvents env 0 (urlsOfText text) ++ pluginEvents env r glcf images := by
    rw [urlsOfText, if_pos hp] at himages ⊢
    rw [pullEvents, if_pos hp, himages]
  have hquiet : sendsOf (fetchEvents env 0 (urlsOfText text)) = [] :=
    filterMap_fetchEvents (by simp) (by simp) (by simp) (by simp) env 0 _
  have hsend : (∃ rc ∈ sendsOf (pullEvents env r glcf text), ¬SendFailed rc)
      ↔ SendSucceeds env r := by
    rw [← sendRc_failed_iff, hevents, sendsOf_append, hquiet, hsends]
    simp
  have hjson : ∃ resJson, (0, resJson) ∈ resultsOf (pullEvents env r glcf text) ∧ resJson ≠ [] :=
    ⟨resJson, by rw [hevents, resultsOf_append]; exact List.mem_append_right _ hresult, hne⟩
  rw [EarnsOk, chunksOf_pullEvents, hsend]
  exact and_congr_right fun _ ↦ and_iff_right hjson

/-- **A pull is finalized once, and rightly, exactly when nothing goes wrong where the code does
not look.** -/
theorem finalized_once_iff (env : Env) (r : Request) (w : World) :
    FinalizedOnce env r w ↔ GoesWell env r w := by
  rw [FinalizedOnce, GoesWell]
  cases ha : assemble r with
  | noBody =>
    -- refused at once, and no text
    have hrun : ngxHttpGraphClientBodyHandler2 env r w
        = some ((w.logError (lit "Had no graph body.")).finalize ngxHttpBadRequest) := by
      rw [ngxHttpGraphClientBodyHandler2, ha]
    refine iff_of_true ⟨_, [.logError (lit "Had no graph body."), .finalize ngxHttpBadRequest],
      ngxHttpBadRequest, hrun, by simp, rfl, fun h ↦ absurd h (by decide)⟩
      ⟨by simp, fun text ht ↦ ?_⟩
    · exact absurd ht (by simp [assembledText, ha])
  | fault =>
    refine iff_of_false ?_ (by simp)
    rintro ⟨w', events, rc, hw', -⟩
    exact absurd hw' (by simp [ngxHttpGraphClientBodyHandler2, ha])
  | text gd =>
    have htext : assembledText r = some gd.text := by rw [assembledText, ha]
    obtain ⟨w', hw', htrace⟩ := handler2_trace env w htext
    obtain ⟨rc, hcodes, hrc⟩ := finalizes_pullEvents env r w.glcf gd.text
    rw [htext]
    constructor
    · rintro ⟨v, events, rc', hv, htrace', hfin, hearns⟩
      obtain rfl := Option.some.inj (hw'.symm.trans hv)
      obtain rfl := List.append_cancel_left (htrace.symm.trans htrace')
      -- one code in all leaves none for the chunks
      rw [hcodes] at hfin
      obtain ⟨hnil, hlast⟩ : (deliveredChunks env 0 (urlsOfText gd.text)).flatMap Chunk.codes = []
          ∧ [rc] = [rc'] := List.append_inj' hfin rfl
      obtain rfl := List.singleton_inj.mp hlast
      refine ⟨by simp, fun text ht ↦ ?_⟩
      obtain rfl := Option.some.inj ht
      exact ⟨(flatMap_codes_eq_nil _).mp hnil, fun hans ↦
        ((earnsOk_iff hans).mp (hearns (hrc.mpr hans))).2⟩
    · rintro ⟨-, hwell⟩
      obtain ⟨hchunks, hsend⟩ := hwell gd.text rfl
      refine ⟨w', _, rc, hw', htrace, ?_, fun hok ↦ ?_⟩
      · rw [hcodes, (flatMap_codes_eq_nil _).mpr hchunks, List.nil_append]
      · have hans := hrc.mp hok
        exact (earnsOk_iff hans).mpr ⟨hchunks, hsend hans⟩

/-- Everything succeeds but the writing of the one chunk that comes. -/
def diskFull : Env := { Env.smooth with curl := fun _ _ ↦ some ⟨[⟨lit "GIF", false⟩], true⟩ }

/-- A location whose only plugin is `face`. -/
def World.withFace : World :=
  { World.fresh with glcf := { World.fresh.glcf with
    pluginSlot := (World.fresh.glcf.pluginSlot.insertPlugin (lit "face")
      (some ⟨lit "face", 1, 2, 3, [], [], false⟩)).2 } }

/-- A chunk that is not written has the request finalized twice, the second time with `NGX_OK`. -/
theorem finalized_twice :
    (ngxHttpGraphClientBodyHandler2 diskFull (pullUrl (lit "ab")) .withFace).map
        (fun w ↦ finalizes w.trace) = some [ngxHttpInternalServerError, ngxOk] ∧
      ¬FinalizedOnce diskFull (pullUrl (lit "ab")) .withFace := by
  have hrun : (ngxHttpGraphClientBodyHandler2 diskFull (pullUrl (lit "ab")) .withFace).map
      (fun w ↦ finalizes w.trace) = some [ngxHttpInternalServerError, ngxOk] := by decide +kernel
  refine ⟨hrun, ?_⟩
  rintro ⟨w', events, rc, hw', htrace, hfin, -⟩
  rw [hw', Option.map_some, htrace, finalizes_append, hfin] at hrun
  have := congrArg List.length (Option.some.inj hrun)
  exact absurd this (by simp [World.withFace, World.fresh, finalizes])

end ImgPredictor
