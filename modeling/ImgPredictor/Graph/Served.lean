import ImgPredictor.Graph.Leak

/-!
# What was served, and what the error log says of it

The module logs an answer before it sends it.  `served_logged` says that over a whole run, whatever
the order of the events, **there is one message with an answer for every request whose plugin
answered**, with that answer in it up to the first NUL, and none for the others.  What is written to
a client is the answer its own plugin gave, if anything is.

`Location.log` has all the messages of the module, as it hands them to `ngx_log_error`: those with
an answer begin with `, res_json:`, and no other one does.  Further on in a message there may be
anything a client sends: a URL that could not be fetched is logged as it stands.  What nginx makes
of a message, a line of 2048 bytes at most, is not looked at here.
-/

set_option autoImplicit false

namespace ImgPredictor

open Bytes

/-! ## One callback -/

/-- The answers of plugins: what `run_process_by_name` left in `res_json` when it returned zero, if
that is not empty. -/
def answers (trace : List Event) : List Bytes :=
  trace.filterMap fun
    | .returned rc resJson => if rc = 0 ∧ resJson ≠ [] then some resJson else none
    | _ => none

/-- The messages of a trace. -/
def messages (trace : List Event) : List Bytes :=
  trace.filterMap fun
    | .logError message => some message
    | _ => none

/-- What stands behind `, res_json:` in a message that begins so. -/
def answerText (message : Bytes) : Option Bytes :=
  if isAnswer message then some (message.drop (lit ", res_json:").length) else none

/-- The texts logged behind `, res_json:`. -/
def loggedTexts (trace : List Event) : List Bytes :=
  trace.filterMap fun
    | .logError message => answerText message
    | _ => none

theorem loggedTexts_eq (trace : List Event) :
    loggedTexts trace = (messages trace).filterMap answerText := by
  rw [loggedTexts, messages, List.filterMap_filterMap]
  refine List.filterMap_congr fun e _ ↦ ?_
  cases e <;> rfl

theorem answerText_append (text : Bytes) : answerText (lit ", res_json:" ++ text) = some text := by
  have hanswer : isAnswer (lit ", res_json:" ++ text) = true :=
    List.isPrefixOf_iff_prefix.mpr (List.prefix_append ..)
  rw [answerText, if_pos hanswer, List.drop_left]

theorem answerText_of_not {message : Bytes} (h : isAnswer message = false) :
    answerText message = none := by
  simp [answerText, h]

theorem answers_append (s t : List Event) : answers (s ++ t) = answers s ++ answers t :=
  List.filterMap_append

theorem loggedTexts_append (s t : List Event) :
    loggedTexts (s ++ t) = loggedTexts s ++ loggedTexts t :=
  List.filterMap_append

theorem outputs_append (s t : List Event) : outputs (s ++ t) = outputs s ++ outputs t :=
  List.filterMap_append

/-- What is asked of the trace of a callback. -/
structure Shown (env : Env) (events : List Event) : Prop where
  /-- One plugin is called at most. -/
  once : (answers events).length ≤ 1
  /-- What it answers is logged, up to the first NUL, and nothing else is. -/
  logged : loggedTexts events = (answers events).map fun resJson ↦ cstr resJson 0
  /-- What it answers is sent, or nothing is. -/
  sent : outputs events = [] ∨ outputs events = answers events
  /-- The request is ended once, apart from the chunks that were not written, and well if there is
  an answer and a buffer for it. -/
  codes : ∃ rc, finalizes events = (chunksOf events).flatMap Chunk.codes ++ [rc] ∧
    (rc = ngxOk ↔ answers events ≠ [] ∧ env.responseBuf = true)

/-- What `run_process_by_name` shows of its answer. -/
theorem answers_processEvents (pluginName extPara : Bytes) (images : ImageList)
    (res : ProcessResult) :
    answers (processEvents pluginName extPara images res)
        = (if res.rc = 0 ∧ res.resJson ≠ [] then [res.resJson] else []) ∧
      loggedTexts (processEvents pluginName extPara images res) = [] ∧
      outputs (processEvents pluginName extPara images res) = [] := by
  rw [processEvents]
  refine ⟨?_, ?_, ?_⟩
  · by_cases h : res.rc = 0 ∧ res.resJson ≠ []
    · cases res.invoked <;> simp [answers, h]
    · cases res.invoked <;> simp [answers, h]
  · cases res.invoked <;> rfl
  · cases res.invoked <;> rfl

/-- What sending an answer shows. -/
theorem answers_sendEvents (env : Env) (r : Request) (resJson : Bytes) :
    answers (sendEvents env r resJson) = [] ∧
      loggedTexts (sendEvents env r resJson) = [cstr resJson 0] ∧
      (outputs (sendEvents env r resJson) = [] ∨
        outputs (sendEvents env r resJson) = [resJson]) ∧
      ∃ rc, finalizes (sendEvents env r resJson) = [rc] ∧
        (rc = ngxOk ↔ env.responseBuf = true) := by
  have hlogged : ∀ events, loggedTexts events = [] →
      loggedTexts (.logError (lit ", res_json:" ++ cstr resJson 0) :: events)
        = [cstr resJson 0] := by
    intro events h
    rw [loggedTexts_eq] at h ⊢
    exact (List.filterMap_cons_some (answerText_append _)).trans (congrArg _ h)
  rw [sendEvents]
  cases env.responseBuf with
  | false =>
    exact ⟨rfl, hlogged _ rfl, .inl rfl, _, rfl, iff_of_false (by decide) Bool.false_ne_true⟩
  | true =>
    simp only [Bool.not_true, Bool.false_eq_true, if_false]
    split
    · exact ⟨rfl, hlogged _ rfl, .inl rfl, _, rfl, iff_of_true rfl trivial⟩
    · split
      · exact ⟨rfl, hlogged _ rfl, .inl rfl, _, rfl, iff_of_true rfl trivial⟩
      · exact ⟨rfl, hlogged _ rfl, .inr rfl, _, rfl, iff_of_true rfl trivial⟩

/-- What a failure shows. -/
theorem answers_failEvents {ms : List Bytes} (h : ∀ message ∈ ms, isAnswer message = false) :
    answers (failEvents ms) = [] ∧ loggedTexts (failEvents ms) = [] ∧
      outputs (failEvents ms) = [] ∧ finalizes (failEvents ms) = [ngxHttpInternalServerError] :=
  ⟨filterMap_failEvents (by simp),
    filterMap_failEvents fun message hm ↦ answerText_of_not (h message hm),
    filterMap_failEvents (by simp), filterMap_failEvents (by simp)⟩

/-- A plugin that fails or answers nothing ends in a failure, none of whose messages is an
answer. -/
theorem exists_failEvents (env : Env) (r : Request) (pluginName : Bytes) {res : ProcessResult}
    (h : ¬(res.rc = 0 ∧ res.resJson ≠ [])) :
    ∃ ms, (∀ message ∈ ms, isAnswer message = false) ∧
      (if res.rc ≠ 0 then
        failEvents [lit "run_process_by_name failed.Plugin:" ++ cstr pluginName 0]
      else if res.resJson.isEmpty then [.finalize ngxHttpInternalServerError]
      else sendEvents env r res.resJson) = failEvents ms := by
  by_cases hrc : res.rc = 0
  · have hempty : res.resJson = [] := by
      by_contra hne
      exact h ⟨hrc, hne⟩
    exact ⟨[], by simp, by simp [hrc, hempty, failEvents]⟩
  · refine ⟨_, fun message hm ↦ ?_, if_pos hrc⟩
    rw [List.mem_singleton.mp hm]
    exact isAnswer_append (b := 114) (by decide) (by decide) _

/-- A trace in which no plugin answers shows only the code. -/
theorem Shown.of_refused {env : Env} {events : List Event} {rc : ℤ} (hrc : rc ≠ ngxOk)
    (hanswers : answers events = []) (hlogged : loggedTexts events = [])
    (hsent : outputs events = [])
    (hcodes : finalizes events = (chunksOf events).flatMap Chunk.codes ++ [rc]) :
    Shown env events :=
  ⟨by simp [hanswers], by rw [hanswers, hlogged]; rfl, .inl hsent, rc, hcodes,
    iff_of_false hrc fun h ↦ h.1 hanswers⟩

/-- The second half of a callback. -/
theorem shown_pluginEvents (env : Env) (r : Request) (glcf : LocConf) (images : ImageList) :
    Shown env (pluginEvents env r glcf images) := by
  have hchunks := chunksOf_pluginEvents env r glcf images
  rw [pluginEvents] at hchunks ⊢
  cases hargs : pluginArgs r glcf with
  | none => exact .of_refused (by decide) rfl rfl rfl rfl
  | some p =>
    obtain ⟨pluginName, ext⟩ := p
    rw [hargs] at hchunks
    simp only at hchunks ⊢
    generalize processOf env glcf pluginName (ext.getD []) images = res at hchunks ⊢
    obtain ⟨hanswers, hlogged, hsent⟩ :=
      answers_processEvents pluginName (ext.getD []) images res
    have hcodes := (processEvents_shows pluginName (ext.getD []) images res).1
    by_cases hanswered : res.rc = 0 ∧ res.resJson ≠ []
    · rw [if_pos hanswered] at hanswers
      have hempty : res.resJson.isEmpty = false := by simpa using hanswered.2
      simp only [hanswered.1, hempty, ne_eq, not_true, if_false, Bool.false_eq_true] at hchunks ⊢
      obtain ⟨hanswers', hlogged', hsent', rc, hcodes', hrc⟩ :=
        answers_sendEvents env r res.resJson
      have hone : answers (processEvents pluginName (ext.getD []) images res ++
          sendEvents env r res.resJson) = [res.resJson] := by
        rw [answers_append, hanswers, hanswers']
        rfl
      refine ⟨by simp [hone], ?_, ?_, rc, ?_, ?_⟩
      · rw [hone, loggedTexts_append, hlogged, hlogged']
        rfl
      · rw [hone, outputs_append, hsent]
        exact hsent'
      · rw [hchunks, finalizes_append, hcodes, hcodes']
        rfl
      · rw [hone, hrc]
        simp
    · -- the plugin failed, or answered nothing
      rw [if_neg hanswered] at hanswers
      obtain ⟨ms, hms, hevents⟩ := exists_failEvents env r pluginName hanswered
      obtain ⟨hanswers', hlogged', hsent', hcodes'⟩ := answers_failEvents hms
      have hfailed : ngxHttpInternalServerError ≠ ngxOk := by decide
      rw [hevents] at hchunks ⊢
      refine .of_refused hfailed ?_ ?_ ?_ ?_
      · rw [answers_append, hanswers, hanswers', List.append_nil]
      · rw [loggedTexts_append, hlogged, hlogged', List.append_nil]
      · rw [outputs_append, hsent, hsent', List.append_nil]
      · rw [hchunks, finalizes_append, hcodes, hcodes']
        rfl

/-- The first half ends the request for the chunks that were not written, and once more exactly if
there are no images in the end. -/
theorem finalizes_callbackEvents {env : Env} {r : Request} {h : BodyHandler}
    (hfault : h = .handler2 → assemble r ≠ .fault) :
    ∃ codes, finalizes (callbackEvents env r h)
        = (chunksOf (callbackEvents env r h)).flatMap Chunk.codes ++ codes ∧
      ((callbackImages env r h).isSome = true ∧ codes = [] ∨
        callbackImages env r h = none ∧ ∃ rc, codes = [rc] ∧ rc ≠ ngxOk) := by
  rcases h with _ | _
  · rw [callbackEvents, callbackImages]
    cases r.requestBody.bind RequestBody.tempFile with
    | some tf => exact ⟨[], rfl, .inl ⟨rfl, rfl⟩⟩
    | none => exact ⟨_, rfl, .inr ⟨rfl, _, rfl, by decide⟩⟩
  · rw [callbackEvents, callbackImages, assembledText]
    cases ha : assemble r with
    | noBody => exact ⟨_, rfl, .inr ⟨rfl, _, rfl, by decide⟩⟩
    | fault => exact absurd ha (hfault rfl)
    | text gd =>
      simp only [Option.bind_some]
      split
      · rw [chunksOf_fetchEvents, finalizes_fetchEvents]
        refine ⟨_, rfl, ?_⟩
        cases fetchImages env 0 (urlsOf (gd.text.drop 7)) with
        | some images => exact .inl ⟨rfl, rfl⟩
        | none => exact .inr ⟨rfl, _, rfl, by decide⟩
      · exact ⟨_, rfl, .inr ⟨rfl, _, rfl, by decide⟩⟩

/-- **What a callback shows.** -/
theorem shown_of_run {env : Env} {r : Request} {h : BodyHandler} {glcf : LocConf} {w : World}
    (hrun : h.run env r ⟨glcf, []⟩ = some w) : Shown env w.trace := by
  have hfault : h = .handler2 → assemble r ≠ .fault := by
    rintro rfl
    exact handler2_isSome.mp (Option.isSome_iff_exists.mpr ⟨w, hrun⟩)
  obtain ⟨codes, hcodes, himages⟩ := @finalizes_callbackEvents env r h hfault
  have hanswers : answers (callbackEvents env r h) = [] :=
    filterMap_callbackEvents (by simp) (by simp) (by simp) (by simp) env r h
  have hlogged : loggedTexts (callbackEvents env r h) = [] :=
    filterMap_callbackEvents (by simp) (fun _ ↦ answerText_of_not) (by simp) (by simp) env r h
  have hsent : outputs (callbackEvents env r h) = [] :=
    filterMap_callbackEvents (by simp) (by simp) (by simp) (by simp) env r h
  rw [run_trace hrun, List.nil_append]
  rcases himages with ⟨hsome, rfl⟩ | ⟨hnone, rc, rfl, hrc⟩
  · obtain ⟨images, himages⟩ := Option.isSome_iff_exists.mp hsome
    rw [himages, imagesEvents]
    obtain ⟨honce, hlogged', hsent', rc, hcodes', hrc⟩ := shown_pluginEvents env r glcf images
    have hall : answers (callbackEvents env r h ++ pluginEvents env r glcf images)
        = answers (pluginEvents env r glcf images) := by rw [answers_append, hanswers]; rfl
    refine ⟨hall ▸ honce, ?_, ?_, rc, ?_, hall ▸ hrc⟩
    · rw [hall, loggedTexts_append, hlogged, hlogged']
      rfl
    · rw [hall, outputs_append, hsent]
      exact hsent'
    · rw [finalizes_append, chunksOf_append, hcodes, hcodes', List.append_nil,
        List.flatMap_append, List.append_assoc]
  · rw [hnone, imagesEvents, List.append_nil]
    exact .of_refused hrc hanswers hlogged hsent hcodes

/-! ## The log of a run -/

/-- What the callback of a request did, once it has run. -/
def Phase.events : Phase → List Event
  | .answered events _ => events
  | .written events _ => events
  | _ => []

/-- The callback has run. -/
def Phase.Ran : Phase → Prop
  | .answered _ _ => True
  | .written _ _ => True
  | _ => False

/-- What was written to the client. -/
def Phase.response : Phase → List Bytes
  | .written _ response => response
  | _ => []

section

variable {ι : Type} [DecidableEq ι]

/-- The messages an event that leads to `s₁` hands to `ngx_log_error`, and whose they are. -/
def Action.lines (clients : ι → Client) (s₁ : Location ι) : Action ι → List (ι × Bytes)
  | .handle i => (clients i).dispatch.logged.map fun message ↦ (i, message)
  | .callback i _ => (messages (s₁.phase i).events).map fun message ↦ (i, message)
  | .write _ => []

/-- The messages a sequence of events hands to `ngx_log_error`, in order. -/
def Location.log (clients : ι → Client) : Location ι → List (Action ι) → List (ι × Bytes)
  | _, [] => []
  | s, a :: actions => match s.step clients a with
    | none => []
    | some s₁ => a.lines clients s₁ ++ s₁.log clients actions

/-- The answers among the messages of a log. -/
def loggedAnswers (log : List (ι × Bytes)) : List (ι × Bytes) :=
  log.filterMap fun p ↦ (answerText p.2).map fun text ↦ (p.1, text)

/-- The answers a sequence of events leaves in the log. -/
def Location.answerLog (clients : ι → Client) (s : Location ι) (actions : List (Action ι)) :
    List (ι × Bytes) :=
  loggedAnswers (s.log clients actions)

/-- What is known of a request in a phase. -/
def Phase.Known (c : Client) : Phase → Prop
  | .new => True
  | .refused _ => True
  | .reading => c.called.isSome = true
  | .answered events links =>
    c.called.isSome = true ∧ Shown c.env events ∧ links = outputs events
  | .written events response =>
    c.called.isSome = true ∧ Shown c.env events ∧ response = outputs events

/-- The answers in the log of a location that has come this far. -/
structure Journal (clients : ι → Client) (log : List (ι × Bytes)) (s : Location ι) : Prop where
  /-- No request has two. -/
  nodup : (log.map Prod.fst).Nodup
  /-- What they are. -/
  lines : ∀ i text, (i, text) ∈ log ↔ text ∈ loggedTexts (s.phase i).events
  /-- The phases. -/
  known : ∀ i, (s.phase i).Known (clients i)

variable {clients : ι → Client} {slot : PluginSlot PluginInfo} {log : List (ι × Bytes)}
  {s s₁ : Location ι}

omit [DecidableEq ι] in
theorem journal_start : Journal clients [] (Location.start slot) :=
  ⟨List.nodup_nil, fun _ _ ↦ iff_of_false List.not_mem_nil List.not_mem_nil, fun _ ↦ trivial⟩

/-- A request moves on without an entry. -/
theorem Journal.advance (h : Journal clients log s) {i : ι} {p : Phase}
    (hevents : p.events = (s.phase i).events) (hknown : p.Known (clients i)) :
    Journal clients log (s.advance i p) := by
  have hphase : ∀ j, (s.advance i p).phase j = if j = i then p else s.phase j :=
    fun j ↦ Function.update_apply ..
  refine ⟨h.nodup, fun j text ↦ ?_, fun j ↦ ?_⟩
  · rw [h.lines, hphase]
    split
    · rename_i hj
      rw [hj, hevents]
    · rfl
  · rw [hphase]
    split
    · rename_i hj
      exact hj ▸ hknown
    · exact h.known j

/-- A callback has run, and its answer is added. -/
theorem Journal.callback (h : Journal clients log s) {i : ι} (hreading : s.phase i = .reading)
    {r : Request} {handler : BodyHandler} (hcalled : (clients i).called = some (r, handler))
    {ii : ℤ} {w : World}
    (hrun : handler.run ((clients i).env.withStack ii) r ⟨s.glcf, []⟩ = some w) :
    Journal clients (log ++ (loggedTexts w.trace).map fun text ↦ (i, text)) (s.finish i w) := by
  have hphase : ∀ j, (s.finish i w).phase j
      = if j = i then .answered w.trace (outputs w.trace) else s.phase j :=
    fun j ↦ Function.update_apply ..
  obtain ⟨honce, hlogged, hsent, hcodes⟩ := shown_of_run hrun
  have hfresh : ∀ text, (i, text) ∉ log := by
    intro text hmem
    rw [h.lines, hreading] at hmem
    exact absurd hmem List.not_mem_nil
  refine ⟨?_, fun j text ↦ ?_, fun j ↦ ?_⟩
  · rw [List.map_append, List.nodup_append]
    refine ⟨h.nodup, ?_, ?_⟩
    · have hlen : (loggedTexts w.trace).length ≤ 1 := by
        rw [hlogged, List.length_map]
        exact honce
      rw [List.map_map]
      match loggedTexts w.trace, hlen with
      | [], _ => exact List.nodup_nil
      | [text], _ => exact List.nodup_singleton _
    · intro j hj k hk hjk
      obtain ⟨⟨j', text⟩, hmem, rfl⟩ := List.mem_map.mp hj
      obtain ⟨p, hp, rfl⟩ := List.mem_map.mp hk
      obtain ⟨text', -, rfl⟩ := List.mem_map.mp hp
      obtain rfl : j' = i := hjk
      exact hfresh text hmem
  · rw [List.mem_append, hphase]
    by_cases hj : j = i
    · subst hj
      rw [if_pos rfl]
      simp [hfresh, Phase.events]
    · rw [if_neg hj, h.lines, or_iff_left]
      simp [Ne.symm hj]
  · rw [hphase]
    split
    · rename_i hj
      subst hj
      exact ⟨by rw [hcalled]; rfl, ⟨honce, hlogged, hsent, hcodes⟩, rfl⟩
    · exact h.known j

omit [DecidableEq ι] in
theorem loggedAnswers_append (log log' : List (ι × Bytes)) :
    loggedAnswers (log ++ log') = loggedAnswers log ++ loggedAnswers log' :=
  List.filterMap_append

omit [DecidableEq ι] in
theorem loggedAnswers_map (i : ι) (ms : List Bytes) :
    loggedAnswers (ms.map fun message ↦ (i, message))
      = (ms.filterMap answerText).map fun text ↦ (i, text) := by
  rw [loggedAnswers, List.filterMap_map, List.map_filterMap]
  rfl

/-- What the handler of a request logs is no answer. -/
theorem isAnswer_of_logged {c : Client} {message : Bytes} (h : message ∈ c.dispatch.logged) :
    isAnswer message = false := by
  rw [Client.dispatch, ngxHttpGraphHandler] at h
  have hlogged : message = lit "missing graph body" ∨
      message = lit "missing src=pull/push arg" := by
    split at h
    · exact .inl (List.mem_singleton.mp h)
    · split at h
      · exact .inr (List.mem_singleton.mp h)
      · split at h
        · exact absurd h (by simp [Dispatch.logged])
        · exact absurd h (by simp [Dispatch.logged])
        · split at h <;> exact absurd h (by simp [Dispatch.logged])
  rcases hlogged with rfl | rfl <;> decide

omit [DecidableEq ι] in
theorem loggedAnswers_handle (i : ι) :
    loggedAnswers (Action.lines clients s₁ (.handle i)) = [] := by
  rw [Action.lines, loggedAnswers_map, List.map_eq_nil_iff, List.filterMap_eq_nil_iff]
  exact fun message h ↦ answerText_of_not (isAnswer_of_logged h)

/-- **An event adds to the log what the module logs in it.** -/
theorem Journal.step (h : Journal clients log s) {a : Action ι}
    (hstep : s.step clients a = some s₁) :
    Journal clients (log ++ loggedAnswers (a.lines clients s₁)) s₁ := by
  rcases a with i | ⟨i, ii⟩ | i
  · rw [Location.step] at hstep
    split at hstep
    · rename_i hp
      obtain ⟨p, hphase, rfl⟩ := Option.map_eq_some_iff.mp hstep
      rw [loggedAnswers_handle, List.append_nil]
      rcases Dispatch.phase_cases hphase with ⟨rc, logged, -, rfl⟩ | ⟨r, handler, hd, rfl⟩
      · exact h.advance (by rw [hp]; rfl) trivial
      · refine h.advance (by rw [hp]; rfl) ?_
        rw [Phase.Known, Client.called, hd]
        rfl
    · exact absurd hstep (by simp)
  · rw [Location.step] at hstep
    split at hstep
    · rename_i hp
      obtain ⟨⟨r, handler⟩, hcalled, hrun⟩ := Option.bind_eq_some_iff.mp hstep
      obtain ⟨w, hw, rfl⟩ := Option.map_eq_some_iff.mp hrun
      rw [Action.lines, finish_phase_self, loggedAnswers_map, Phase.events, ← loggedTexts_eq]
      exact h.callback hp hcalled hw
    · exact absurd hstep (by simp)
  · rw [Location.step] at hstep
    split at hstep
    · rename_i events links hp
      obtain rfl := Option.some.inj hstep
      change Journal clients (log ++ []) _
      rw [List.append_nil]
      have hknown := h.known i
      rw [hp] at hknown
      exact h.advance (by rw [hp]; rfl) hknown
    · exact absurd hstep (by simp)

theorem Journal.run (h : Journal clients log s) {actions : List (Action ι)} {s' : Location ι}
    (hrun : Location.run clients s actions = some s') :
    Journal clients (log ++ s.answerLog clients actions) s' := by
  induction actions generalizing s log with
  | nil =>
    obtain rfl := Option.some.inj hrun
    rw [Location.answerLog, Location.log, loggedAnswers, List.filterMap_nil, List.append_nil]
    exact h
  | cons a actions ih =>
    obtain ⟨s₁, h₁, hrest⟩ := (Transition.run_cons_eq_some _).mp hrun
    have := ih (h.step h₁) hrest
    rwa [Location.answerLog, Location.log, h₁, loggedAnswers_append, ← List.append_assoc]

omit [DecidableEq ι] in
/-- A request in the log had its body read. -/
theorem Journal.called (h : Journal clients log s) {i : ι} {text : Bytes} (hmem : (i, text) ∈ log) :
    (clients i).called.isSome = true := by
  rw [h.lines] at hmem
  have hk := h.known i
  cases hp : s.phase i with
  | answered events links => exact (hp ▸ hk).1
  | written events response => exact (hp ▸ hk).1
  | _ =>
    rw [hp] at hmem
    exact absurd hmem List.not_mem_nil

/-- **What was served is what was logged**, in every run: a request has one message with an answer
if its plugin answered, with that answer, and none if it did not. -/
theorem served_logged {actions : List (Action ι)}
    (hrun : Location.run clients (.start slot) actions = some s) :
    (((Location.start slot).answerLog clients actions).map Prod.fst).Nodup ∧
      (∀ i text, (i, text) ∈ (Location.start slot).answerLog clients actions ↔
        ∃ resJson ∈ answers (s.phase i).events, text = cstr resJson 0) ∧
      (∀ i, (s.phase i).Ran → Shown (clients i).env (s.phase i).events) ∧
      ∀ i, (s.phase i).response = [] ∨ (s.phase i).response = answers (s.phase i).events := by
  obtain ⟨hnodup, hlines, hknown⟩ := journal_start.run hrun
  rw [List.nil_append] at hnodup hlines
  have hshown : ∀ i, (s.phase i).Ran → Shown (clients i).env (s.phase i).events := by
    intro i hran
    have hk := hknown i
    cases hp : s.phase i with
    | answered events links => exact (hp ▸ hk).2.1
    | written events response => exact (hp ▸ hk).2.1
    | _ => exact absurd hran (by simp [hp, Phase.Ran])
  refine ⟨hnodup, fun i text ↦ ?_, hshown, fun i ↦ ?_⟩
  · rw [hlines]
    have hempty : ¬(s.phase i).Ran → (s.phase i).events = [] := by
      cases s.phase i <;> simp [Phase.Ran, Phase.events]
    by_cases hran : (s.phase i).Ran
    · rw [(hshown i hran).logged, List.mem_map]
      exact exists_congr fun _ ↦ and_congr_right fun _ ↦ eq_comm
    · rw [hempty hran]
      simp [loggedTexts, answers]
  · have hk := hknown i
    cases hp : s.phase i with
    | written events response =>
      obtain ⟨-, hshown, rfl⟩ := hp ▸ hk
      exact hshown.sent
    | _ => exact .inl rfl

end

/-- Two pulls, the first of which is written to its client while the second is read. -/
def poemActions : List (Action Bool) :=
  [.handle false, .callback false 0, .handle true, .write false, .callback true 65]

theorem served_logged_poem :
    ∃ s, Location.run leakClients (.start poemSlot) poemActions = some s ∧
      ∀ i text, (i, text) ∈ (Location.start poemSlot).answerLog leakClients poemActions ↔
        ∃ resJson ∈ answers (s.phase i).events, text = cstr resJson 0 := by
  have hsome : (Location.run leakClients (.start poemSlot) poemActions).isSome = true := by
    decide +kernel
  obtain ⟨s, hs⟩ := Option.isSome_iff_exists.mp hsome
  exact ⟨s, hs, (served_logged hs).2.1⟩

end ImgPredictor
