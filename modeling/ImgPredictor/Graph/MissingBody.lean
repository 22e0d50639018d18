import ImgPredictor.Graph.Trace

/-!
# Requests without a body

`ngx_http_graph_handler` turns away a request whose `content_length_n` is `0`.  A request that
announces no body at all has `-1` there and gets through: nginx calls the callback at once, with
neither buffers nor a temp file, and the callbacks do not look.

This file follows a body through nginx's save filter to see what the callbacks find.

* `Gathered` is the invariant of the filter: what is in the temp file and what is in the buffers
  make up the bytes seen so far, and every buffer has bytes.
* `assemble_isFault` says when the pull callback hits a NULL pointer, `tempFile_isSome` when the
  push callback finds its file.
* `callback_ok_iff` puts the two together: a push is safe when a body is announced, a pull when
  there is a byte of it.
-/

set_option autoImplicit false

namespace ImgPredictor

open Bytes

/-! ## The save filter -/

/-- What has been gathered of a body, before its end. -/
structure Gathered (rb : RequestBody) (seen : Bytes) : Prop where
  /-- Every buffer is in memory and has a byte. -/
  bufs : ∀ b ∈ rb.bufs, b.inFile = false ∧ b.bytes ≠ []
  /-- The file and the buffers hold what was seen. -/
  content : rb.tempFile.elim [] TempFile.content ++ rb.bufs.flatMap Buf.bytes = seen

theorem gathered_new : Gathered .new [] := ⟨by simp [RequestBody.new], rfl⟩

theorem flatMap_ofPart (parts : List (Bytes × Bytes)) :
    (parts.map Buf.ofPart).flatMap Buf.bytes = parts.flatMap Prod.fst := by
  rw [List.flatMap_map]
  rfl

/-- The buffers of an arrival are gathered with the others. -/
theorem Gathered.append {rb : RequestBody} {seen : Bytes} (h : Gathered rb seen) {a : Arrival}
    (ha : ∀ p ∈ a.parts, p.1 ≠ []) :
    Gathered { rb with bufs := rb.bufs ++ a.parts.map Buf.ofPart } (seen ++ a.bytes) := by
  constructor
  · intro b hb
    rcases List.mem_append.mp hb with hb | hb
    · exact h.bufs b hb
    · obtain ⟨p, hp, rfl⟩ := List.mem_map.mp hb
      exact ⟨rfl, ha p hp⟩
  · simp only [List.flatMap_append, ← List.append_assoc, h.content, flatMap_ofPart]
    rfl

/-- Writing the buffers out moves their bytes to the file. -/
theorem write_content (name : Bytes) (rb : RequestBody) :
    (ngxHttpWriteRequestBody name rb).bufs = [] ∧
      ∃ tf, (ngxHttpWriteRequestBody name rb).tempFile = some tf ∧
        tf.content = rb.tempFile.elim [] TempFile.content ++ rb.bufs.flatMap Buf.bytes := by
  refine ⟨rfl, _, rfl, ?_⟩
  cases rb.tempFile <;> rfl

theorem Gathered.write {rb : RequestBody} {seen : Bytes} (h : Gathered rb seen) (name : Bytes) :
    Gathered (ngxHttpWriteRequestBody name rb) seen := by
  obtain ⟨hbufs, tf, htf, hcontent⟩ := write_content name rb
  refine ⟨by simp [hbufs], ?_⟩
  rw [hbufs, htf]
  simp [hcontent, h.content]

/-- **One call of the filter, before the end of the body.** -/
theorem Gathered.step {rb : RequestBody} {seen : Bytes} (h : Gathered rb seen) (r : Request)
    (name : Bytes) {a : Arrival} (ha : ∀ p ∈ a.parts, p.1 ≠ []) (hf : a.final = false) :
    Gathered (ngxHttpRequestBodySaveFilter r name rb a) (seen ++ a.bytes) := by
  have hchain : a.chain r.chunked = a.parts.map Buf.ofPart := by simp [Arrival.chain, hf]
  simp only [ngxHttpRequestBodySaveFilter, hf, hchain]
  split
  · split
    · exact (h.append ha).write name
    · exact h.append ha
  · rename_i hfalse
    exact absurd rfl hfalse

/-- **The filter, up to the end of the body.** -/
theorem Gathered.run {rb : RequestBody} {seen : Bytes} (h : Gathered rb seen) (r : Request)
    (name : Bytes) {arrivals : List Arrival} (hparts : ∀ a ∈ arrivals, ∀ p ∈ a.parts, p.1 ≠ [])
    (hfinal : ∀ a ∈ arrivals, a.final = false) :
    Gathered (arrivals.foldl (ngxHttpRequestBodySaveFilter r name) rb)
      (seen ++ bodyBytes arrivals) := by
  induction arrivals generalizing rb seen with
  | nil => simpa [bodyBytes] using h
  | cons a arrivals ih =>
    have hstep := h.step r name (hparts a (by simp)) (hfinal a (by simp))
    have := ih hstep (fun b hb ↦ hparts b (by simp [hb])) (fun b hb ↦ hfinal b (by simp [hb]))
    simpa [bodyBytes] using this

/-! ## What the callbacks find -/

/-- What is left of the body once its end is there: it is in the buffers, with perhaps the mark of
a chunked end behind them, or else in the file, with a buffer that says so unless it is empty. -/
inductive Delivered (r : Request) (rb : RequestBody) (body : Bytes) : Prop where
  /-- The body is in memory. -/
  | inMemory (bufs : List Buf) (marks : rb.bufs = bufs ∨ rb.bufs = bufs ++ [Buf.endMark])
      (data : ∀ b ∈ bufs, b.inFile = false ∧ b.bytes ≠ [])
      (content : bufs.flatMap Buf.bytes = body) (memory : r.requestBodyInFileOnly = false)
  /-- The body is in a file. -/
  | inFile (isSome : rb.tempFile.isSome = true)
      (bufs : rb.bufs = if body.isEmpty then [] else [Buf.file])

theorem flatMap_chain (a : Arrival) (chunked : Bool) :
    (a.chain chunked).flatMap Buf.bytes = a.bytes := by
  rw [Arrival.chain, List.flatMap_append, flatMap_ofPart]
  split <;> simp [Arrival.bytes, Buf.endMark, Buf.bytes]

/-- The call of the filter that ends the body. -/
theorem Gathered.finish {rb : RequestBody} {seen : Bytes} (h : Gathered rb seen) (r : Request)
    (name : Bytes) {a : Arrival} (ha : ∀ p ∈ a.parts, p.1 ≠ []) (hf : a.final = true) :
    Delivered r (ngxHttpRequestBodySaveFilter r name rb a) (seen ++ a.bytes) := by
  have happend := h.append ha
  simp only [ngxHttpRequestBodySaveFilter, hf, Bool.not_true]
  rw [if_neg (by simp)]
  split
  · -- the rest of the body is written out
    obtain ⟨hbufs, tf, htf, hcontent⟩ :=
      write_content name { rb with bufs := rb.bufs ++ a.chain r.chunked }
    have hbody : tf.content = seen ++ a.bytes := by
      rw [hcontent, List.flatMap_append, flatMap_chain, ← List.append_assoc, h.content]
    rw [htf, Option.any_some, hbody]
    cases hb : (seen ++ a.bytes).isEmpty with
    | true => exact .inFile (by simp [htf]) (by simp [hb, hbufs])
    | false => exact .inFile (by simp) (by simp [hb])
  · -- it stays in memory, and none of it was in a file before
    rename_i hstay
    obtain ⟨htemp, hmem⟩ : rb.tempFile = none ∧ r.requestBodyInFileOnly = false := by
      simpa using hstay
    refine .inMemory (rb.bufs ++ a.parts.map Buf.ofPart) ?_ happend.bufs ?_ hmem
    · simp only [Arrival.chain, hf, Bool.true_and]
      split <;> simp
    · simpa [htemp] using happend.content

/-- **What nginx delivers of a body that is announced.** -/
theorem delivered {r : Request} {arrivals : List Arrival} (hd : Delivers r arrivals)
    (hb : r.hasBody = true) (name : Bytes) :
    Delivered r (arrivals.foldl (ngxHttpRequestBodySaveFilter r name) .new)
      (bodyBytes arrivals) := by
  obtain ⟨init, last, rfl, hlast, hinit⟩ := hd.final hb
  have hrun := gathered_new.run r name (fun a (ha : a ∈ init) ↦ hd.parts a (by simp [ha])) hinit
  rw [List.foldl_append, List.foldl_cons, List.foldl_nil]
  have := hrun.finish r name (hd.parts last (by simp)) hlast
  simpa [bodyBytes] using this

/-- The request as the callback finds it, when a body is announced and when none is. -/
theorem readBody_eq (r : Request) (name : Bytes) (arrivals : List Arrival) :
    (ngxHttpReadClientRequestBody r name arrivals).requestBody =
      some (if r.hasBody then arrivals.foldl (ngxHttpRequestBodySaveFilter r name) .new
        else .new) := by
  have hb : (r.contentLengthN < 0 && !r.chunked) = !r.hasBody := by
    cases hc : r.chunked <;>
      simp only [Request.hasBody, hc, ← Int.not_lt, decide_not, Bool.not_not, Bool.not_false,
        Bool.not_true, Bool.and_true, Bool.and_false, Bool.or_true, Bool.or_false]
  rw [ngxHttpReadClientRequestBody, hb]
  cases r.hasBody <;> rfl

@[simp] theorem readBody_fileOnly (r : Request) (name : Bytes) (arrivals : List Arrival) :
    (ngxHttpReadClientRequestBody r name arrivals).requestBodyInFileOnly
      = r.requestBodyInFileOnly := by
  rw [ngxHttpReadClientRequestBody]
  split <;> rfl

/-- A first buffer with bytes, or with a file, is not a NULL pointer. -/
theorem assemble_ne_fault {r : Request} {rb : RequestBody} {cl : Buf} {next : List Buf}
    (hrb : r.requestBody = some rb) (hbufs : rb.bufs = cl :: next)
    (h : cl.pos.isSome = true ∨ cl.inFile = true) : assemble r ≠ .fault := by
  have hstart : (gdStart r cl next).isSome = true := by
    rw [gdStart]
    split
    · rename_i hc
      rcases h with h | h
      · simpa using h
      · simp [h] at hc
    · rfl
  obtain ⟨gd, hgd⟩ := Option.isSome_iff_exists.mp hstart
  rw [assemble, hrb]
  simp [hbufs, hgd]

/-- **The pull callback hits a NULL pointer when no byte of the body came.** -/
theorem assemble_isFault {r : Request} {name : Bytes} {arrivals : List Arrival}
    (hd : Delivers r arrivals) :
    (assemble (ngxHttpReadClientRequestBody r name arrivals) = .fault) ↔
      bodyBytes arrivals = [] := by
  have hrb := readBody_eq r name arrivals
  cases hb : r.hasBody with
  | false =>
    rw [hb] at hrb
    rw [assemble, hrb]
    simp [RequestBody.new, hd.none hb, bodyBytes]
  | true =>
    rw [hb, if_pos rfl] at hrb
    rcases delivered hd hb name with ⟨bufs, marks, data, content, -⟩ | ⟨-, hbufs⟩
    · cases bufs with
      | nil =>
        rw [← content, assemble, hrb]
        rcases marks with h | h <;> simp [h, gdStart, Buf.endMark]
      | cons cl next =>
        obtain ⟨-, hbytes⟩ := data cl (by simp)
        have hpos : cl.pos.isSome = true := by
          rw [Buf.bytes] at hbytes
          cases hp : cl.pos with
          | none => simp [hp] at hbytes
          | some _ => rfl
        have hne : bodyBytes arrivals ≠ [] := by
          rw [← content]
          simp [hbytes]
        refine iff_of_false ?_ hne
        rcases marks with h | h
        · exact assemble_ne_fault hrb h (.inl hpos)
        · exact assemble_ne_fault hrb h (.inl hpos)
    · cases hbody : bodyBytes arrivals with
      | nil =>
        rw [assemble, hrb]
        simp [hbufs, hbody]
      | cons =>
        refine iff_of_false ?_ (by simp)
        exact assemble_ne_fault hrb (by simpa [hbody] using hbufs) (.inr rfl)

/-- **The push callback finds a temp file when a body is announced.** -/
theorem tempFile_isSome {r : Request} {name : Bytes} {arrivals : List Arrival}
    (hd : Delivers r arrivals) (hr : r.requestBodyInFileOnly = true) :
    ((ngxHttpReadClientRequestBody r name arrivals).requestBody.bind
      RequestBody.tempFile).isSome = r.hasBody := by
  rw [readBody_eq]
  cases hb : r.hasBody with
  | false => rfl
  | true =>
    rcases delivered hd hb name with ⟨-, -, -, -, hmem⟩ | ⟨hsome, -⟩
    · exact absurd hr (by simp [hmem])
    · simpa using hsome

/-! ## The callbacks -/

theorem handler1_isSome {env : Env} {r : Request} {w : World}
    (hr : r.requestBodyInFileOnly = true) :
    (ngxHttpGraphClientBodyHandler1 env r w).isSome =
      (r.requestBody.bind RequestBody.tempFile).isSome := by
  rw [ngxHttpGraphClientBodyHandler1]
  cases r.requestBody with
  | none => rfl
  | some rb => simp [hr]

/-- Assembled text never makes the pull callback die. -/
theorem handleText_isSome {env : Env} {r : Request} {w : World} {gd : GraphData} (h : gd.Fits) :
    (handleText env r w gd).isSome = true := by
  rw [handleText_eq env r w h]
  split
  · obtain ⟨⟨w', images⟩, hf, -⟩ :=
      fetchAll_eq env (urlsOf (gd.text.drop 7)) [] (w := resetTempFiles w) rfl
    rw [hf]
    cases images <;> rfl
  · rfl

theorem handler2_isSome {env : Env} {r : Request} {w : World} :
    (ngxHttpGraphClientBodyHandler2 env r w).isSome = true ↔ assemble r ≠ .fault := by
  rw [ngxHttpGraphClientBodyHandler2]
  split
  · rename_i ha; simp [ha]
  · rename_i ha; simp [ha]
  · rename_i gd ha; simp [ha, handleText_isSome (assemble_fits ha)]

/-- The request was finalized once more, with an error status. -/
def Refused (w : World) (w' : Option World) : Prop :=
  ∃ v rc, w' = some v ∧ finalizes v.trace = finalizes w.trace ++ [rc] ∧
    ngxHttpSpecialResponse ≤ rc

/-- What is asked of a callback: it does not die, and a request without a body is refused. -/
def CallbackOk (env : Env) (r : Request) (name : Bytes) (arrivals : List Arrival) (w : World)
    (h : BodyHandler) : Prop :=
  (h.run env (ngxHttpReadClientRequestBody r name arrivals) w).isSome = true ∧
    (r.hasBody = false → Refused w (h.run env (ngxHttpReadClientRequestBody r name arrivals) w))

/-- The bodies a callback can be called on. -/
def BodyThere (r : Request) (arrivals : List Arrival) : BodyHandler → Prop
  | .handler1 => r.hasBody = true
  | .handler2 => bodyBytes arrivals ≠ []

/-- **A push is safe exactly when a body is announced, a pull exactly when a byte of it comes.** -/
theorem callback_ok_iff {value : Slice} {r r' : Request} {h : BodyHandler} {name : Bytes}
    {arrivals : List Arrival} (env : Env) (w : World)
    (hdispatch : ngxHttpGraphHandler value r = .read r' h) (hd : Delivers r' arrivals) :
    CallbackOk env r' name arrivals w h ↔ BodyThere r' arrivals h := by
  -- with a body announced there is nothing to refuse, and without one both callbacks die
  have key : (h.run env (ngxHttpReadClientRequestBody r' name arrivals) w).isSome = true ↔
      BodyThere r' arrivals h := by
    obtain ⟨-, ⟨rfl, rfl⟩ | ⟨rfl, rfl⟩⟩ := read_of_handler hdispatch
    · rw [BodyHandler.run, handler2_isSome, ne_eq, assemble_isFault hd, BodyThere]
    · rw [BodyHandler.run, handler1_isSome (by simp [Request.forPush]),
        tempFile_isSome hd (by simp [Request.forPush]), BodyThere]
  have hannounced : BodyThere r' arrivals h → r'.hasBody = true := by
    intro hthere
    cases h with
    | handler1 => exact hthere
    | handler2 =>
      by_contra hno
      exact hthere (by rw [hd.none (by simpa using hno)]; rfl)
  refine ⟨fun hok ↦ key.mp hok.1, fun hthere ↦ ⟨key.mpr hthere, fun hno ↦ ?_⟩⟩
  exact absurd (hannounced hthere) (by simp [hno])

/-- A `GET` for a pull, with no body. -/
def getPull : Request :=
  { args := lit "src=pull&plugin=face", argsTail := lit " HTTP/1.1", contentLengthN := -1,
    chunked := false, headerOnly := false, requestBody := none, requestBodyInFileOnly := false,
    requestBodyInPersistentFile := false, requestBodyInSingleBuf := false }

/-- A `POST` that pushes three bytes. -/
def postPush : Request :=
  { getPull with args := lit "src=push&plugin=face", contentLengthN := 3 }

theorem callback_ok_postPush :
    CallbackOk .smooth postPush.forPush (lit "0001") [⟨[(lit "GIF", [])], true, false⟩] .fresh
      .handler1 :=
  (callback_ok_iff .smooth .fresh
    (show ngxHttpGraphHandler ⟨[], 0⟩ postPush = .read postPush.forPush .handler1 by decide)
    ⟨by decide, fun _ ↦ ⟨[], _, rfl, rfl, by decide⟩, fun _ _ ↦ rfl, by decide⟩).mpr rfl

/-- The `GET` gets through, and the callback dies. -/
theorem callback_not_ok_getPull :
    ngxHttpGraphHandler ⟨[], 0⟩ getPull = .read getPull.forPull .handler2 ∧
      Delivers getPull.forPull [] ∧
      ngxHttpGraphClientBodyHandler2 .smooth
        (ngxHttpReadClientRequestBody getPull.forPull (lit "0001") []) .fresh = none ∧
      ¬CallbackOk .smooth getPull.forPull (lit "0001") [] .fresh .handler2 := by
  have hdies : ngxHttpGraphClientBodyHandler2 .smooth
      (ngxHttpReadClientRequestBody getPull.forPull (lit "0001") []) .fresh = none := rfl
  refine ⟨by decide, ⟨by simp, fun h ↦ absurd h (by decide), fun _ _ ↦ ?_, fun _ ↦ rfl⟩, hdies,
    fun hok ↦ ?_⟩
  · rename_i h
    exact absurd h (by decide)
  · have := hok.1
    rw [BodyHandler.run, hdies] at this
    exact absurd this (by simp)

end ImgPredictor
