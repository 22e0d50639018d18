import ImgPredictor.Graph.Assemble
import ImgPredictor.Graph.Handler
import ImgPredictor.Graph.ReadBody
import ImgPredictor.Graph.UrlLoop

/-!
# The body callbacks

`ngx_http_graph_client_body_handler1` serves a push: the body is in a temp file, and its name is
the one image handed to the plugin.  `ngx_http_graph_client_body_handler2` serves a pull: the body
lists URLs, which are downloaded first.  From there on the two run the same code, which is
`runPlugin` here: look the plugin up in the query string, run it, send what it returned.

A callback is `none` when it dies: a NULL pointer is dereferenced, or `at` throws.
-/

set_option autoImplicit false

namespace ImgPredictor

open Bytes

/-! ## Running the plugin and answering -/

/-- `ngx_http_graph_client_send`, and its return code. -/
def ngxHttpGraphClientSend (env : Env) (r : Request) (w : World) : World × ℤ :=
  if !env.sendBuf then
    (w.logError (lit "Failed to allocate response buffer."), ngxHttpInternalServerError)
  else if env.sendHeader = ngxError ∨ env.sendHeader > ngxOk ∨ r.headerOnly = true then
    (w, env.sendHeader)
  else (w.emit (.output (w.glcf.outCl.getD [])), env.outputFilter)

/-- The plugin's name and the extension parameter, as the query string gives them; `none` when
there is a query string without a plugin.  With no query string at all, the name is whatever an
earlier request left. -/
def pluginArgs (r : Request) (glcf : LocConf) : Option (Bytes × Option Bytes) :=
  if r.args.isEmpty then some (glcf.type, none)
  else (argOf r (lit "plugin")).map fun type ↦ (type, argOf r (lit "ext"))

/-- The lookup writes into the location's configuration. -/
def World.lookedUp (w : World) (pluginName : Bytes) (ext : Option Bytes) : World :=
  { w with glcf := { w.glcf with type := pluginName, ext := ext.getD w.glcf.ext } }

/-- The call of `run_process_by_name`. -/
def processOf (env : Env) (glcf : LocConf) (pluginName extPara : Bytes) (images : ImageList) :
    ProcessResult :=
  glcf.pluginSlot.runProcessByName env.handlers env.ii₀ pluginName images extPara []

/-- What the call leaves in the trace. -/
def processEvents (pluginName extPara : Bytes) (images : ImageList) (res : ProcessResult) :
    List Event :=
  .runProcess pluginName images extPara ::
    (match res.invoked with
      | none => []
      | some (handler, ext) => [.process handler images ext]) ++ [.returned res.rc res.resJson]

/-- Sending the result: the response buffer, `client_send`, whose code is not looked at, and the
end of the request. -/
def sendResult (env : Env) (r : Request) (w : World) (resJson : Bytes) : World :=
  let w := w.logError (lit ", res_json:" ++ cstr resJson 0)
  if !env.responseBuf then
    (w.logError (lit "Failed to allocate response buffer.")).finalize ngxHttpInternalServerError
  else
    let w := { w with glcf := { w.glcf with outCl := some resJson } }
    let (w, rc) := ngxHttpGraphClientSend env r w
    (w.emit (.clientSend rc)).finalize ngxOk

/-- What both callbacks do once the images are there. -/
def runPlugin (env : Env) (r : Request) (w : World) (images : ImageList) : World :=
  match pluginArgs r w.glcf with
  | none => w.finalize ngxHttpBadRequest
  | some (pluginName, ext) =>
    let w := w.lookedUp pluginName ext
    let res := processOf env w.glcf pluginName (ext.getD []) images
    let w := w.emits (processEvents pluginName (ext.getD []) images res)
    if res.rc ≠ 0 then
      (w.logError (lit "run_process_by_name failed.Plugin:" ++ cstr pluginName 0)).finalize
        ngxHttpInternalServerError
    else if res.resJson.isEmpty then w.finalize ngxHttpInternalServerError
    else sendResult env r w res.resJson

/-! ## The callbacks -/

/-- `ngx_http_graph_client_body_handler1` -/
def ngxHttpGraphClientBodyHandler1 (env : Env) (r : Request) (w : World) : Option World :=
  match r.requestBody with
  | none => none
  | some rb =>
    if rb.tempFile.isSome || r.requestBodyInFileOnly then
      rb.tempFile.map fun tf ↦ runPlugin env r w [(tf.name, lit "pushed_image")]
    else some (w.finalize ngxHttpInternalServerError)

/-- The temp files of earlier requests are forgotten. -/
def resetTempFiles (w : World) : World :=
  { w with glcf := { w.glcf with tempFileVec := [], tempFileCurIdx := 0 } }

/-- `ngx_http_graph_client_body_handler2` once the text is assembled.  `gd_dbuf_end` points at the
last byte of the text; the prefix makes it at least seven bytes long. -/
def handleText (env : Env) (r : Request) (w : World) (gd : GraphData) : Option World :=
  let mem := poke gd.mem gd.len 0
  if strneq 7 mem (lit "imgurl:") then
    match urlLoop env (gd.len - 1) mem 7 (resetTempFiles w) [] with
    | none => none
    | some (w, none) => some w
    | some (w, some images) => some (runPlugin env r w images)
  else some (w.finalize ngxHttpInternalServerError)

/-- `ngx_http_graph_client_body_handler2` -/
def ngxHttpGraphClientBodyHandler2 (env : Env) (r : Request) (w : World) : Option World :=
  match assemble r with
  | .noBody => some ((w.logError (lit "Had no graph body.")).finalize ngxHttpBadRequest)
  | .fault => none
  | .text gd => handleText env r w gd

/-- The callback a dispatch names. -/
def BodyHandler.run (env : Env) (r : Request) (w : World) : BodyHandler → Option World
  | .handler1 => ngxHttpGraphClientBodyHandler1 env r w
  | .handler2 => ngxHttpGraphClientBodyHandler2 env r w

/-! ## The text of a pull -/

/-- The prefix of a pull body. -/
def imgurl : Bytes := lit "imgurl:"

theorem length_text {gd : GraphData} (h : gd.Fits) : gd.text.length = gd.len := by
  rw [GraphData.text, List.length_take]
  exact min_eq_left h

/-- The block once the text is terminated. -/
theorem poke_len {gd : GraphData} (h : gd.Fits) :
    poke gd.mem gd.len 0 = gd.text ++ 0 :: gd.mem.drop (gd.len + 1) := by
  rw [poke, blit_of_le _ h, GraphData.text]
  simp

/-- The comparison with the prefix does not reach over the terminator. -/
theorem strneq_imgurl_iff {gd : GraphData} (h : gd.Fits) :
    strneq 7 (poke gd.mem gd.len 0) (lit "imgurl:") = true ↔ imgurl <+: gd.text := by
  have hnul : (0 : UInt8) ∉ imgurl := by decide
  have h7 : imgurl.length = 7 := by decide
  have hprefix := strneq_iff_prefix (a := poke gd.mem gd.len 0) hnul
  rw [h7] at hprefix
  refine hprefix.trans ⟨fun hp ↦ ?_, fun hp ↦ poke_len h ▸ hp.trans (List.prefix_append ..)⟩
  by_contra hno
  rw [poke_len h] at hp
  have hlt : gd.text.length < 7 := by
    by_contra hge
    exact hno (List.prefix_of_prefix_length_le hp (List.prefix_append ..) (by omega))
  have hover : gd.text ++ [0] <+: imgurl :=
    List.prefix_of_prefix_length_le ⟨gd.mem.drop (gd.len + 1), by simp⟩ hp (by simp [h7]; omega)
  exact hnul (hover.subset (by simp))

/-- **What a pull does with its text**: without the prefix it is refused, with it the URLs behind
the prefix are downloaded, and the plugin is run on them. -/
theorem handleText_eq (env : Env) (r : Request) (w : World) {gd : GraphData} (h : gd.Fits) :
    handleText env r w gd =
      if imgurl <+: gd.text then
        match fetchAll env (urlsOf (gd.text.drop 7)) (resetTempFiles w) [] with
        | none => none
        | some (w, none) => some w
        | some (w, some images) => some (runPlugin env r w images)
      else some (w.finalize ngxHttpInternalServerError) := by
  have hlen := length_text h
  have h7 : imgurl.length = 7 := by decide
  rw [handleText]
  by_cases hp : imgurl <+: gd.text
  · have hlong : 7 ≤ gd.len := by rw [← hlen, ← h7]; exact hp.length_le
    rw [if_pos ((strneq_imgurl_iff h).mpr hp), if_pos hp,
      urlLoop_eq_fetchAll env (s := gd.text.drop 7) (t := gd.mem.drop (gd.len + 1))]
    · rw [poke_len h, List.drop_append_of_le_length (by omega)]
    · rw [List.length_drop]; omega
  · rw [if_neg (fun hs ↦ hp ((strneq_imgurl_iff h).mp hs)), if_neg hp]

end ImgPredictor
