import ImgPredictor.Graph.Nginx
import ImgPredictor.PluginSlot.Process

/-!
# The location's configuration, and what a request does to the world

`LocConf` is shared by all the requests of a location and is written while they run.  A `World` is
one together with the trace of what the module has called so far; the callbacks of the module are
functions from worlds to worlds, over an `Env` that says how everything the module calls turns
out.

* The trace has what can be seen from outside: the calls of `ngx_http_finalize_request`, of curl, of
  the plugins, of the output filter, and the messages given to `ngx_log_error` at the level `ERR`.
  What nginx makes of a message, and the line of the level `DEBUG` that a body in a file causes, are
  left out.
* An `Env` fixes the outcomes in advance, numbered by temp file where there can be several, so that
  a result *for every environment* is one about every way the calls can turn out.  A plugin is a
  function from what it is called with to a code and an answer.
* Allocations fail only where the module looks at the result.  The small ones it does not look at,
  and `ngx_http_get_module_loc_conf`, which cannot fail, succeed.
* The configuration of a location has the fields that are read; `max_body_len` is not, since the
  check of it is commented out.
-/

set_option autoImplicit false

namespace ImgPredictor

open Bytes

/-- `ngx_http_graph_loc_conf_t` -/
structure LocConf where
  /-- `type`, the plugin name last looked up. -/
  type : Bytes
  /-- `ext`, the extension parameter last looked up. -/
  ext : Bytes
  /-- The bytes of `out_cl.buf`. -/
  outCl : Option Bytes
  /-- `temp_file_vec` -/
  tempFileVec : List TempFile
  /-- `temp_file_cur_idx` -/
  tempFileCurIdx : ℕ
  /-- `plugin_slot` -/
  pluginSlot : PluginSlot PluginInfo

/-- One thing the module did. -/
inductive Event where
  /-- `ngx_http_finalize_request(r, rc)` -/
  | finalize (rc : ℤ)
  /-- `ngx_http_graph_curl_get(r, url)` -/
  | curlGet (url : Bytes)
  /-- The curl write callback got a chunk; did the write to the temp file succeed? -/
  | chunk (data : Bytes) (written : Bool)
  /-- `run_process_by_name(plugin_name, image_name_vec, ext_para, res_json)` -/
  | runProcess (pluginName : Bytes) (images : ImageList) (extPara : Bytes)
  /-- A process handler was called, with its variadic argument if it got one. -/
  | process (handler : Sym) (images : ImageList) (ext : Option Bytes)
  /-- `run_process_by_name` returned `rc` and left `resJson` in `res_json`. -/
  | returned (rc : ℤ) (resJson : Bytes)
  /-- `ngx_log_error(NGX_LOG_ERR, …)` with this message -/
  | logError (message : Bytes)
  /-- The response body was handed to the output filter. -/
  | output (body : Bytes)
  /-- `ngx_http_graph_client_send` returned `rc`. -/
  | clientSend (rc : ℤ)
  deriving DecidableEq, Repr

/-- A chunk curl delivers, and whether `ngx_write_chain_to_temp_file` manages to write it. -/
structure Chunk where
  /-- The bytes. -/
  data : Bytes
  /-- The outcome of the write: the byte count, or `NGX_ERROR`. -/
  written : Bool
  deriving DecidableEq, Repr

/-- A `curl_easy_perform`: the chunks it delivers and whether it ends in `CURLE_OK`. -/
structure Transfer where
  /-- The chunks, in order. -/
  chunks : List Chunk
  /-- `r == CURLE_OK` -/
  ok : Bool
  deriving DecidableEq, Repr

/-- How `ngx_http_graph_create_temp_file` turns out. -/
inductive TempFileOutcome where
  /-- It fails before the new file is pushed on the vector. -/
  | unallocated
  /-- The file is pushed, but `ngx_create_temp_file` fails. -/
  | failed
  /-- The file is created under this name. -/
  | created (name : Bytes)
  deriving DecidableEq, Repr

/-- How everything the module calls for one request turns out. -/
structure Env where
  /-- The creation of the `k`-th temp file. -/
  tempFile : ℕ → TempFileOutcome
  /-- The transfer of the `k`-th URL; `none` when curl cannot be initialised. -/
  curl : ℕ → Bytes → Option Transfer
  /-- The process handlers of the plugins. -/
  handlers : ProcessHandlers
  /-- What the uninitialised `ii` of `url_decode` holds. -/
  ii₀ : ℤ
  /-- Whether the response buffer of the body handler can be allocated. -/
  responseBuf : Bool
  /-- Whether the buffer `ngx_http_graph_client_send` allocates can be. -/
  sendBuf : Bool
  /-- `ngx_http_send_header(r)` -/
  sendHeader : ℤ
  /-- `ngx_http_output_filter(r, &glcf->out_cl)` -/
  outputFilter : ℤ

/-- Everything succeeds: the files are created, the URLs are empty, and the plugins answer `{}`. -/
def Env.smooth : Env where
  tempFile _ := .created (lit "0001")
  curl _ _ := some ⟨[], true⟩
  handlers _ _ _ _ := (0, lit "\x7b\x7d")
  ii₀ := 0
  responseBuf := true
  sendBuf := true
  sendHeader := ngxOk
  outputFilter := ngxOk

/-- The location's configuration, and what has been done so far. -/
structure World where
  /-- The configuration. -/
  glcf : LocConf
  /-- What was done, oldest first. -/
  trace : List Event

namespace World

/-- Record an event. -/
def emit (w : World) (e : Event) : World := { w with trace := w.trace ++ [e] }

/-- Record several events. -/
def emits (w : World) (es : List Event) : World := { w with trace := w.trace ++ es }

/-- `ngx_log_error(NGX_LOG_ERR, …)` -/
def logError (w : World) (message : Bytes) : World := w.emit (.logError message)

/-- `ngx_http_finalize_request(r, rc)` -/
def finalize (w : World) (rc : ℤ) : World := w.emit (.finalize rc)

/-- A location no request has run in yet, with no plugin loaded. -/
def fresh : World := ⟨⟨[], [], none, [], 0, .empty⟩, []⟩

@[simp] theorem emit_glcf (w : World) (e : Event) : (w.emit e).glcf = w.glcf := rfl
@[simp] theorem emit_trace (w : World) (e : Event) : (w.emit e).trace = w.trace ++ [e] := rfl
@[simp] theorem logError_glcf (w : World) (message : Bytes) :
    (w.logError message).glcf = w.glcf := rfl
@[simp] theorem logError_trace (w : World) (message : Bytes) :
    (w.logError message).trace = w.trace ++ [.logError message] := rfl
@[simp] theorem finalize_glcf (w : World) (rc : ℤ) : (w.finalize rc).glcf = w.glcf := rfl
@[simp] theorem finalize_trace (w : World) (rc : ℤ) :
    (w.finalize rc).trace = w.trace ++ [.finalize rc] := rfl

end World

/-- The return codes of the `ngx_http_finalize_request` calls in a trace. -/
def finalizes (trace : List Event) : List ℤ :=
  trace.filterMap fun
    | .finalize rc => some rc
    | _ => none

@[simp] theorem finalizes_append (s t : List Event) :
    finalizes (s ++ t) = finalizes s ++ finalizes t :=
  List.filterMap_append

end ImgPredictor
