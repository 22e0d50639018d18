import ImgPredictor.Graph.Nginx

/-!
# How nginx reads a request body

`ngx_http_read_client_request_body` calls the module's callback once the body is there.  What the
callback then finds in `r->request_body` is decided by the save filter, which gathers the buffers
that come in, writes them out to a temp file when its buffer is full or when the body is wanted in
a file, and leaves a buffer that points into the file in place of the ones it wrote.

An `Arrival` is one call of the filter.  The buffers it is given carry `temporary`, never
`memory`, and the end of a chunked body is marked by one more buffer, zeroed but for `last_buf`.
-/

set_option autoImplicit false

namespace ImgPredictor

/-- One call of the save filter. -/
structure Arrival where
  /-- The bytes that came in, buffer by buffer, each with the room that follows it. -/
  parts : List (Bytes × Bytes)
  /-- Is this the end of the body (`rb->rest == 0`)? -/
  final : Bool
  /-- `rb->buf && rb->buf->last == rb->buf->end` -/
  bufFull : Bool

/-- The bytes of an arrival. -/
def Arrival.bytes (a : Arrival) : Bytes := a.parts.flatMap Prod.fst

/-- The bytes of a body. -/
def bodyBytes (arrivals : List Arrival) : Bytes := arrivals.flatMap Arrival.bytes

/-- A buffer of body bytes. -/
def Buf.ofPart (p : Bytes × Bytes) : Buf := { pos := some p.1, room := p.2, temporary := true }

/-- The buffer that marks the end of a chunked body. -/
def Buf.endMark : Buf := { pos := none }

/-- The buffer that stands for a body in a file. -/
def Buf.file : Buf := { pos := none, inFile := true }

/-- The chain the length filter or the chunked filter hands on. -/
def Arrival.chain (a : Arrival) (chunked : Bool) : List Buf :=
  a.parts.map Buf.ofPart ++ if a.final && chunked then [Buf.endMark] else []

/-- `ngx_http_write_request_body`, to the temp file of that name. -/
def ngxHttpWriteRequestBody (name : Bytes) (rb : RequestBody) : RequestBody :=
  let tf := rb.tempFile.getD ⟨name, [], 0⟩
  let bytes := rb.bufs.flatMap Buf.bytes
  ⟨[], some { tf with content := tf.content ++ bytes, offset := tf.offset + bytes.length }⟩

/-- `ngx_http_request_body_save_filter` -/
def ngxHttpRequestBodySaveFilter (r : Request) (name : Bytes) (rb : RequestBody) (a : Arrival) :
    RequestBody :=
  let rb := { rb with bufs := rb.bufs ++ a.chain r.chunked }
  if !a.final then
    if a.bufFull then ngxHttpWriteRequestBody name rb else rb
  else if rb.tempFile.isSome || r.requestBodyInFileOnly then
    let rb := ngxHttpWriteRequestBody name rb
    if rb.tempFile.any fun tf ↦ !tf.content.isEmpty then { rb with bufs := [Buf.file] } else rb
  else rb

/-- `ngx_http_read_client_request_body`: the request as the callback finds it.  With neither a
length nor chunked encoding the callback is called at once; a chunked body leaves its length in
`content_length_n`. -/
def ngxHttpReadClientRequestBody (r : Request) (name : Bytes) (arrivals : List Arrival) : Request :=
  if r.contentLengthN < 0 && !r.chunked then { r with requestBody := some .new }
  else
    { r with
      requestBody := some (arrivals.foldl (ngxHttpRequestBodySaveFilter r name) .new)
      contentLengthN := if r.chunked then (bodyBytes arrivals).length else r.contentLengthN }

/-- Does the request announce a body? -/
def Request.hasBody (r : Request) : Bool := 0 ≤ r.contentLengthN || r.chunked

/-- The arrivals nginx can make of a request: no empty buffers, an end at the end and nowhere
else, the announced length, and none at all when no body is announced. -/
structure Delivers (r : Request) (arrivals : List Arrival) : Prop where
  /-- Every buffer has a byte. -/
  parts : ∀ a ∈ arrivals, ∀ p ∈ a.parts, p.1 ≠ []
  /-- The last arrival, and no other, ends the body. -/
  final : r.hasBody = true → ∃ init last, arrivals = init ++ [last] ∧ last.final = true ∧
    ∀ a ∈ init, a.final = false
  /-- The bytes are as many as announced. -/
  length : r.chunked = false → 0 ≤ r.contentLengthN →
    ((bodyBytes arrivals).length : ℤ) = r.contentLengthN
  /-- Nothing arrives unannounced. -/
  none : r.hasBody = false → arrivals = []

end ImgPredictor
