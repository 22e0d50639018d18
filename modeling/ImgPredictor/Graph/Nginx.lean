import Mathlib.Data.Int.Notation
import ImgPredictor.Lib.Bytes

/-!
# What the module uses of nginx

The structures of nginx that the module reads and writes, with the fields it reads and writes, and
`ngx_http_arg`.

A buffer is presented by its bytes: those between `pos` and `last`, and those between `last` and
`end`, which belong to the buffer and are free to overwrite.  `pos = none` is a NULL `pos`, which
nginx leaves in the buffers it zeroes to mark the end of a chunked body or to point into a file.
-/

set_option autoImplicit false

namespace ImgPredictor

open Bytes

/-! ## Codes -/

/-- `NGX_OK` -/
def ngxOk : ℤ := 0
/-- `NGX_ERROR` -/
def ngxError : ℤ := -1
/-- `NGX_DONE` -/
def ngxDone : ℤ := -4
/-- `NGX_HTTP_SPECIAL_RESPONSE` -/
def ngxHttpSpecialResponse : ℤ := 300
/-- `NGX_HTTP_BAD_REQUEST` -/
def ngxHttpBadRequest : ℤ := 400
/-- `NGX_HTTP_INTERNAL_SERVER_ERROR` -/
def ngxHttpInternalServerError : ℤ := 500

/-! ## Buffers, files and requests -/

/-- `ngx_buf_t` -/
structure Buf where
  /-- The bytes from `pos` to `last`; `none` is a NULL `pos`. -/
  pos : Option Bytes
  /-- The bytes from `last` to `end`. -/
  room : Bytes := []
  /-- `temporary` -/
  temporary : Bool := false
  /-- `memory` -/
  memory : Bool := false
  /-- `in_file` -/
  inFile : Bool := false
  deriving DecidableEq, Repr

/-- The bytes of a buffer. -/
def Buf.bytes (b : Buf) : Bytes := b.pos.getD []

/-- `ngx_temp_file_t`: its name, what has been written to it, and the offset of the next write. -/
structure TempFile where
  /-- `file.name` -/
  name : Bytes
  /-- The content of the file. -/
  content : Bytes
  /-- `offset` -/
  offset : ℤ
  deriving DecidableEq, Repr

/-- `ngx_http_request_body_t` -/
structure RequestBody where
  /-- `bufs`, with `[]` for a NULL chain. -/
  bufs : List Buf
  /-- `temp_file` -/
  tempFile : Option TempFile
  deriving DecidableEq, Repr

/-- The body of a request before anything of it has been read. -/
def RequestBody.new : RequestBody := ⟨[], none⟩

/-- `ngx_http_request_t` -/
structure Request where
  /-- `args`, the query string. -/
  args : Bytes
  /-- The bytes in memory after the query string. -/
  argsTail : Bytes
  /-- `headers_in.content_length_n`, `-1` when the header is absent. -/
  contentLengthN : ℤ
  /-- `headers_in.chunked` -/
  chunked : Bool
  /-- `header_only` -/
  headerOnly : Bool
  /-- `request_body` -/
  requestBody : Option RequestBody
  /-- `request_body_in_file_only` -/
  requestBodyInFileOnly : Bool
  /-- `request_body_in_persistent_file` -/
  requestBodyInPersistentFile : Bool
  /-- `request_body_in_single_buf` -/
  requestBodyInSingleBuf : Bool
  deriving DecidableEq, Repr

/-! ## `ngx_http_arg` -/

/-- An `ngx_str_t` that points into a longer text: the memory from `data` on, and `len`. -/
structure Slice where
  /-- The bytes in memory from `data` on, as far as they can be read.  `[]` is a pointer that cannot
  be read through. -/
  data : Bytes
  /-- `len` -/
  len : ℕ
  deriving DecidableEq, Repr

/-- The bytes of a slice. -/
def Slice.toBytes (v : Slice) : Bytes := v.data.take v.len

/-- Does the text start with `name=`, the name in either case? -/
def startsArg (name s : Bytes) : Bool :=
  (s.take name.length).map toLower == name && (s.drop name.length).head? == some 61

/-- What follows `name=` at the first place where that starts an argument.  `start` says whether
the text is at the start of one. -/
def argFrom (name : Bytes) : Bool → Bytes → Option Bytes
  | _, [] => none
  | start, x :: s =>
    if start && startsArg name (x :: s) then some ((x :: s).drop (name.length + 1))
    else argFrom name (x == 38) s

/-- `ngx_http_arg`: the value of the first argument of that name, up to a `&` or the end. -/
def ngxHttpArg (r : Request) (name : Bytes) : Option Slice :=
  (argFrom name true r.args).map fun v ↦ ⟨v ++ r.argsTail, (v.takeWhile (· != 38)).length⟩

/-- The bytes of an argument's value, as the module copies them. -/
def argOf (r : Request) (name : Bytes) : Option Bytes := (ngxHttpArg r name).map Slice.toBytes

/-- The same, read off the query string alone. -/
def argValue (args name : Bytes) : Option Bytes :=
  (argFrom name true args).map fun v ↦ v.takeWhile (· != 38)

theorem argOf_eq (r : Request) (name : Bytes) : argOf r name = argValue r.args name := by
  rw [argOf, ngxHttpArg, argValue, Option.map_map]
  congr 1
  funext v
  simp only [Function.comp, Slice.toBytes]
  rw [List.take_append_of_le_length (List.takeWhile_sublist _).length_le]
  exact (List.prefix_iff_eq_take.mp (List.takeWhile_prefix _)).symm

example : argValue (lit "xsrc=a&SRC=pull&src=push") (lit "src") = some (lit "pull") := by decide

end ImgPredictor
