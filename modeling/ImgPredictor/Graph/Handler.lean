import ImgPredictor.Graph.Nginx

/-!
# `ngx_http_graph_handler`

Looks at the content length and at the `src` argument, sets the flags that tell nginx where to put
the body, and has it read.

`value` is a local variable that is only assigned when the query string is not empty.  What it held
before is an argument here: a pointer, the bytes that can be read from it on, and a length.  The
comparison with `pull` and `push` looks at four bytes of memory from `value.data` on, and not at
`value.len`; where those bytes cannot be read, the process dies of it, which is an outcome of its
own.

Two of the three refusals are logged.
-/

set_option autoImplicit false

namespace ImgPredictor

open Bytes

/-- The callback handed to `ngx_http_read_client_request_body`. -/
inductive BodyHandler where
  /-- `ngx_http_graph_client_body_handler1`, for `push` -/
  | handler1
  /-- `ngx_http_graph_client_body_handler2`, for `pull` -/
  | handler2
  deriving DecidableEq, Repr

/-- What the handler does. -/
inductive Dispatch where
  /-- `return rc`, after `ngx_log_error` with these messages -/
  | refuse (rc : ℤ) (logged : List Bytes)
  /-- `ngx_http_read_client_request_body(r, handler)` -/
  | read (r : Request) (handler : BodyHandler)
  /-- A read through a pointer that does not carry that far. -/
  | fault
  deriving DecidableEq, Repr

/-- What the handler writes to the error log. -/
def Dispatch.logged : Dispatch → List Bytes
  | .refuse _ logged => logged
  | .read _ _ | .fault => []

/-- The request with the flags set for a pull. -/
def Request.forPull (r : Request) : Request :=
  { r with requestBodyInFileOnly := false, requestBodyInPersistentFile := false,
           requestBodyInSingleBuf := true }

/-- The request with the flags set for a push. -/
def Request.forPush (r : Request) : Request :=
  { r with requestBodyInFileOnly := true, requestBodyInPersistentFile := true,
           requestBodyInSingleBuf := false }

/-- The `src` value the comparisons look at; `none` when the handler refuses for want of one. -/
def srcValue (value : Slice) (r : Request) : Option Slice :=
  if r.args.isEmpty then some value else ngxHttpArg r (lit "src")

/-- `ngx_http_graph_handler`, up to the reading of the body. -/
def ngxHttpGraphHandler (value : Slice) (r : Request) : Dispatch :=
  if r.contentLengthN == 0 then .refuse ngxHttpBadRequest [lit "missing graph body"]
  else match srcValue value r with
    | none => .refuse ngxHttpBadRequest [lit "missing src=pull/push arg"]
    | some value =>
      match readStrneq 4 value.data (lit "pull") with
      | none => .fault
      | some true => .read r.forPull .handler2
      | some false =>
        match readStrneq 4 value.data (lit "push") with
        | none => .fault
        | some true => .read r.forPush .handler1
        | some false => .refuse ngxHttpBadRequest []

/-- What the handler returns when reading the body returned `rc`. -/
def ngxHttpGraphHandlerReturn (rc : ℤ) : ℤ := if ngxHttpSpecialResponse ≤ rc then rc else ngxDone

/-- **What a dispatch tells.**  The length is not zero, and the flags go with the callback. -/
theorem read_of_handler {value : Slice} {r r' : Request} {h : BodyHandler}
    (hd : ngxHttpGraphHandler value r = .read r' h) :
    r.contentLengthN ≠ 0 ∧
      (h = .handler2 ∧ r' = r.forPull ∨ h = .handler1 ∧ r' = r.forPush) := by
  rw [ngxHttpGraphHandler] at hd
  split at hd
  · exact absurd hd (by simp)
  · rename_i hlen
    refine ⟨by simpa using hlen, ?_⟩
    split at hd
    · exact absurd hd (by simp)
    · split at hd
      · exact absurd hd (by simp)
      · obtain ⟨rfl, rfl⟩ := Dispatch.read.inj hd; exact .inl ⟨rfl, rfl⟩
      · split at hd
        · exact absurd hd (by simp)
        · obtain ⟨rfl, rfl⟩ := Dispatch.read.inj hd; exact .inr ⟨rfl, rfl⟩
        · exact absurd hd (by simp)

end ImgPredictor
