import ImgPredictor.Graph.Assemble

/-!
# The clamp of an append

`ngx_http_graph_data_append` works out how much of a buffer fits the announced length, and then
copies the whole buffer: the length it has worked out, `bf_len`, is not the one it copies by,
`cp_len`.  The block it copies into has `content_length_n + 1` bytes.

`clampedLength_eq` says that the length worked out is the right one, and `clamped_iff` for which
buffers it is not missed.
-/

set_option autoImplicit false

namespace ImgPredictor

open Bytes

/-- `bf_len` once it is clamped. -/
def clampedLength (contentLengthN : ℤ) (gd : GraphData) (bf : Buf) : ℤ :=
  let bfLen : ℤ := bf.bytes.length
  if asInt (bfLen + gd.len) > contentLengthN then contentLengthN - gd.len else bfLen

/-- **The clamp is right**: what it lets through is what fits, as long as the lengths fit an
`int`. -/
theorem clampedLength_eq {contentLengthN : ℤ} {gd : GraphData} {bf : Buf}
    (hint : bf.bytes.length + gd.len < 2 ^ 31) :
    gd.len + clampedLength contentLengthN gd bf
      = min contentLengthN (gd.len + bf.bytes.length) := by
  have hlen := asInt_of_lt hint
  rw [Int.natCast_add] at hlen
  simp only [clampedLength, hlen]
  split <;> omega

/-! ## Several appends -/

/-- The block of `content_length_n + 1` bytes, with nothing in it yet. -/
def GraphData.block (contentLengthN : ℕ) : GraphData :=
  ⟨List.replicate (contentLengthN + 1) 0, contentLengthN + 1, 0⟩

/-- The buffers are appended one after the other. -/
def appendAll (gd : GraphData) (bufs : List Buf) : GraphData :=
  bufs.foldl ngxHttpGraphDataAppend gd

/-- It is the block a body in several buffers is assembled in. -/
theorem gdStart_eq_block {r : Request} {n : ℕ} (hn : r.contentLengthN = n) (cl : Buf)
    {next : List Buf} (hnext : next ≠ []) : gdStart r cl next = some (.block n) := by
  have hempty : next.isEmpty = false := by simpa using hnext
  rw [gdStart, hempty, hn]
  rfl

theorem appendChain_eq_appendAll (gd : GraphData) (chain : List Buf) :
    appendChain gd chain = appendAll gd (chain.filter Buf.memory) := by
  rw [appendChain, appendAll, List.foldl_filter]

theorem appendAll_fits {gd : GraphData} (h : gd.Fits) (bufs : List Buf) :
    (appendAll gd bufs).Fits := by
  induction bufs generalizing gd with
  | nil => exact h
  | cons bf bufs ih => exact ih (dataAppend_fits bf)

/-- **All of every buffer is appended.** -/
theorem appendAll_text {gd : GraphData} (h : gd.Fits) (bufs : List Buf) :
    (appendAll gd bufs).text = gd.text ++ bufs.flatMap Buf.bytes ∧
      (appendAll gd bufs).len = gd.len + (bufs.flatMap Buf.bytes).length := by
  induction bufs generalizing gd with
  | nil => simp [appendAll]
  | cons bf bufs ih =>
    obtain ⟨htext, hlen⟩ := ih (dataAppend_fits bf)
    rw [appendAll, List.foldl_cons, ← appendAll, htext, hlen, dataAppend_text h]
    refine ⟨by simp, ?_⟩
    simp only [ngxHttpGraphDataAppend, List.flatMap_cons, List.length_append]
    omega

/-- However many buffers are appended, the text is no longer than announced; and it is as much of
the buffers as that allows. -/
structure Clamped (contentLengthN : ℕ) (bufs : List Buf) : Prop where
  /-- After each of the appends. -/
  len : ∀ k, (appendAll (.block contentLengthN) (bufs.take k)).len ≤ contentLengthN
  /-- At the end. -/
  text : (appendAll (.block contentLengthN) bufs).text = (bufs.flatMap Buf.bytes).take
    (min contentLengthN (bufs.flatMap Buf.bytes).length)

/-- **Exactly the buffers that need no clamping are clamped.** -/
theorem clamped_iff (contentLengthN : ℕ) (bufs : List Buf) :
    Clamped contentLengthN bufs ↔ (bufs.flatMap Buf.bytes).length ≤ contentLengthN := by
  have hfits : (GraphData.block contentLengthN).Fits := Nat.zero_le _
  have hlen (bufs : List Buf) : (appendAll (.block contentLengthN) bufs).len
      = (bufs.flatMap Buf.bytes).length := by
    rw [(appendAll_text hfits bufs).2]
    exact Nat.zero_add _
  constructor
  · intro h
    have hall := h.len bufs.length
    rwa [List.take_length, hlen] at hall
  · intro hle
    refine ⟨fun k ↦ ?_, ?_⟩
    · have hsplit := congrArg (fun l ↦ (l.flatMap Buf.bytes).length) (bufs.take_append_drop k)
      simp only [List.flatMap_append, List.length_append] at hsplit
      rw [hlen]
      omega
    · rw [(appendAll_text hfits bufs).1, Nat.min_eq_right hle, List.take_length]
      rfl

/-- A buffer of four bytes. -/
def fourBytes : Buf := { pos := some (lit "abcd"), memory := true }

/-- **Four bytes where one was announced**: all of them are copied, past the end of the block. -/
theorem not_clamped :
    (appendAll (.block 1) [fourBytes]).len = 4 ∧
      (appendAll (.block 1) [fourBytes]).cap < (appendAll (.block 1) [fourBytes]).mem.length ∧
      ¬ Clamped 1 [fourBytes] := by
  have hlen : (appendAll (.block 1) [fourBytes]).len = 4 := by decide
  refine ⟨hlen, by decide, fun h ↦ ?_⟩
  have hle := h.len 1
  rw [List.take_succ_cons, List.take_zero, hlen] at hle
  exact absurd hle (by decide)

end ImgPredictor
