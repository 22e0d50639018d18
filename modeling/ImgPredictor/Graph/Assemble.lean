import ImgPredictor.Lib.Lists
import ImgPredictor.Graph.Nginx

/-!
# Assembling the body of a pull request

The first half of `ngx_http_graph_client_body_handler2` turns the chain of buffers nginx left in
`r->request_body` into one text, `gd`.  A single buffer in memory is used where it stands; for any
other chain a block of `content_length_n + 1` bytes is allocated.  Then one loop over the chain
appends the buffers flagged `memory`, whichever way was taken.

The two tests do not fit together.  A single `memory` buffer is used in place *and* appended, so
its bytes come twice; and in a longer chain the buffers that are only `temporary`, which are the
ones nginx makes for a request body, are passed over.  `assembledText_eq_iff` says for which
chains nothing goes wrong.
-/

set_option autoImplicit false

namespace ImgPredictor

open Bytes

/-- `gd`, with the block of memory `gd->data` points into. -/
structure GraphData where
  /-- The bytes from `gd->data` on. -/
  mem : Bytes
  /-- How many bytes the block has from `gd->data` on. -/
  cap : ℕ
  /-- `gd->len` -/
  len : ℕ

/-- The text `gd->data[0 .. gd->len)`. -/
def GraphData.text (gd : GraphData) : Bytes := gd.mem.take gd.len

/-- `ngx_http_graph_data_append`.  The function also clamps a length to `content_length_n`, but
copies, and adds to `gd->len`, the unclamped one. -/
def ngxHttpGraphDataAppend (gd : GraphData) (bf : Buf) : GraphData :=
  { gd with mem := blit gd.mem gd.len bf.bytes, len := gd.len + bf.bytes.length }

/-- What `gd` starts from: the only buffer of the chain, or a new block.  `none` is a NULL
`gd->data`, which the terminator is written through before anything else is done. -/
def gdStart (r : Request) (cl : Buf) (next : List Buf) : Option GraphData :=
  if next.isEmpty && !cl.inFile then
    cl.pos.map fun text ↦ ⟨text ++ cl.room, (text ++ cl.room).length, text.length⟩
  else
    let size := (r.contentLengthN + 1).toNat
    some ⟨List.replicate size 0, size, 0⟩

/-- `for(; cl; cl=cl->next)` -/
def appendChain (gd : GraphData) (chain : List Buf) : GraphData :=
  chain.foldl (fun gd cl ↦ if cl.memory then ngxHttpGraphDataAppend gd cl else gd) gd

/-- How the assembling of the body ends. -/
inductive Assembly where
  /-- `rb == NULL`: the request is finalized. -/
  | noBody
  /-- A NULL pointer is dereferenced. -/
  | fault
  /-- The text is there. -/
  | text (gd : GraphData)

/-- The assembling of the body. -/
def assemble (r : Request) : Assembly :=
  match r.requestBody with
  | none => .noBody
  | some rb => match rb.bufs with
    | [] => .fault
    | cl :: next => match gdStart r cl next with
      | none => .fault
      | some gd => .text (appendChain gd (cl :: next))

/-- The assembled text, when there is one. -/
def assembledText (r : Request) : Option Bytes :=
  match assemble r with
  | .text gd => some gd.text
  | _ => none

/-! ## What an append does -/

/-- The text lies inside the memory known to be there. -/
def GraphData.Fits (gd : GraphData) : Prop := gd.len ≤ gd.mem.length

theorem dataAppend_fits {gd : GraphData} (bf : Buf) :
    (ngxHttpGraphDataAppend gd bf).Fits := by
  simp only [GraphData.Fits, ngxHttpGraphDataAppend, length_blit]
  omega

theorem dataAppend_text {gd : GraphData} (h : gd.Fits) (bf : Buf) :
    (ngxHttpGraphDataAppend gd bf).text = gd.text ++ bf.bytes := by
  rw [GraphData.text, ngxHttpGraphDataAppend, take_blit _ h]
  rfl

/-- **The loop appends the buffers flagged `memory`, in order, and those alone.** -/
theorem appendChain_text {gd : GraphData} (h : gd.Fits) (chain : List Buf) :
    (appendChain gd chain).text = gd.text ++ (chain.filter Buf.memory).flatMap Buf.bytes := by
  induction chain generalizing gd with
  | nil => simp [appendChain]
  | cons cl chain ih =>
    rw [appendChain, List.foldl_cons]
    split
    · rename_i hm
      rw [← appendChain, ih (dataAppend_fits cl), dataAppend_text h, List.filter_cons_of_pos hm]
      simp
    · rename_i hm
      rw [← appendChain, ih h, List.filter_cons_of_neg hm]

theorem appendChain_fits {gd : GraphData} (h : gd.Fits) (chain : List Buf) :
    (appendChain gd chain).Fits := by
  induction chain generalizing gd with
  | nil => exact h
  | cons cl chain ih =>
    rw [appendChain, List.foldl_cons, ← appendChain]
    split
    · exact ih (dataAppend_fits cl)
    · exact ih h

theorem gdStart_fits {r : Request} {cl : Buf} {next : List Buf} {gd : GraphData}
    (h : gdStart r cl next = some gd) : gd.Fits := by
  rw [gdStart] at h
  split at h
  · obtain ⟨text, -, rfl⟩ := Option.map_eq_some_iff.mp h
    simp [GraphData.Fits]
  · obtain rfl := Option.some.inj h
    exact Nat.zero_le _

/-- The text lies inside the memory whenever there is one. -/
theorem assemble_fits {r : Request} {gd : GraphData} (h : assemble r = .text gd) : gd.Fits := by
  rw [assemble] at h
  split at h
  · exact absurd h (by simp)
  · split at h
    · exact absurd h (by simp)
    · split at h
      · exact absurd h (by simp)
      · rename_i hs
        obtain rfl := Assembly.text.inj h
        exact appendChain_fits (gdStart_fits hs) _

/-! ## Which chains are assembled faithfully -/

/-- The request's body is the chain `bufs`: in memory, each buffer flagged one way or the other,
of the announced length in all. -/
structure InMemoryBody (r : Request) (bufs : List Buf) : Prop where
  /-- It is the body. -/
  body : r.requestBody.map RequestBody.bufs = some bufs
  /-- There is a buffer. -/
  nonempty : bufs ≠ []
  /-- All of it is in memory. -/
  inMemory : ∀ b ∈ bufs, b.pos.isSome = true ∧ b.inFile = false
  /-- Each buffer is flagged. -/
  flagged : ∀ b ∈ bufs, b.temporary = true ∨ b.memory = true
  /-- The lengths add up. -/
  length : ((bufs.flatMap Buf.bytes).length : ℤ) = r.contentLengthN

/-- The chains that come out right: a single buffer that is not flagged `memory`, or several that
are; buffers without bytes do not matter. -/
def KeepsEveryByte : List Buf → Prop
  | [b] => b.memory = true → b.bytes = []
  | bufs => ∀ b ∈ bufs, b.memory = false → b.bytes = []

theorem assembledText_single {r : Request} {b : Buf} (h : InMemoryBody r [b]) :
    assembledText r = some (if b.memory then b.bytes ++ b.bytes else b.bytes) := by
  obtain ⟨rb, hrb, hbufs⟩ := Option.map_eq_some_iff.mp h.body
  obtain ⟨hpos, hfile⟩ := h.inMemory b (by simp)
  obtain ⟨text, htext⟩ := Option.isSome_iff_exists.mp hpos
  have hb : b.bytes = text := by simp [Buf.bytes, htext]
  have hstart : gdStart r b [] = some ⟨text ++ b.room, (text ++ b.room).length, text.length⟩ := by
    simp [gdStart, hfile, htext]
  rw [assembledText, assemble, hrb]
  simp only [hbufs, hstart]
  rw [appendChain_text (gdStart_fits hstart)]
  have h0 : GraphData.text ⟨text ++ b.room, (text ++ b.room).length, text.length⟩ = text := by
    simp [GraphData.text]
  rw [h0]
  cases hm : b.memory <;> simp [hm, hb]

theorem assembledText_several {r : Request} {bufs : List Buf} (h : InMemoryBody r bufs)
    (hlen : bufs.length ≠ 1) :
    assembledText r = some ((bufs.filter Buf.memory).flatMap Buf.bytes) := by
  obtain ⟨rb, hrb, hbufs⟩ := Option.map_eq_some_iff.mp h.body
  match bufs, h.nonempty, hlen with
  | cl :: next, _, hlen =>
    have hnext : next.isEmpty = false := by
      cases next with
      | nil => exact absurd rfl hlen
      | cons => rfl
    have hstart : gdStart r cl next = some ⟨List.replicate (r.contentLengthN + 1).toNat 0,
        (r.contentLengthN + 1).toNat, 0⟩ := by
      simp [gdStart, hnext]
    rw [assembledText, assemble, hrb]
    simp only [hbufs, hstart]
    rw [appendChain_text (gdStart_fits hstart)]
    simp [GraphData.text]

/-- **Exactly these chains are assembled into the bytes they hold.** -/
theorem assembledText_eq_iff {r : Request} {bufs : List Buf} (h : InMemoryBody r bufs) :
    assembledText r = some (bufs.flatMap Buf.bytes) ↔ KeepsEveryByte bufs := by
  match bufs, h with
  | [], h => exact absurd rfl h.nonempty
  | [b], h =>
    rw [assembledText_single h, KeepsEveryByte]
    cases hm : b.memory <;> simp
  | b :: c :: next, h =>
    rw [assembledText_several h (by simp), Option.some_inj, Lists.flatMap_filter_eq_iff]
    rfl

end ImgPredictor
