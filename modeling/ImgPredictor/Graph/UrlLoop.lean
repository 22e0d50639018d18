import Mathlib.Data.List.TakeWhile
import ImgPredictor.Graph.LocConf

/-!
# The URL loop of a pull request

The second half of `ngx_http_graph_client_body_handler2` walks `gd_dbuf` over the text between the
prefix `imgurl:` and `gd_dbuf_end`, the *last* byte of the body.  Each turn makes a temp file,
cuts a URL off at the next `|` by writing a NUL over it, and has curl download it; the chunks curl
delivers go through a callback to the temp file at `temp_file_cur_idx`.

* `urlLoop` is the loop as it stands, over the block of memory.
* `urlsOf` is what the loop takes the text for: the list of URLs, with no memory and no pointers.
* `fetchAll` downloads a list of URLs.

`urlLoop_eq_fetchAll` says that the loop is `fetchAll` of `urlsOf`, so that what the loop does to
the world and what it reads off the text can be looked at apart.
-/

set_option autoImplicit false

namespace ImgPredictor

open Bytes

/-! ## One download -/

/-- The world with a new temp file pushed on the vector. -/
def World.pushFile (w : World) (name : Bytes) : World :=
  { w with glcf := { w.glcf with tempFileVec := w.glcf.tempFileVec ++ [⟨name, [], 0⟩] } }

/-- `ngx_http_graph_create_temp_file`, and whether it returned `NGX_OK`. -/
def ngxHttpGraphCreateTempFile (env : Env) (w : World) : World × Bool :=
  match env.tempFile w.glcf.tempFileVec.length with
  | .unallocated => (w.logError (lit "ngx_pcalloc temp file failed."), false)
  | .failed => ((w.pushFile []).logError (lit "create temp file failed"), false)
  | .created name => (w.pushFile name, true)

/-- The temp file after `ngx_write_chain_to_temp_file` has been given a chunk and the callback has
added what it returned to the offset. -/
def TempFile.afterWrite (tf : TempFile) (c : Chunk) : TempFile :=
  if c.written then
    { tf with
      content := blit tf.content tf.offset.toNat c.data
      offset := tf.offset + c.data.length }
  else { tf with offset := tf.offset + ngxError }

/-- `ngx_http_graph_curl_write_cb`.  It always reports the whole chunk to curl, so it has no
result; `none` is the exception `at` throws for an index out of range. -/
def ngxHttpGraphCurlWriteCb (w : World) (c : Chunk) : Option World :=
  match w.glcf.tempFileVec[w.glcf.tempFileCurIdx]? with
  | none => none
  | some tf =>
    let w := w.emit (.chunk c.data c.written)
    let w := if c.written then w else w.finalize ngxHttpInternalServerError
    some { w with glcf := { w.glcf with
      tempFileVec := w.glcf.tempFileVec.set w.glcf.tempFileCurIdx (tf.afterWrite c) } }

/-- `ngx_http_graph_curl_get`, and whether it returned `NGX_OK`. -/
def ngxHttpGraphCurlGet (env : Env) (w : World) (url : Bytes) : Option (World × Bool) :=
  let transfer := env.curl w.glcf.tempFileCurIdx url
  let w := w.emit (.curlGet url)
  match transfer with
  | none => some (w, false)
  | some t => (t.chunks.foldlM ngxHttpGraphCurlWriteCb w).map fun w ↦ (w, t.ok)

/-- The way out of the loop when a download failed. -/
def World.fetchFailed (w : World) (url : Bytes) : World :=
  (w.logError (lit "Failed to curl get img_file:" ++ url)).finalize ngxHttpInternalServerError

/-- The rest of a turn of the loop once the URL is cut off: the download, and the name of the file
it went to.  The index moves on when it succeeds. -/
def fetchOne (env : Env) (w : World) (url : Bytes) : Option (World × Option Bytes) :=
  match ngxHttpGraphCurlGet env w url with
  | none => none
  | some (w, false) => some (w.fetchFailed url, none)
  | some (w, true) => match w.glcf.tempFileVec[w.glcf.tempFileCurIdx]? with
    | none => none
    | some tf =>
      some ({ w with glcf := { w.glcf with tempFileCurIdx := w.glcf.tempFileCurIdx + 1 } },
        some tf.name)

/-! ### What a download does

Inside a turn of the loop the index points at a file of the vector.  Every write goes to that file,
and leaves the index and the number of files as they are. -/

/-- The world with its current temp file replaced, and more events. -/
def World.onFile (w : World) (tf : TempFile) (events : List Event) : World :=
  { glcf := { w.glcf with tempFileVec := w.glcf.tempFileVec.set w.glcf.tempFileCurIdx tf }
    trace := w.trace ++ events }

/-- The events of one chunk: a failed write finalizes the request. -/
def Chunk.events (c : Chunk) : List Event :=
  .chunk c.data c.written ::
    if c.written then [] else [.finalize ngxHttpInternalServerError]

theorem curlWriteCb_eq {w : World} {tf : TempFile} (c : Chunk)
    (h : w.glcf.tempFileVec[w.glcf.tempFileCurIdx]? = some tf) :
    ngxHttpGraphCurlWriteCb w c = some (w.onFile (tf.afterWrite c) c.events) := by
  rw [ngxHttpGraphCurlWriteCb, h]
  cases hc : c.written <;> simp [World.onFile, Chunk.events, World.emit, World.finalize, hc]

/-- **All the chunks of a transfer go to the one file, in order.** -/
theorem chunks_eq {w : World} {tf : TempFile} (chunks : List Chunk)
    (h : w.glcf.tempFileVec[w.glcf.tempFileCurIdx]? = some tf) :
    chunks.foldlM ngxHttpGraphCurlWriteCb w
      = some (w.onFile (chunks.foldl TempFile.afterWrite tf) (chunks.flatMap Chunk.events)) := by
  induction chunks generalizing w tf with
  | nil =>
    obtain ⟨hlt, htf⟩ := List.getElem?_eq_some_iff.mp h
    subst htf
    simp [World.onFile]
  | cons c chunks ih =>
    obtain ⟨hlt, -⟩ := List.getElem?_eq_some_iff.mp h
    have hset : (w.onFile (tf.afterWrite c) c.events).glcf.tempFileVec[
        (w.onFile (tf.afterWrite c) c.events).glcf.tempFileCurIdx]? = some (tf.afterWrite c) := by
      simp [World.onFile, hlt]
    rw [List.foldlM_cons, curlWriteCb_eq c h, Option.bind_eq_bind, Option.bind_some, ih hset]
    simp [World.onFile]

/-- The file a transfer leaves, and the events it has. -/
def Transfer.events (t : Transfer) : List Event := t.chunks.flatMap Chunk.events

theorem curlGet_eq {env : Env} {w : World} {tf : TempFile} (url : Bytes)
    (h : w.glcf.tempFileVec[w.glcf.tempFileCurIdx]? = some tf) :
    ngxHttpGraphCurlGet env w url =
      match env.curl w.glcf.tempFileCurIdx url with
      | none => some (w.onFile tf [.curlGet url], false)
      | some t =>
        let w := w.onFile (t.chunks.foldl TempFile.afterWrite tf) (.curlGet url :: t.events)
        some (w, t.ok) := by
  obtain ⟨hlt, htf⟩ := List.getElem?_eq_some_iff.mp h
  rw [ngxHttpGraphCurlGet]
  cases env.curl w.glcf.tempFileCurIdx url with
  | none => subst htf; simp [World.onFile, World.emit]
  | some t =>
    simp only [chunks_eq t.chunks (w := w.emit (.curlGet url)) h]
    simp [World.onFile, World.emit, Transfer.events]

/-- The index moves on to the next file. -/
def World.nextFile (w : World) : World :=
  { w with glcf := { w.glcf with tempFileCurIdx := w.glcf.tempFileCurIdx + 1 } }

/-- **A turn's download, in full.**  It never throws, and its outcome is that of the transfer. -/
theorem fetchOne_eq {env : Env} {w : World} {tf : TempFile} (url : Bytes)
    (h : w.glcf.tempFileVec[w.glcf.tempFileCurIdx]? = some tf) :
    fetchOne env w url =
      match env.curl w.glcf.tempFileCurIdx url with
      | none => some ((w.onFile tf [.curlGet url]).fetchFailed url, none)
      | some t =>
        let w := w.onFile (t.chunks.foldl TempFile.afterWrite tf) (.curlGet url :: t.events)
        if t.ok then some (w.nextFile, some (t.chunks.foldl TempFile.afterWrite tf).name)
        else some (w.fetchFailed url, none) := by
  obtain ⟨hlt, -⟩ := List.getElem?_eq_some_iff.mp h
  rw [fetchOne, curlGet_eq url h]
  cases env.curl w.glcf.tempFileCurIdx url with
  | none => rfl
  | some t =>
    obtain ⟨chunks, _ | _⟩ := t
    · rfl
    · simp [World.onFile, World.nextFile, hlt]

/-- Writing to a file does not rename it. -/
theorem foldl_afterWrite_name (chunks : List Chunk) (tf : TempFile) :
    (chunks.foldl TempFile.afterWrite tf).name = tf.name := by
  induction chunks generalizing tf with
  | nil => rfl
  | cons c chunks ih =>
    rw [List.foldl_cons, ih, TempFile.afterWrite]
    split <;> rfl

/-! ## The loop -/

/-- The cut at the next `|`: the memory afterwards, and where `gd_dbuf` goes. -/
def cutUrl (mem : Bytes) (imgUrl gdDbufEnd : ℕ) : Bytes × ℕ :=
  match strchr mem imgUrl 124 with
  | some p => (poke mem p 0, p + 1)
  | none => (mem, gdDbufEnd)

theorem lt_cutUrl (mem : Bytes) {imgUrl gdDbufEnd : ℕ} (h : imgUrl < gdDbufEnd) :
    imgUrl < (cutUrl mem imgUrl gdDbufEnd).2 := by
  rw [cutUrl]
  split
  · rename_i hp
    exact Nat.lt_succ_of_le (le_of_strchr hp)
  · exact h

/-- The way out of the loop when there is no temp file. -/
def World.noTempFile (w : World) : World :=
  (w.logError (lit "Failed to create temp file")).finalize ngxHttpInternalServerError

/-- `while (gd_dbuf < gd_dbuf_end)`, from offset `gdDbuf` of the block on.  The list of images is
`none` when the request has been finalized and the handler returns. -/
def urlLoop (env : Env) (gdDbufEnd : ℕ) (mem : Bytes) (gdDbuf : ℕ) (w : World)
    (imageNameVec : ImageList) : Option (World × Option ImageList) :=
  if gdDbuf < gdDbufEnd then
    match ngxHttpGraphCreateTempFile env w with
    | (w, false) => some (w.noTempFile, none)
    | (w, true) =>
      let cut := cutUrl mem gdDbuf gdDbufEnd
      let imgUrl := cstr cut.1 gdDbuf
      match fetchOne env w imgUrl with
      | none => none
      | some (w, none) => some (w, none)
      | some (w, some name) =>
        urlLoop env gdDbufEnd cut.1 cut.2 w (imageNameVec ++ [(name, imgUrl)])
  else some (w, some imageNameVec)
termination_by gdDbufEnd - gdDbuf
decreasing_by
  have := lt_cutUrl mem ‹gdDbuf < gdDbufEnd›
  omega

/-! ## What the loop takes the text for -/

/-- A byte of a URL: neither the separator nor a NUL. -/
def isUrlByte (b : UInt8) : Bool := b != 124 && b != 0

/-- The URLs the loop finds in what is left of the text.  A rest of one byte is never looked at,
and what follows a NUL is not either. -/
def urlsOf (s : Bytes) : List Bytes :=
  if s.length < 2 then []
  else s.takeWhile isUrlByte ::
    if (s.dropWhile isUrlByte).head? = some 124 then urlsOf (s.dropWhile isUrlByte).tail else []
termination_by s.length
decreasing_by
  have := (List.dropWhile_suffix (l := s) isUrlByte).length_le
  rw [List.length_tail]
  omega

/-- Download a list of URLs: each needs a temp file first. -/
def fetchAll (env : Env) : List Bytes → World → ImageList → Option (World × Option ImageList)
  | [], w, imageNameVec => some (w, some imageNameVec)
  | url :: urls, w, imageNameVec =>
    match ngxHttpGraphCreateTempFile env w with
    | (w, false) => some (w.noTempFile, none)
    | (w, true) => match fetchOne env w url with
      | none => none
      | some (w, none) => some (w, none)
      | some (w, some name) => fetchAll env urls w (imageNameVec ++ [(name, url)])

/-- The cut, when the block holds `s` and a terminator from the offset on: either the separator is
found, and what follows it stands behind the NUL, or the loop is sent to its end. -/
theorem cutUrl_spec {mem s t : Bytes} {d : ℕ} (hmem : mem.drop d = s ++ 0 :: t) (e : ℕ) :
    cstr (cutUrl mem d e).1 d = s.takeWhile isUrlByte ∧
      if (s.dropWhile isUrlByte).head? = some 124 then
        (cutUrl mem d e).2 = d + (s.takeWhile isUrlByte).length + 1 ∧
          (cutUrl mem d e).1.drop (cutUrl mem d e).2 = (s.dropWhile isUrlByte).tail ++ 0 :: t
      else (cutUrl mem d e).2 = e := by
  have hurl : ∀ x ∈ s.takeWhile isUrlByte, x ≠ 124 ∧ x ≠ 0 := by
    intro x hx
    simpa [isUrlByte] using List.mem_takeWhile_imp hx
  have hbar : 124 ∉ s.takeWhile isUrlByte := fun h ↦ (hurl _ h).1 rfl
  have hnul : 0 ∉ s.takeWhile isUrlByte := fun h ↦ (hurl _ h).2 rfl
  rw [← List.takeWhile_append_dropWhile (p := isUrlByte) (l := s), List.append_assoc] at hmem
  -- the URL is followed by a separator, by a NUL of the text, or by the terminator
  cases hd : s.dropWhile isUrlByte with
  | nil =>
    rw [hd] at hmem
    rw [cutUrl, strchr_eq_none hmem hnul hbar]
    exact ⟨cstr_of_drop hmem hnul, rfl⟩
  | cons b rest =>
    rw [hd] at hmem
    have hb : isUrlByte b = false := by
      simpa [hd] using List.head?_dropWhile_not isUrlByte s
    by_cases hb124 : b = 124
    · subst hb124
      have hp := drop_poke 0 124 hmem
      have hcut : cutUrl mem d e
          = (poke mem (d + (s.takeWhile isUrlByte).length) 0,
              d + (s.takeWhile isUrlByte).length + 1) := by
        rw [cutUrl, strchr_of_drop hmem hnul hbar (by decide)]
      rw [hcut]
      refine ⟨cstr_of_drop hp hnul, rfl, ?_⟩
      rw [Nat.add_assoc, ← List.drop_drop, hp]
      simp
    · have hb0 : b = 0 := by simpa [isUrlByte, hb124] using hb
      subst hb0
      rw [cutUrl, strchr_eq_none hmem hnul hbar]
      exact ⟨cstr_of_drop hmem hnul, rfl⟩

/-- **The loop downloads the URLs of the text.**  `d` is where the loop stands, `s` what is left of
the text there, and the last byte of `s` is the one `gd_dbuf_end` points at. -/
theorem urlLoop_eq_fetchAll (env : Env) {e d : ℕ} {mem s t : Bytes} (w : World)
    (images : ImageList) (hmem : mem.drop d = s ++ 0 :: t) (he : e + 1 = d + s.length) :
    urlLoop env e mem d w images = fetchAll env (urlsOf s) w images := by
  induction hn : s.length using Nat.strongRecOn generalizing d mem s w images with
  | ind n ih =>
    subst hn
    rw [urlLoop, urlsOf]
    by_cases hlt : d < e
    · obtain ⟨hurl, hcut⟩ := cutUrl_spec hmem e
      rw [if_pos hlt, if_neg (by omega)]
      simp only [hurl, fetchAll]
      -- the two runs go through the same download, and differ in what is left to do after it
      split
      · rfl
      · split
        · rfl
        · rfl
        · split at hcut
          · rename_i hbar
            obtain ⟨hnext, hdrop⟩ := hcut
            have hlen := congrArg List.length
              (List.takeWhile_append_dropWhile (p := isUrlByte) (l := s))
            have hpos : 0 < (s.dropWhile isUrlByte).length :=
              List.length_pos_of_mem (List.mem_of_head? hbar)
            rw [List.length_append] at hlen
            rw [if_pos hbar]
            refine ih _ ?_ _ _ hdrop ?_ rfl <;> rw [List.length_tail] <;> omega
          · rename_i hbar
            rw [if_neg hbar, hcut, urlLoop, if_neg (Nat.lt_irrefl e), fetchAll]
    · rw [if_neg hlt, if_pos (by omega), fetchAll]

/-! ## The files of a request -/

/-- The index points behind the last file, which is where the next one is pushed. -/
def World.AtEnd (w : World) : Prop := w.glcf.tempFileCurIdx = w.glcf.tempFileVec.length

/-- With the new file pushed, the index points at it. -/
theorem getElem?_pushFile {w : World} (h : w.AtEnd) (name : Bytes) :
    (w.pushFile name).glcf.tempFileVec[(w.pushFile name).glcf.tempFileCurIdx]?
      = some ⟨name, [], 0⟩ := by
  change (w.glcf.tempFileVec ++ [⟨name, [], 0⟩])[w.glcf.tempFileCurIdx]? = _
  rw [h]
  simp

end ImgPredictor
