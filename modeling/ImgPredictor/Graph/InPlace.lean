import ImgPredictor.Graph.Pull

/-!
# Where the assembling of a pull body writes

A body that arrives in a single buffer is worked on in that buffer: the text is what stands between
`pos` and `last`, the appends go behind it, and so does the NUL that ends it; the cuts of the URL
loop go over separators inside of it.  The buffer ends at `end`, and nothing compares any of this
with `end`.

* `handler2Writing` is the callback together with the offsets, from `gd->data` on, that it writes
  to.  It is the same function, by `handler2Writing_fst`.
* `urlLoopWriting_lt` is the invariant of the loop: **a cut never goes past the NUL**.

`writesInside_iff` says how much room behind the text it takes.
-/

set_option autoImplicit false

namespace ImgPredictor

open Bytes

/-! ## The writes -/

/-- The offsets an append writes to. -/
def appendWrites (gd : GraphData) (bf : Buf) : List ℕ := List.range' gd.len bf.bytes.length

/-- The offsets the loop over the chain writes to. -/
def appendChainWrites : GraphData → List Buf → List ℕ
  | _, [] => []
  | gd, cl :: chain =>
    if cl.memory then appendWrites gd cl ++ appendChainWrites (ngxHttpGraphDataAppend gd cl) chain
    else appendChainWrites gd chain

/-- The offset the cut of a URL writes to. -/
def cutWrites (mem : Bytes) (imgUrl : ℕ) : List ℕ := (strchr mem imgUrl 124).toList

/-- `urlLoop`, and the offsets it writes to. -/
def urlLoopWriting (env : Env) (gdDbufEnd : ℕ) (mem : Bytes) (gdDbuf : ℕ) (w : World)
    (imageNameVec : ImageList) : Option (World × Option ImageList) × List ℕ :=
  if gdDbuf < gdDbufEnd then
    match ngxHttpGraphCreateTempFile env w with
    | (w, false) => (some (w.noTempFile, none), [])
    | (w, true) =>
      let cut := cutUrl mem gdDbuf gdDbufEnd
      let imgUrl := cstr cut.1 gdDbuf
      match fetchOne env w imgUrl with
      | none => (none, cutWrites mem gdDbuf)
      | some (w, none) => (some (w, none), cutWrites mem gdDbuf)
      | some (w, some name) =>
        let rest := urlLoopWriting env gdDbufEnd cut.1 cut.2 w (imageNameVec ++ [(name, imgUrl)])
        (rest.1, cutWrites mem gdDbuf ++ rest.2)
  else (some (w, some imageNameVec), [])
termination_by gdDbufEnd - gdDbuf
decreasing_by
  have := lt_cutUrl mem ‹gdDbuf < gdDbufEnd›
  omega

/-- `handleText`, and the offsets it writes to: the terminator, and the cuts. -/
def handleTextWriting (env : Env) (r : Request) (w : World) (gd : GraphData) :
    Option World × List ℕ :=
  let mem := poke gd.mem gd.len 0
  if strneq 7 mem (lit "imgurl:") then
    let loop := urlLoopWriting env (gd.len - 1) mem 7 (resetTempFiles w) []
    (match loop.1 with
      | none => none
      | some (w, none) => some w
      | some (w, some images) => some (runPlugin env r w images), gd.len :: loop.2)
  else (some (w.finalize ngxHttpInternalServerError), [gd.len])

/-- `ngx_http_graph_client_body_handler2`, and the offsets it writes to from `gd->data` on. -/
def handler2Writing (env : Env) (r : Request) (w : World) : Option World × List ℕ :=
  match r.requestBody with
  | none => (some ((w.logError (lit "Had no graph body.")).finalize ngxHttpBadRequest), [])
  | some rb => match rb.bufs with
    | [] => (none, [])
    | cl :: next => match gdStart r cl next with
      | none => (none, [])
      | some gd =>
        let res := handleTextWriting env r w (appendChain gd (cl :: next))
        (res.1, appendChainWrites gd (cl :: next) ++ res.2)

/-! ## It is the same function -/

theorem urlLoopWriting_fst (env : Env) (e : ℕ) (mem : Bytes) (d : ℕ) (w : World)
    (images : ImageList) :
    (urlLoopWriting env e mem d w images).1 = urlLoop env e mem d w images := by
  induction hn : e - d using Nat.strongRecOn generalizing mem d w images with
  | ind n ih =>
    rw [urlLoopWriting, urlLoop]
    by_cases hlt : d < e
    · have hcut := lt_cutUrl mem hlt
      rw [if_pos hlt, if_pos hlt]
      rcases ngxHttpGraphCreateTempFile env w with ⟨w, _ | _⟩
      · rfl
      · simp only
        rcases fetchOne env w (cstr (cutUrl mem d e).1 d) with _ | ⟨w, _ | name⟩
        · rfl
        · rfl
        · exact ih _ (by omega) _ _ _ _ rfl
    · rw [if_neg hlt, if_neg hlt]

/-- **The offsets come with the callback**, whatever it does. -/
theorem handler2Writing_fst (env : Env) (r : Request) (w : World) :
    (handler2Writing env r w).1 = ngxHttpGraphClientBodyHandler2 env r w := by
  have htext : ∀ gd, (handleTextWriting env r w gd).1 = handleText env r w gd := by
    intro gd
    rw [handleTextWriting, handleText]
    split
    · have hloop := urlLoopWriting_fst env (gd.len - 1) (poke gd.mem gd.len 0) 7
        (resetTempFiles w) []
      exact hloop ▸ rfl
    · rfl
  rw [handler2Writing, ngxHttpGraphClientBodyHandler2, assemble]
  rcases r.requestBody with _ | ⟨_ | ⟨cl, next⟩, tempFile⟩
  · rfl
  · rfl
  · simp only
    rcases gdStart r cl next with _ | gd
    · rfl
    · exact htext _

/-! ## Nothing else is written -/

/-- A write leaves the bytes before and behind it as they are. -/
theorem getElem?_blit {mem : Bytes} {off i : ℕ} (src : Bytes) (h : off ≤ mem.length)
    (hi : i < off ∨ off + src.length ≤ i) : (blit mem off src)[i]? = mem[i]? := by
  rw [blit_of_le src h]
  rcases hi with hi | hi
  · rw [List.append_assoc, List.getElem?_append_left (by simp; omega), List.getElem?_take_of_lt hi]
  · rw [List.getElem?_append_right (by simp; omega), List.getElem?_drop]
    congr 1
    simp only [List.length_append, List.length_take]
    omega

theorem getElem?_dataAppend {gd : GraphData} (h : gd.Fits) (bf : Buf) {i : ℕ}
    (hi : i ∉ appendWrites gd bf) : (ngxHttpGraphDataAppend gd bf).mem[i]? = gd.mem[i]? := by
  rw [appendWrites, List.mem_range'_1] at hi
  exact getElem?_blit bf.bytes h (by omega)

/-- What `strchr` finds comes before the next NUL. -/
theorem strchr_lt {mem : Bytes} {d p nul : ℕ} {c : UInt8} (hnul : mem[nul]? = some 0)
    (hd : d ≤ nul) (h : strchr mem d c = some p) : p < nul := by
  rw [strchr] at h
  split at h
  · rename_i hmem
    have hidx := List.idxOf_lt_length_of_mem hmem
    have hlen : (cstr mem d).length ≤ nul - d := by
      by_contra hlt
      have hget := List.prefix_iff_getElem?.mp (List.takeWhile_prefix (l := mem.drop d)
        (· != (0 : UInt8))) (nul - d) (Nat.lt_of_not_le hlt)
      rw [List.getElem?_drop, Nat.add_sub_cancel' hd, hnul, Option.some_inj] at hget
      exact absurd (List.mem_takeWhile_imp (List.mem_of_getElem hget.symm)) (by decide)
    have := Option.some.inj h
    omega
  · exact absurd h (by simp)

/-- A cut leaves everything but its separator as it is. -/
theorem getElem?_cutUrl {mem : Bytes} {d nul i : ℕ} (hnul : mem[nul]? = some 0) (hd : d ≤ nul)
    (e : ℕ) (hi : i ∉ cutWrites mem d) : (cutUrl mem d e).1[i]? = mem[i]? := by
  rw [cutWrites] at hi
  rw [cutUrl]
  rcases hp : strchr mem d 124 with _ | p
  · rfl
  · rw [hp] at hi
    have hne : i ≠ p := by simpa using hi
    have hlt := strchr_lt hnul hd hp
    have hlen := (List.getElem?_eq_some_iff.mp hnul).1
    exact getElem?_blit [0] (by omega) (by simp only [List.length_singleton]; omega)

/-! ## Where the writes are -/

/-- **A cut never goes past the NUL**, and leaves it where it is. -/
theorem urlLoopWriting_lt (env : Env) {nul e : ℕ} (he : e ≤ nul) (mem : Bytes) (d : ℕ) (w : World)
    (images : ImageList) (hnul : mem[nul]? = some 0) (hd : d ≤ nul) :
    ∀ i ∈ (urlLoopWriting env e mem d w images).2, i < nul := by
  have hcut : ∀ {mem : Bytes} {d : ℕ}, mem[nul]? = some 0 → d ≤ nul →
      ∀ i ∈ cutWrites mem d, i < nul := by
    intro mem d hnul hd i hi
    rw [cutWrites, Option.mem_toList] at hi
    exact strchr_lt hnul hd hi
  induction hn : e - d using Nat.strongRecOn generalizing mem d w images with
  | ind n ih =>
    rw [urlLoopWriting]
    by_cases hlt : d < e
    · have hnext := lt_cutUrl mem hlt
      rw [if_pos hlt]
      rcases ngxHttpGraphCreateTempFile env w with ⟨w, _ | _⟩
      · simp
      · simp only
        rcases fetchOne env w (cstr (cutUrl mem d e).1 d) with _ | ⟨w, _ | name⟩
        · exact hcut hnul hd
        · exact hcut hnul hd
        · have hnul' : (cutUrl mem d e).1[nul]? = some 0 := by
            rw [getElem?_cutUrl hnul hd e fun h ↦ absurd (hcut hnul hd nul h) (Nat.lt_irrefl _)]
            exact hnul
          have hd' : (cutUrl mem d e).2 ≤ nul := by
            rw [cutUrl]
            rcases hp : strchr mem d 124 with _ | p
            · exact he
            · exact strchr_lt hnul hd hp
          intro i hi
          rcases List.mem_append.mp hi with hi | hi
          · exact hcut hnul hd i hi
          · exact ih _ (by omega) _ _ _ _ hnul' hd' rfl i hi
    · rw [if_neg hlt]
      simp

/-- **The last byte written is the NUL** behind the text: the cuts are inside of it. -/
theorem handleTextWriting_le (env : Env) (r : Request) (w : World) {gd : GraphData} (h : gd.Fits) :
    gd.len ∈ (handleTextWriting env r w gd).2 ∧
      ∀ i ∈ (handleTextWriting env r w gd).2, i ≤ gd.len := by
  rw [handleTextWriting]
  split
  · rename_i hprefix
    have hnul : (poke gd.mem gd.len 0)[gd.len]? = some 0 := by
      rw [poke_len h, List.getElem?_append_right (length_text h).le, length_text h]
      simp
    -- the terminator comes behind the prefix
    have hseven : 7 ≤ gd.len := by
      rw [← length_text h]
      exact ((strneq_imgurl_iff h).mp hprefix).length_le
    refine ⟨by simp, fun i hi ↦ ?_⟩
    rcases List.mem_cons.mp hi with rfl | hi
    · exact Nat.le_refl _
    · exact Nat.le_of_lt (urlLoopWriting_lt env (Nat.sub_le _ _) _ _ _ _ hnul hseven i hi)
  · simp

/-! ## A body in one buffer -/

/-- The body is a single buffer in memory, and is used in place. -/
structure InOneBuffer (r : Request) (b : Buf) : Prop where
  /-- It is the body. -/
  body : r.requestBody.map RequestBody.bufs = some [b]
  /-- It is in memory. -/
  inMemory : b.pos.isSome = true ∧ b.inFile = false

/-- Every byte the callback writes while it assembles the body and cuts it up lies between `pos`
and `end`. -/
def WritesInside (env : Env) (r : Request) (w : World) (b : Buf) : Prop :=
  ∀ i ∈ (handler2Writing env r w).2, i < b.bytes.length + b.room.length

/-- What is written to the buffer. -/
theorem handler2Writing_snd (env : Env) {r : Request} (w : World) {b : Buf}
    (h : InOneBuffer r b) :
    ∃ gd : GraphData, gd.Fits ∧
      gd.len = b.bytes.length + (if b.memory then b.bytes.length else 0) ∧
      (handler2Writing env r w).2 =
        (if b.memory then List.range' b.bytes.length b.bytes.length else []) ++
          (handleTextWriting env r w gd).2 := by
  obtain ⟨rb, hrb, hbufs⟩ := Option.map_eq_some_iff.mp h.body
  obtain ⟨text, htext⟩ := Option.isSome_iff_exists.mp h.inMemory.1
  have hbytes : b.bytes = text := by simp [Buf.bytes, htext]
  have hstart : gdStart r b [] = some ⟨text ++ b.room, (text ++ b.room).length, text.length⟩ := by
    simp [gdStart, h.inMemory.2, htext]
  refine ⟨_, appendChain_fits (gdStart_fits hstart) [b], ?_, ?_⟩
  · simp only [appendChain, List.foldl_cons, List.foldl_nil, hbytes]
    split <;> simp [ngxHttpGraphDataAppend, hbytes]
  · rw [handler2Writing, hrb]
    simp only [hbufs, hstart, appendChainWrites, appendWrites, hbytes]
    split <;> simp

/-- **The writes stay inside of the buffer exactly when the room behind the text** takes the
terminator, and once more the text if the buffer is flagged `memory`. -/
theorem writesInside_iff (env : Env) {r : Request} (w : World) {b : Buf} (h : InOneBuffer r b) :
    WritesInside env r w b ↔ (if b.memory then b.bytes.length else 0) < b.room.length := by
  obtain ⟨gd, hfits, hlen, hwrites⟩ := handler2Writing_snd env w h
  obtain ⟨hnul, hle⟩ := handleTextWriting_le env r w hfits
  rw [WritesInside, hwrites]
  constructor
  · intro hall
    have := hall gd.len (List.mem_append_right _ hnul)
    omega
  · intro hroom i hi
    rcases List.mem_append.mp hi with hi | hi
    · split at hi
      · rename_i hmem
        rw [if_pos hmem] at hroom
        rw [List.mem_range'_1] at hi
        omega
      · exact absurd hi (by simp)
    · have := hle i hi
      omega

/-- A buffer with a byte to spare. -/
def spareByte : Buf := { Buf.flagged false (lit "imgurl:a|b") with room := [0] }

theorem writesInside_spareByte : WritesInside .smooth (pullOf [spareByte]) .fresh spareByte :=
  (writesInside_iff .smooth .fresh ⟨rfl, by decide⟩).mpr (by decide)

/-- **A buffer that is just as long as the body**: the terminator goes behind its end. -/
theorem not_writesInside :
    ∃ b, InOneBuffer (pullOf [b]) b ∧ b.bytes = lit "imgurl:a|b" ∧ b.room = [] ∧
      10 ∈ (handler2Writing .smooth (pullOf [b]) .fresh).2 ∧
      ¬ WritesInside .smooth (pullOf [b]) .fresh b := by
  have hbody : InOneBuffer (pullOf [.flagged false (lit "imgurl:a|b")])
      (.flagged false (lit "imgurl:a|b")) := ⟨rfl, by decide⟩
  obtain ⟨gd, hfits, hlen, hwrites⟩ := handler2Writing_snd .smooth .fresh hbody
  have hten : gd.len = 10 := hlen
  have hmem : 10 ∈ (handler2Writing .smooth (pullOf [.flagged false (lit "imgurl:a|b")])
      .fresh).2 := by
    rw [hwrites, ← hten]
    exact List.mem_append_right _ (handleTextWriting_le _ _ _ hfits).1
  exact ⟨_, hbody, rfl, rfl, hmem, fun h ↦ absurd (h 10 hmem) (by decide)⟩

end ImgPredictor
