import ImgPredictor.Graph.Finalize

/-!
# Which file holds which URL

Three functions keep a file, a URL and the bytes downloaded for it together, by an index in the
location's configuration: `create_temp_file` pushes a file on the vector before the download, curl's
write callback writes to the file at the index and moves its offset, and the loop moves the index
on after the download.

* `TempFile.Holds` is the invariant of one file while its chunks come in.
* `filesOf` is what the vector holds in the end; `fetchAll_files` says so.
* `files_paired` is about the whole callback: at the call of `run_process_by_name` the `k`-th entry
  of the image list, the `k`-th file and the `k`-th URL belong together.
-/

set_option autoImplicit false

namespace ImgPredictor

open Bytes

/-! ## One file -/

/-- The file holds these bytes, and the next write goes behind them. -/
def TempFile.Holds (tf : TempFile) (bytes : Bytes) : Prop :=
  tf.content = bytes ∧ tf.offset = bytes.length

theorem TempFile.Holds.write {tf : TempFile} {bytes : Bytes} (h : tf.Holds bytes) {c : Chunk}
    (hc : c.written = true) : (tf.afterWrite c).Holds (bytes ++ c.data) := by
  obtain ⟨hcontent, hoffset⟩ := h
  rw [TempFile.afterWrite, if_pos hc]
  refine ⟨?_, by simp [hoffset]⟩
  show blit tf.content tf.offset.toNat c.data = bytes ++ c.data
  rw [hoffset, hcontent, Int.toNat_natCast, blit_of_le _ (Nat.le_refl _)]
  simp

/-- **A file holds the chunks that were written to it, in order.** -/
theorem TempFile.Holds.writes {tf : TempFile} {bytes : Bytes} (h : tf.Holds bytes)
    {chunks : List Chunk} (hw : ∀ c ∈ chunks, c.written = true) :
    (chunks.foldl TempFile.afterWrite tf).Holds (bytes ++ chunks.flatMap Chunk.data) := by
  induction chunks generalizing tf bytes with
  | nil => simpa using h
  | cons c chunks ih =>
    have := ih (h.write (hw c (by simp))) fun x hx ↦ hw x (List.mem_cons_of_mem _ hx)
    simpa using this

/-! ## The vector -/

/-- The files of a list of URLs, the first of which is the `k`-th of its request. -/
def filesOf (env : Env) : ℕ → List Bytes → List TempFile
  | _, [] => []
  | k, url :: urls => match env.tempFile k, env.curl k url with
    | .created name, some t =>
      t.chunks.foldl TempFile.afterWrite ⟨name, [], 0⟩ :: filesOf env (k + 1) urls
    | _, _ => []

/-- A turn in which all goes well: the world it leaves behind. -/
def World.afterTurn (w : World) (name url : Bytes) (t : Transfer) : World :=
  ((w.pushFile name).onFile (t.chunks.foldl TempFile.afterWrite ⟨name, [], 0⟩)
    (.curlGet url :: t.events)).nextFile

theorem World.afterTurn_tempFileVec {w : World} (h : w.AtEnd) (name url : Bytes) (t : Transfer) :
    (w.afterTurn name url t).glcf.tempFileVec
      = w.glcf.tempFileVec ++ [t.chunks.foldl TempFile.afterWrite ⟨name, [], 0⟩] := by
  show (w.glcf.tempFileVec ++ [TempFile.mk name [] 0]).set w.glcf.tempFileCurIdx _ = _
  rw [show w.glcf.tempFileCurIdx = w.glcf.tempFileVec.length from h]
  simp

theorem World.afterTurn_atEnd {w : World} (h : w.AtEnd) (name url : Bytes) (t : Transfer) :
    (w.afterTurn name url t).AtEnd := by
  show w.glcf.tempFileCurIdx + 1 = (w.afterTurn name url t).glcf.tempFileVec.length
  rw [World.afterTurn_tempFileVec h, show w.glcf.tempFileCurIdx = w.glcf.tempFileVec.length from h]
  simp

theorem fetchAll_turn {env : Env} {w : World} (h : w.AtEnd) {name url : Bytes} {t : Transfer}
    (hname : env.tempFile w.glcf.tempFileCurIdx = .created name)
    (ht : env.curl w.glcf.tempFileCurIdx url = some t) (hok : t.ok = true) (urls : List Bytes)
    (images : ImageList) :
    fetchAll env (url :: urls) w images
      = fetchAll env urls (w.afterTurn name url t) (images ++ [(name, url)]) := by
  have hk : w.glcf.tempFileCurIdx = w.glcf.tempFileVec.length := h
  have hidx : (w.pushFile name).glcf.tempFileCurIdx = w.glcf.tempFileVec.length := h
  rw [hk] at hname ht
  simp only [fetchAll, ngxHttpGraphCreateTempFile, hname,
    fetchOne_eq url (getElem?_pushFile h name), hidx, ht, hok, if_true, foldl_afterWrite_name]
  rfl

/-- **The loop adds the files of its URLs to the vector.** -/
theorem fetchAll_files {env : Env} {urls : List Bytes} {w v : World} (h : w.AtEnd)
    (hs : StepsSucceed env w.glcf.tempFileCurIdx urls) {images : ImageList}
    {images' : Option ImageList} (hfetch : fetchAll env urls w images = some (v, images')) :
    v.glcf.tempFileVec = w.glcf.tempFileVec ++ filesOf env w.glcf.tempFileCurIdx urls := by
  induction urls generalizing w images with
  | nil =>
    obtain ⟨rfl, -⟩ := Prod.mk.inj (Option.some.inj hfetch)
    exact (List.append_nil _).symm
  | cons url urls ih =>
    obtain ⟨⟨name, hname⟩, t, ht, hok⟩ := hs 0 url rfl
    rw [Nat.add_zero] at hname ht
    rw [fetchAll_turn h hname ht hok] at hfetch
    rw [ih (World.afterTurn_atEnd h name url t) hs.tail hfetch, World.afterTurn_tempFileVec h,
      List.append_assoc, filesOf, hname, ht]
    rfl

/-! ## Files, images and URLs -/

/-- The image list, the files and the URLs belong together, the first URL being the `k`-th of its
request. -/
structure Paired (env : Env) (k : ℕ) (urls : List Bytes) (files : List TempFile)
    (images : ImageList) : Prop where
  /-- There are as many files as URLs. -/
  length_files : files.length = urls.length
  /-- There are as many images as files. -/
  length_images : images.length = files.length
  /-- The `i`-th image is the name of the `i`-th file and the `i`-th URL, and the file holds what
  curl delivered for that URL. -/
  entry : ∀ (i : ℕ) url, urls[i]? = some url → ∃ file t, files[i]? = some file ∧
    images[i]? = some (file.name, url) ∧ env.tempFile (k + i) = .created file.name ∧
    env.curl (k + i) url = some t ∧ file.content = t.chunks.flatMap Chunk.data

/-- All the chunks of a list of URLs are written. -/
def ChunksWritten (env : Env) (k : ℕ) (urls : List Bytes) : Prop :=
  ∀ (i : ℕ) url t, urls[i]? = some url → env.curl (k + i) url = some t →
    ∀ c ∈ t.chunks, c.written = true

theorem ChunksWritten.tail {env : Env} {k : ℕ} {url : Bytes} {urls : List Bytes}
    (h : ChunksWritten env k (url :: urls)) : ChunksWritten env (k + 1) urls := by
  intro i u t hi ht
  refine h (i + 1) u t (by simpa using hi) ?_
  rwa [show k + (i + 1) = k + 1 + i by omega]

/-- **Files, images and URLs belong together.** -/
theorem paired_filesOf {env : Env} {k : ℕ} {urls : List Bytes} (hs : StepsSucceed env k urls)
    (hw : ChunksWritten env k urls) {images : ImageList}
    (himages : fetchImages env k urls = some images) :
    Paired env k urls (filesOf env k urls) images := by
  induction urls generalizing k images with
  | nil =>
    obtain rfl := Option.some.inj himages
    exact ⟨rfl, rfl, fun i url hi ↦ absurd hi (by simp)⟩
  | cons url urls ih =>
    obtain ⟨⟨name, hname⟩, t, ht, hok⟩ := hs 0 url rfl
    have hwritten := hw 0 url t rfl ht
    rw [Nat.add_zero] at hname ht
    have hopened : (⟨name, [], 0⟩ : TempFile).Holds [] := ⟨rfl, rfl⟩
    have hholds := hopened.writes hwritten
    simp only [fetchImages, hname, ht, Option.any_some, hok, if_true, Option.map_eq_some_iff]
      at himages
    obtain ⟨rest, hrest, rfl⟩ := himages
    obtain ⟨hfiles, himages, hentry⟩ := ih hs.tail hw.tail hrest
    have hcons : filesOf env k (url :: urls)
        = t.chunks.foldl TempFile.afterWrite ⟨name, [], 0⟩ :: filesOf env (k + 1) urls := by
      rw [filesOf, hname, ht]
    rw [hcons]
    refine ⟨by simp [hfiles], by simp [himages], fun i u hi ↦ ?_⟩
    rcases i with _ | i
    · obtain rfl := Option.some.inj hi
      refine ⟨_, t, rfl, ?_, ?_, ht, by simpa using hholds.1⟩
      · rw [foldl_afterWrite_name]; rfl
      · rw [foldl_afterWrite_name]; exact hname
    · obtain ⟨file, t', hfile, himage, hcreated, hcurl, hcontent⟩ := hentry i u hi
      rw [show k + 1 + i = k + (i + 1) by omega] at hcreated hcurl
      exact ⟨file, t', hfile, himage, hcreated, hcurl, hcontent⟩

/-- **At the call of `run_process_by_name` the images, the files and the URLs belong together.**
The callback does not throw, so the index was in range at every write; with the prefix it comes to
the call, from a world `v` whose vector has the files, and without the prefix it is over at once. -/
theorem files_paired {env : Env} {r : Request} {text : Bytes} (w : World)
    (htext : assembledText r = some text) (hs : StepsSucceed env 0 (urlsOfText text))
    (hw : ChunksWritten env 0 (urlsOfText text)) :
    if imgurl <+: text then
      ∃ v images, ngxHttpGraphClientBodyHandler2 env r w = some (runPlugin env r v images) ∧
        downloads v.trace = downloads w.trace ++ urlsOfText text ∧
        Paired env 0 (urlsOfText text) v.glcf.tempFileVec images
    else ngxHttpGraphClientBodyHandler2 env r w
      = some (w.finalize ngxHttpInternalServerError) := by
  rw [assembledText] at htext
  split at htext
  · rename_i gd hgd
    obtain rfl := Option.some.inj htext
    rw [ngxHttpGraphClientBodyHandler2, hgd]
    simp only [handleText_eq env r w (assemble_fits hgd)]
    split
    · rename_i hp
      have hurls : urlsOf (gd.text.drop 7) = urlsOfText gd.text := by rw [urlsOfText, if_pos hp]
      rw [hurls]
      have hend : (resetTempFiles w).AtEnd := rfl
      obtain ⟨⟨v, images'⟩, hv, -, htrace, himages'⟩ := fetchAll_eq env (urlsOfText gd.text) [] hend
      obtain ⟨hdown, images, himages, -⟩ := fetch_succeeds hs
      have hidx : (resetTempFiles w).glcf.tempFileCurIdx = 0 := rfl
      have hvec := fetchAll_files hend (by rwa [hidx]) hv
      simp only [hidx] at htrace himages' hvec
      rw [himages] at himages'
      obtain rfl : images' = some images := by simpa using himages'
      refine ⟨v, images, by rw [hv], ?_, ?_⟩
      · rw [htrace, downloads_append, hdown]
        rfl
      · rw [hvec]
        exact paired_filesOf hs hw himages
    · rfl
  · exact absurd htext (by simp)

/-- The first transfer of a request delivers two chunks, the others none. -/
def twoChunks : Env :=
  { Env.smooth with
    curl := fun k _ ↦ some ⟨if k = 0 then [⟨lit "GI", true⟩, ⟨lit "F", true⟩] else [], true⟩ }

theorem files_paired_twoChunks :
    ∃ v images, ngxHttpGraphClientBodyHandler2 twoChunks (pullUrl (lit "a|bc")) .withFace
        = some (runPlugin twoChunks (pullUrl (lit "a|bc")) v images) ∧
      downloads v.trace = [lit "a", lit "bc"] ∧
      Paired twoChunks 0 [lit "a", lit "bc"] v.glcf.tempFileVec images := by
  have hurls : urlsOfText (imgurl ++ lit "a|bc") = [lit "a", lit "bc"] := by decide +kernel
  have htext : assembledText (pullUrl (lit "a|bc")) = some (imgurl ++ lit "a|bc") := by decide
  have hsteps : StepsSucceed twoChunks 0 (urlsOfText (imgurl ++ lit "a|bc")) :=
    fun i url _ ↦ ⟨⟨_, rfl⟩, _, rfl, rfl⟩
  have h := files_paired .withFace htext hsteps (by
      intro i url t _ ht c hc
      obtain rfl := Option.some.inj ht
      rcases Nat.eq_zero_or_pos i with rfl | hi
      · have : ∀ c ∈ [Chunk.mk (lit "GI") true, ⟨lit "F", true⟩], c.written = true := by decide
        exact this c hc
      · rw [if_neg (by omega)] at hc
        exact absurd hc (by simp))
  rwa [if_pos (List.prefix_append ..), hurls] at h

end ImgPredictor
