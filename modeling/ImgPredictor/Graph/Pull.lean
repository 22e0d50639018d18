import ImgPredictor.Graph.Trace

/-!
# From a pull's body to its downloads

Two questions about the text of a pull.

* Does it depend on how nginx cut the body into buffers?  `handler2_eq_of_text` says that the whole
  callback depends on the text alone, so the question is when the text is the body, which
  `assembledText_eq_iff` answers.
* Does the loop read back the URLs a client joined?  `urlsOf_join` says that it does, but for a last
  URL of one byte, which is left out: `gd_dbuf_end` is the last byte of the text and not the byte
  behind it.
-/

set_option autoImplicit false

namespace ImgPredictor

open Bytes

/-! ## The text and the buffers -/

/-- **The callback depends on the text alone**, whatever buffers it was assembled from. -/
theorem handler2_eq_of_text {env : Env} {r r' : Request} {w : World} {text : Bytes}
    (h : assembledText r = some text) (h' : assembledText r' = some text)
    (hargs : ∀ w images, runPlugin env r' w images = runPlugin env r w images) :
    ngxHttpGraphClientBodyHandler2 env r' w = ngxHttpGraphClientBodyHandler2 env r w := by
  have key : ∀ {r : Request}, assembledText r = some text → ∃ gd : GraphData,
      gd.Fits ∧ gd.text = text ∧
        ngxHttpGraphClientBodyHandler2 env r w = handleText env r w gd := by
    intro r h
    rw [assembledText] at h
    split at h
    · rename_i gd hgd
      exact ⟨gd, assemble_fits hgd, Option.some.inj h, by rw [ngxHttpGraphClientBodyHandler2, hgd]⟩
    · exact absurd h (by simp)
  obtain ⟨gd, hfits, htext, heq⟩ := key h
  obtain ⟨gd', hfits', htext', heq'⟩ := key h'
  rw [heq, heq', handleText_eq env r w hfits, handleText_eq env r' w hfits', htext, htext']
  simp only [hargs]

/-- The request with its body cut into other buffers. -/
def Request.recut (r : Request) (rb : RequestBody) : Request := { r with requestBody := some rb }

/-- **A body comes out as it was sent exactly when its buffers are of the kind that is kept**, and
then it makes no difference which buffers they are. -/
theorem partition_kept_iff {r : Request} {bufs : List Buf} (h : InMemoryBody r bufs) :
    (assembledText r = some (bufs.flatMap Buf.bytes) ↔ KeepsEveryByte bufs) ∧
      ∀ rb' bufs', InMemoryBody (r.recut rb') bufs' →
        bufs'.flatMap Buf.bytes = bufs.flatMap Buf.bytes →
        KeepsEveryByte bufs → KeepsEveryByte bufs' →
          assembledText (r.recut rb') = assembledText r ∧
          ∀ env w, ngxHttpGraphClientBodyHandler2 env (r.recut rb') w
            = ngxHttpGraphClientBodyHandler2 env r w := by
  refine ⟨assembledText_eq_iff h, fun rb' bufs' h' hbytes hk hk' ↦ ?_⟩
  have htext := (assembledText_eq_iff h).mpr hk
  have htext' := (assembledText_eq_iff h').mpr hk'
  rw [hbytes] at htext'
  exact ⟨htext'.trans htext.symm, fun env w ↦
    handler2_eq_of_text htext htext' (fun _ _ ↦ rfl)⟩

/-- A pull with the given buffers. -/
def pullOf (bufs : List Buf) : Request :=
  { args := lit "src=pull&plugin=face", argsTail := lit " HTTP/1.1",
    contentLengthN := (bufs.flatMap Buf.bytes).length, chunked := false, headerOnly := false,
    requestBody := some ⟨bufs, none⟩, requestBodyInFileOnly := false,
    requestBodyInPersistentFile := false, requestBodyInSingleBuf := true }

/-- A buffer in memory, flagged `memory` or `temporary`. -/
def Buf.flagged (memory : Bool) (bytes : Bytes) : Buf :=
  { pos := some bytes, memory, temporary := !memory }

theorem inMemoryBody_pullOf {bufs : List Buf} (hne : bufs ≠ [])
    (h : ∀ b ∈ bufs, (b.pos.isSome = true ∧ b.inFile = false) ∧
      (b.temporary = true ∨ b.memory = true)) : InMemoryBody (pullOf bufs) bufs :=
  ⟨rfl, hne, fun b hb ↦ (h b hb).1, fun b hb ↦ (h b hb).2, rfl⟩

/-- A body in one buffer of the kind nginx makes. -/
def oneTemporary : List Buf := [.flagged false (lit "imgurl:a|b")]

/-- The same body in three buffers flagged `memory`. -/
def threeMemory : List Buf :=
  [.flagged true (lit "img"), .flagged true (lit "url:a|"), .flagged true (lit "b")]

theorem partition_kept_pullOf :
    assembledText (pullOf oneTemporary) = some (oneTemporary.flatMap Buf.bytes) ∧
      assembledText ((pullOf oneTemporary).recut ⟨threeMemory, none⟩)
        = assembledText (pullOf oneTemporary) := by
  have hbody : InMemoryBody (pullOf oneTemporary) oneTemporary :=
    inMemoryBody_pullOf (by decide) (by decide)
  have h := partition_kept_iff hbody
  have hone : KeepsEveryByte oneTemporary := by simp [KeepsEveryByte, oneTemporary, Buf.flagged]
  have hthree : KeepsEveryByte threeMemory := by simp [KeepsEveryByte, threeMemory, Buf.flagged]
  refine ⟨h.1.mpr hone, (h.2 ⟨threeMemory, none⟩ threeMemory ?_ (by decide) hone hthree).1⟩
  exact ⟨rfl, by decide, by decide, by decide, by decide⟩

/-- A body in two buffers of the kind nginx makes. -/
def twoTemporary : List Buf := [.flagged false (lit "imgurl:"), .flagged false (lit "a|b")]

/-- The same body in one buffer flagged `memory`. -/
def oneMemory : List Buf := [.flagged true (lit "imgurl:a|b")]

/-- The body is lost in two `temporary` buffers, and doubled in one flagged `memory`. -/
theorem partition_lost :
    InMemoryBody (pullOf twoTemporary) twoTemporary ∧ InMemoryBody (pullOf oneMemory) oneMemory ∧
      twoTemporary.flatMap Buf.bytes = lit "imgurl:a|b" ∧
      oneMemory.flatMap Buf.bytes = lit "imgurl:a|b" ∧
      assembledText (pullOf twoTemporary) = some [] ∧
      assembledText (pullOf oneMemory) = some (lit "imgurl:a|bimgurl:a|b") :=
  ⟨inMemoryBody_pullOf (by decide) (by decide), inMemoryBody_pullOf (by decide) (by decide),
    by decide, by decide, by decide, by decide⟩

/-! ## The URLs a client joins -/

/-- The URLs joined with `|`. -/
def joinUrls (urls : List Bytes) : Bytes := [124].intercalate urls

/-- A list of URLs that can be joined: neither the list nor a URL is empty, and no URL has a `|`
or a NUL in it. -/
def Joinable (urls : List Bytes) : Prop :=
  urls ≠ [] ∧ ∀ u ∈ urls, u ≠ [] ∧ ∀ b ∈ u, isUrlByte b = true

theorem takeWhile_url {u : Bytes} (hu : ∀ b ∈ u, isUrlByte b = true) :
    u.takeWhile isUrlByte = u ∧ u.dropWhile isUrlByte = [] :=
  ⟨List.takeWhile_eq_self_iff.mpr hu, List.dropWhile_eq_nil_iff.mpr hu⟩

/-- A URL in front of others is found, unless it is empty and nothing follows the separator. -/
theorem urlsOf_bar {u s : Bytes} (hu : ∀ b ∈ u, isUrlByte b = true) (hlong : u ≠ [] ∨ s ≠ []) :
    urlsOf (u ++ 124 :: s) = u :: urlsOf s := by
  have hbar : isUrlByte 124 = false := rfl
  have htake : (u ++ 124 :: s).takeWhile isUrlByte = u := by
    rw [List.takeWhile_append_of_pos hu, List.takeWhile_cons, hbar]
    simp
  have hdrop : (u ++ 124 :: s).dropWhile isUrlByte = 124 :: s := by
    rw [List.dropWhile_append_of_pos hu, List.dropWhile_cons, hbar]
    simp
  have hlen : 0 < u.length + s.length := by
    rcases hlong with h | h
    · exact Nat.add_pos_left (List.length_pos_of_ne_nil h) _
    · exact Nat.add_pos_right _ (List.length_pos_of_ne_nil h)
  rw [urlsOf, if_neg (by simp; omega), htake, hdrop]
  rfl

/-- The last URL is found when it has two bytes. -/
theorem urlsOf_last {u : Bytes} (hu : ∀ b ∈ u, isUrlByte b = true) :
    urlsOf u = if u.length < 2 then [] else [u] := by
  rw [urlsOf]
  obtain ⟨htake, hdrop⟩ := takeWhile_url hu
  rw [htake, hdrop]
  rfl

/-- **The loop finds the URLs that were joined**, but for a last one of a single byte. -/
theorem urlsOf_join {urls : List Bytes} (h : Joinable urls) :
    urlsOf (joinUrls urls) =
      if urls.getLast?.any (2 ≤ ·.length) then urls else urls.dropLast := by
  obtain ⟨hne, hgood⟩ := h
  induction urls with
  | nil => exact absurd rfl hne
  | cons u urls ih =>
    obtain ⟨hu0, hu⟩ := hgood u (by simp)
    cases urls with
    | nil =>
      rw [joinUrls, List.intercalate_singleton, urlsOf_last hu]
      by_cases hlen : u.length < 2
      · simp [hlen, Nat.not_le.mpr hlen]
      · simp [hlen, Nat.not_lt.mp hlen]
    | cons v vs =>
      have := ih (by simp) fun x hx ↦ hgood x (by simp [hx])
      rw [joinUrls] at this ⊢
      rw [List.intercalate_cons_cons, List.append_assoc, List.singleton_append,
        urlsOf_bar hu (.inl hu0), this, List.getLast?_cons_cons]
      split <;> rfl

/-! ## What is downloaded, and what the plugin is given -/

/-- The URLs that were downloaded. -/
def downloads (trace : List Event) : List Bytes :=
  trace.filterMap fun
    | .curlGet url => some url
    | _ => none

/-- The URLs of the images that plugins were run on. -/
def imageUrls (trace : List Event) : List (List Bytes) :=
  trace.filterMap fun
    | .runProcess _ images _ => some (images.map Prod.snd)
    | _ => none

@[simp] theorem downloads_append (s t : List Event) :
    downloads (s ++ t) = downloads s ++ downloads t :=
  List.filterMap_append

@[simp] theorem imageUrls_append (s t : List Event) :
    imageUrls (s ++ t) = imageUrls s ++ imageUrls t :=
  List.filterMap_append

/-- Every temp file is created and every download succeeds. -/
structure AllSucceed (env : Env) : Prop where
  /-- The temp files. -/
  tempFile : ∀ k, ∃ name, env.tempFile k = .created name
  /-- The downloads. -/
  curl : ∀ k url, ∃ t, env.curl k url = some t ∧ t.ok = true

/-- From the `k`-th on, the temp files of a list of URLs are created and the downloads succeed. -/
def StepsSucceed (env : Env) (k : ℕ) (urls : List Bytes) : Prop :=
  ∀ (i : ℕ) url, urls[i]? = some url → (∃ name, env.tempFile (k + i) = .created name) ∧
    ∃ t, env.curl (k + i) url = some t ∧ t.ok = true

theorem AllSucceed.steps {env : Env} (h : AllSucceed env) (k : ℕ) (urls : List Bytes) :
    StepsSucceed env k urls :=
  fun _ _ _ ↦ ⟨h.tempFile _, h.curl _ _⟩

theorem StepsSucceed.tail {env : Env} {k : ℕ} {url : Bytes} {urls : List Bytes}
    (h : StepsSucceed env k (url :: urls)) : StepsSucceed env (k + 1) urls := by
  intro i u hi
  have := h (i + 1) u (by simpa using hi)
  rwa [show k + (i + 1) = k + 1 + i by omega] at this

/-- When the steps succeed, the URLs are downloaded in order and the images are theirs. -/
theorem fetch_succeeds {env : Env} {k : ℕ} {urls : List Bytes} (h : StepsSucceed env k urls) :
    downloads (fetchEvents env k urls) = urls ∧
      ∃ images, fetchImages env k urls = some images ∧ images.map Prod.snd = urls := by
  induction urls generalizing k with
  | nil => exact ⟨rfl, [], rfl, rfl⟩
  | cons url urls ih =>
    obtain ⟨⟨name, hname⟩, t, ht, hok⟩ := h 0 url rfl
    rw [Nat.add_zero] at hname ht
    obtain ⟨hdown, images, himages, hsnd⟩ := ih h.tail
    have hevents : fetchEvents env k (url :: urls)
        = [.curlGet url] ++ (t.events ++ fetchEvents env (k + 1) urls) := by
      simp [fetchEvents, hname, ht, hok]
    have hsilent : downloads t.events = [] := filterMap_transferEvents (by simp) (by simp) t
    refine ⟨?_, (name, url) :: images, ?_, by simp [hsnd]⟩
    · rw [hevents, downloads_append, downloads_append, hsilent, hdown]
      rfl
    · simp [fetchImages, hname, ht, hok, himages]

theorem imageUrls_fetchEvents (env : Env) (k : ℕ) (urls : List Bytes) :
    imageUrls (fetchEvents env k urls) = [] :=
  filterMap_fetchEvents (by simp) (by simp) (by simp) (by simp) env k urls

/-- Is a plugin run: is there no query string, or one with a plugin? -/
def Request.NamesPlugin (r : Request) : Prop :=
  r.args = [] ∨ (argOf r (lit "plugin")).isSome = true

instance (r : Request) : Decidable r.NamesPlugin := inferInstanceAs (Decidable (_ ∨ _))

theorem namesPlugin_iff {r : Request} (glcf : LocConf) :
    r.NamesPlugin ↔ (pluginArgs r glcf).isSome = true := by
  rw [Request.NamesPlugin, pluginArgs]
  cases r.args <;> simp

theorem sendEvents_silent (env : Env) (r : Request) (resJson : Bytes) :
    downloads (sendEvents env r resJson) = [] ∧ imageUrls (sendEvents env r resJson) = [] :=
  ⟨filterMap_sendEvents (by simp) (by simp) (by simp) (by simp) env r resJson,
    filterMap_sendEvents (by simp) (by simp) (by simp) (by simp) env r resJson⟩

/-- The plugin is run once, on the images, when the request names one. -/
theorem pluginEvents_imageUrls (env : Env) (r : Request) (glcf : LocConf) (images : ImageList) :
    downloads (pluginEvents env r glcf images) = [] ∧
      imageUrls (pluginEvents env r glcf images) =
        if r.NamesPlugin then [images.map Prod.snd] else [] := by
  rw [pluginEvents]
  cases hargs : pluginArgs r glcf with
  | none =>
    rw [if_neg (by simp [namesPlugin_iff glcf, hargs])]
    exact ⟨rfl, rfl⟩
  | some p =>
    rw [if_pos (by simp [namesPlugin_iff glcf, hargs])]
    simp only
    rw [downloads_append, imageUrls_append]
    have hcall : ∀ name ext res, downloads (processEvents name ext images res) = [] ∧
        imageUrls (processEvents name ext images res) = [images.map Prod.snd] := by
      intro name ext res
      rw [processEvents]
      cases res.invoked <;> exact ⟨rfl, rfl⟩
    rw [(hcall _ _ _).1, (hcall _ _ _).2]
    split
    · exact ⟨rfl, rfl⟩
    · split
      · exact ⟨rfl, rfl⟩
      · rw [(sendEvents_silent ..).1, (sendEvents_silent ..).2]
        exact ⟨rfl, rfl⟩

/-- What a pull should do with its URLs: download each of them once, in order, and run the plugin
on exactly them. -/
def Serves (env : Env) (r : Request) (w : World) (urls : List Bytes) : Prop :=
  ∃ w', ngxHttpGraphClientBodyHandler2 env r w = some w' ∧
    downloads w'.trace = downloads w.trace ++ urls ∧
    imageUrls w'.trace = imageUrls w.trace ++ if r.NamesPlugin then [urls] else []

/-- A pull whose text lists `urls` serves the URLs the loop finds, and no other list. -/
theorem serves_iff {env : Env} {r : Request} {w : World} {text : Bytes} {urls : List Bytes}
    (hs : AllSucceed env) (htext : assembledText r = some (imgurl ++ text)) :
    Serves env r w urls ↔ urlsOf text = urls := by
  obtain ⟨w', hw', htrace⟩ := handler2_trace env w htext
  obtain ⟨hdown, images, himages, hsnd⟩ := fetch_succeeds (hs.steps 0 (urlsOf text))
  obtain ⟨hpdown, hpruns⟩ := pluginEvents_imageUrls env r w.glcf images
  have hevents : pullEvents env r w.glcf (imgurl ++ text)
      = fetchEvents env 0 (urlsOf text) ++ pluginEvents env r w.glcf images := by
    rw [pullEvents, if_pos (List.prefix_append ..),
      show (imgurl ++ text).drop 7 = text from List.drop_left' (by decide), himages]
  rw [hevents] at htrace
  have hdownloads : downloads w'.trace = downloads w.trace ++ urlsOf text := by
    rw [htrace, downloads_append, downloads_append, hdown, hpdown, List.append_nil]
  have himageUrls : imageUrls w'.trace
      = imageUrls w.trace ++ if r.NamesPlugin then [urlsOf text] else [] := by
    rw [htrace, imageUrls_append, imageUrls_append, imageUrls_fetchEvents, hpruns, hsnd,
      List.nil_append]
  constructor
  · rintro ⟨v, hv, hd, -⟩
    obtain rfl := Option.some.inj (hw'.symm.trans hv)
    exact List.append_cancel_left (hdownloads.symm.trans hd)
  · rintro rfl
    exact ⟨w', hw', hdownloads, himageUrls⟩

/-- **The URLs that were joined are the ones that are served exactly when the last of them has two
bytes or more.** -/
theorem serves_joined_iff {env : Env} {r : Request} {w : World} {urls : List Bytes}
    (hs : AllSucceed env) (hj : Joinable urls)
    (htext : assembledText r = some (imgurl ++ joinUrls urls)) :
    Serves env r w urls ↔ ∃ last, urls.getLast? = some last ∧ 2 ≤ last.length := by
  rw [serves_iff hs htext, urlsOf_join hj]
  obtain ⟨last, hlast⟩ : ∃ last, urls.getLast? = some last := by
    rw [← Option.isSome_iff_exists, List.getLast?_isSome]
    exact hj.1
  simp only [hlast, Option.any_some, decide_eq_true_eq, Option.some.injEq, exists_eq_left']
  split
  · rename_i hlen
    exact iff_of_true rfl hlen
  · rename_i hlen
    refine iff_of_false (fun heq ↦ ?_) hlen
    -- dropping the last URL leaves another list
    have := congrArg List.length heq
    have hpos : 0 < urls.length := List.length_pos_of_ne_nil hj.1
    rw [List.length_dropLast] at this
    omega

theorem allSucceed_smooth : AllSucceed .smooth :=
  ⟨fun _ ↦ ⟨_, rfl⟩, fun _ _ ↦ ⟨_, rfl, rfl⟩⟩

/-- A pull whose body has these bytes behind the prefix. -/
def pullUrl (url : Bytes) : Request := pullOf [.flagged false (imgurl ++ url)]

theorem serves_joined_two : Serves .smooth (pullUrl (lit "a|bc")) .fresh [lit "a", lit "bc"] :=
  (serves_joined_iff allSucceed_smooth ⟨by decide, by decide +kernel⟩ (by decide)).mpr
    ⟨lit "bc", rfl, by decide⟩

/-- A URL of one byte is not downloaded, and the plugin is run on no image at all. -/
theorem not_serves_single :
    AllSucceed .smooth ∧ Joinable [lit "a"] ∧
      assembledText (pullUrl (lit "a")) = some (imgurl ++ joinUrls [lit "a"]) ∧
      (ngxHttpGraphClientBodyHandler2 .smooth (pullUrl (lit "a")) .fresh).map
        (fun w ↦ (downloads w.trace, imageUrls w.trace)) = some ([], [[]]) ∧
      ¬Serves .smooth (pullUrl (lit "a")) .fresh [lit "a"] := by
  have hrun : (ngxHttpGraphClientBodyHandler2 .smooth (pullUrl (lit "a")) .fresh).map
      (fun w ↦ (downloads w.trace, imageUrls w.trace)) = some ([], [[]]) := by decide +kernel
  refine ⟨allSucceed_smooth, ⟨by decide, by decide +kernel⟩, by decide, hrun, ?_⟩
  rintro ⟨w', hw', hdown, -⟩
  rw [hw', Option.map_some, hdown] at hrun
  have hnone : downloads World.fresh.trace ++ [lit "a"] = [] :=
    congrArg Prod.fst (Option.some.inj hrun)
  exact absurd hnone (by simp)

end ImgPredictor
