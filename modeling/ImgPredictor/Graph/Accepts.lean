import ImgPredictor.Graph.Finalize

/-!
# Which bodies a pull reads in full

A pull that gets to its plugin should have read the whole body: joining the URLs it downloaded and
putting the prefix in front should give the body back.  Whatever is wrong with a body should have
ended the request before that.

The loop drops what it does not look at: a last byte that stands alone behind a separator or the
prefix, a separator at the end, and everything from a NUL on.  `join_urlsOf_iff` says that these are
the only losses, and `reads_whole_body_iff` what this means for the callback.
-/

set_option autoImplicit false

namespace ImgPredictor

open Bytes

/-! ## What the loop drops -/

/-- The text has no NUL, and ends in two bytes that are no separators. -/
def Unclipped (s : Bytes) : Prop := 0 ∉ s ∧ ∃ t a b, s = t ++ [a, b] ∧ a ≠ 124 ∧ b ≠ 124

theorem two_le_length_iff {α : Type} (s : List α) :
    2 ≤ s.length ↔ ∃ t a b, s = t ++ [a, b] := by
  constructor
  · intro h
    rcases List.eq_nil_or_concat s with rfl | ⟨s, b, rfl⟩
    · exact absurd h (by simp)
    rcases List.eq_nil_or_concat s with rfl | ⟨t, a, rfl⟩
    · exact absurd h (by simp)
    exact ⟨t, a, b, by simp⟩
  · rintro ⟨t, a, b, rfl⟩
    simp

/-- In a text without separators it is the length that counts. -/
theorem unclipped_piece {a : Bytes} (ha : 124 ∉ a) (h0 : 0 ∉ a) : Unclipped a ↔ 2 ≤ a.length := by
  rw [Unclipped, and_iff_right h0, two_le_length_iff]
  constructor
  · rintro ⟨t, x, y, rfl, -, -⟩
    exact ⟨t, x, y, rfl⟩
  · rintro ⟨t, x, y, rfl⟩
    simp only [List.mem_append, List.mem_cons, not_or] at ha
    exact ⟨t, x, y, rfl, Ne.symm ha.2.1, Ne.symm ha.2.2.1⟩

/-- What stands behind a separator decides. -/
theorem unclipped_more {a : Bytes} (h0 : 0 ∉ a) (t : Bytes) :
    Unclipped (a ++ 124 :: t) ↔ Unclipped t := by
  have hnul : 0 ∉ a ++ 124 :: t ↔ 0 ∉ t := by simp [h0]
  rw [Unclipped, Unclipped, hnul]
  refine and_congr_right fun _ ↦ ?_
  constructor
  · rintro ⟨u, x, y, heq, hx, hy⟩
    rcases List.eq_nil_or_concat t with rfl | ⟨t, y', rfl⟩
    · -- the text ends in the separator
      have := (List.append_inj' (show a ++ [124] = (u ++ [x]) ++ [y] by simpa using heq) rfl).2
      exact absurd (List.singleton_inj.mp this).symm hy
    rcases List.eq_nil_or_concat t with rfl | ⟨t, x', rfl⟩
    · -- one byte stands behind it
      have := (List.append_inj' (show a ++ [124, y'] = u ++ [x, y] by simpa using heq) rfl).2
      exact absurd (List.cons.inj this).1.symm hx
    have := (List.append_inj' (show (a ++ 124 :: t) ++ [x', y'] = u ++ [x, y] by simpa using heq)
      rfl).2
    obtain ⟨rfl, hy'⟩ := List.cons.inj this
    obtain rfl := List.singleton_inj.mp hy'
    exact ⟨t, x', y', by simp, hx, hy⟩
  · rintro ⟨u, x, y, rfl, hx, hy⟩
    exact ⟨a ++ 124 :: u, x, y, by simp, hx, hy⟩

/-- What follows a NUL is dropped. -/
theorem urlsOf_nul {u v : Bytes} (hu : ∀ b ∈ u, isUrlByte b = true) :
    urlsOf (u ++ 0 :: v) = [] ∨ urlsOf (u ++ 0 :: v) = [u] := by
  have hstop : ∀ b ∈ (0 :: v).head?, isUrlByte b = false := by
    rintro _ ⟨⟩
    rfl
  obtain ⟨htake, hdrop⟩ := Lists.takeWhile_append_of_boundary hu hstop
  rw [urlsOf, htake, hdrop]
  split
  · exact .inl rfl
  · exact .inr rfl

theorem isUrlByte_of_notMem {a : Bytes} (ha : 124 ∉ a) (h0 : 0 ∉ a) :
    ∀ b ∈ a, isUrlByte b = true := by
  intro b hb
  have hbar : b ≠ 124 := fun h ↦ ha (h ▸ hb)
  have hnul : b ≠ 0 := fun h ↦ h0 (h ▸ hb)
  simp [isUrlByte, hbar, hnul]

/-- A text with a NUL in its first piece does not come back. -/
theorem join_urlsOf_nul {a : Bytes} (ha : 124 ∉ a) (h0 : 0 ∈ a) (t : Bytes) :
    joinUrls (urlsOf (a ++ t)) ≠ a ++ t := by
  obtain ⟨u, v, rfl, hu⟩ := List.eq_append_cons_of_mem h0
  have hbar : 124 ∉ u := fun h ↦ ha (List.mem_append_left _ h)
  rw [List.append_assoc, List.cons_append]
  rcases urlsOf_nul (v := v ++ t) (isUrlByte_of_notMem hbar hu) with h | h
  · rw [h]
    simp [joinUrls]
  · rw [h, joinUrls, List.intercalate_singleton]
    intro heq
    have := congrArg List.length heq
    simp at this

/-- **Joining the URLs gives the text back, and there is one, exactly when nothing is clipped.** -/
theorem join_urlsOf_iff (s : Bytes) :
    urlsOf s ≠ [] ∧ joinUrls (urlsOf s) = s ↔ Unclipped s := by
  induction s using Lists.separated_induction (124 : UInt8) with
  | piece a ha =>
    by_cases h0 : 0 ∈ a
    · refine iff_of_false (fun h ↦ ?_) fun h ↦ h.1 h0
      exact join_urlsOf_nul ha h0 [] (by simpa using h.2)
    · rw [unclipped_piece ha h0, urlsOf_last (isUrlByte_of_notMem ha h0)]
      split
      · rename_i hlen
        exact iff_of_false (fun h ↦ h.1 rfl) (by omega)
      · rename_i hlen
        refine iff_of_true ⟨by simp, ?_⟩ (by omega)
        rw [joinUrls, List.intercalate_singleton]
  | more a t ha ih =>
    by_cases h0 : 0 ∈ a
    · exact iff_of_false (fun h ↦ join_urlsOf_nul ha h0 _ h.2)
        fun h ↦ h.1 (List.mem_append_left _ h0)
    · rw [unclipped_more h0, ← ih]
      by_cases hshort : a ≠ [] ∨ t ≠ []
      · rw [urlsOf_bar (isUrlByte_of_notMem ha h0) hshort]
        rcases hurls : urlsOf t with _ | ⟨url, urls⟩
        · -- the separator is not joined back
          refine iff_of_false (fun h ↦ ?_) fun h ↦ h.1 rfl
          have := congrArg List.length h.2
          simp [joinUrls] at this
        · rw [joinUrls, joinUrls, List.intercalate_cons_cons]
          simp
      · obtain ⟨rfl, rfl⟩ : a = [] ∧ t = [] := by simpa [not_or] using hshort
        -- a separator and nothing else
        have hbar : urlsOf [124] = [] := by rw [urlsOf, if_pos (by decide)]
        have hnil : urlsOf [] = [] := by rw [urlsOf, if_pos (by decide)]
        simp [hbar, hnil]

/-! ## The callback -/

/-- The plugin is run only on a body that was read in full, and on an image at least; otherwise the
request ends with an error. -/
def ReadsWholeBody (env : Env) (r : Request) (w : World) (body : Bytes) : Prop :=
  ∃ w' events, ngxHttpGraphClientBodyHandler2 env r w = some w' ∧ w'.trace = w.trace ++ events ∧
    (∀ urls ∈ imageUrls events, urls ≠ [] ∧ urls = downloads events ∧
      imgurl ++ joinUrls urls = body) ∧
    (imageUrls events = [] → finalizes events ≠ [] ∧ ∀ rc ∈ finalizes events, rc ≠ ngxOk)

theorem fetchImages_isSome_iff (env : Env) (k : ℕ) (urls : List Bytes) :
    (fetchImages env k urls).isSome = true ↔ StepsSucceed env k urls := by
  constructor
  · intro h
    induction urls generalizing k with
    | nil => exact fun i url hi ↦ absurd hi (by simp)
    | cons url urls ih =>
      rw [fetchImages] at h
      split at h
      · rename_i name hname
        split at h
        · rename_i hok
          obtain ⟨t, ht, hok⟩ : ∃ t, env.curl k url = some t ∧ t.ok = true := by
            rcases hc : env.curl k url with _ | t
            · exact absurd hok (by simp [hc])
            · exact ⟨t, rfl, by simpa [hc] using hok⟩
          intro i u hi
          rcases i with _ | i
          · obtain rfl := Option.some.inj hi
            exact ⟨⟨name, hname⟩, t, ht, hok⟩
          · have := ih (k + 1) (by simpa using h) i u (by simpa using hi)
            rwa [show k + 1 + i = k + (i + 1) by omega] at this
        · exact absurd h (by simp)
      · exact absurd h (by simp)
  · intro h
    obtain ⟨-, images, himages, -⟩ := fetch_succeeds h
    simp [himages]

/-- The plugin is reached: the prefix is there, the steps of the downloads succeed, and the request
names a plugin. -/
structure Reaches (env : Env) (r : Request) (body : Bytes) : Prop where
  /-- The prefix is there. -/
  imgurl : imgurl <+: body
  /-- The downloads succeed. -/
  steps : StepsSucceed env 0 (urlsOfText body)
  /-- The request names a plugin. -/
  names : r.NamesPlugin

/-- What a pull that reaches its plugin shows. -/
theorem pullEvents_of_reaches {env : Env} {r : Request} {body : Bytes} (h : Reaches env r body)
    (glcf : LocConf) :
    imageUrls (pullEvents env r glcf body) = [urlsOfText body] ∧
      downloads (pullEvents env r glcf body) = urlsOfText body := by
  have hurls : urlsOfText body = urlsOf (body.drop 7) := by rw [urlsOfText, if_pos h.imgurl]
  obtain ⟨hdown, images, himages, hsnd⟩ := fetch_succeeds h.steps
  obtain ⟨hpdown, hpruns⟩ := pluginEvents_imageUrls env r glcf images
  rw [hurls] at hdown himages hsnd ⊢
  rw [pullEvents, if_pos h.imgurl, himages]
  simp only [imageUrls_append, downloads_append, imageUrls_fetchEvents, hpruns, if_pos h.names,
    hpdown, hdown, hsnd]
  exact ⟨rfl, List.append_nil _⟩

/-- A pull that does not reach it calls no plugin. -/
theorem imageUrls_of_not_reaches {env : Env} {r : Request} {body : Bytes}
    (h : ¬Reaches env r body) (glcf : LocConf) : imageUrls (pullEvents env r glcf body) = [] := by
  rw [pullEvents]
  split
  · rename_i hp
    rw [imageUrls_append, imageUrls_fetchEvents, List.nil_append]
    rcases hf : fetchImages env 0 (urlsOf (body.drop 7)) with _ | images
    · rfl
    · have hsteps : StepsSucceed env 0 (urlsOfText body) := by
        rw [urlsOfText, if_pos hp, ← fetchImages_isSome_iff, hf]
        rfl
      rw [(pluginEvents_imageUrls env r glcf images).2, if_neg fun hn ↦ h ⟨hp, hsteps, hn⟩]
  · rfl

/-- An answer needs a plugin to ask, and the images to ask it about. -/
theorem reaches_of_answered {env : Env} {r : Request} {glcf : LocConf} {body : Bytes}
    (h : Answered env r glcf body) : Reaches env r body := by
  obtain ⟨hp, images, hf, res, hres, -⟩ := h
  refine ⟨hp, ?_, ?_⟩
  · rw [← fetchImages_isSome_iff, hf]
    rfl
  · rw [namesPlugin_iff glcf]
    obtain ⟨args, hargs, -⟩ := Option.map_eq_some_iff.mp hres
    rw [hargs]
    rfl

/-- A pull that does not reach it shows that it was refused. -/
theorem pullEvents_of_not_reaches {env : Env} {r : Request} {body : Bytes}
    (h : ¬Reaches env r body) (glcf : LocConf) :
    imageUrls (pullEvents env r glcf body) = [] ∧
      finalizes (pullEvents env r glcf body) ≠ [] ∧
      ∀ rc ∈ finalizes (pullEvents env r glcf body), rc ≠ ngxOk := by
  obtain ⟨rc, hcodes, hrc⟩ := finalizes_pullEvents env r glcf body
  have hne : rc ≠ ngxOk := fun hok ↦ h (reaches_of_answered (hrc.mp hok))
  refine ⟨imageUrls_of_not_reaches h glcf, by rw [hcodes]; simp, fun c hc ↦ ?_⟩
  rw [hcodes, List.mem_append, List.mem_singleton] at hc
  rcases hc with hc | rfl
  · obtain ⟨chunk, -, hc⟩ := List.mem_flatMap.mp hc
    exact Chunk.ne_ngxOk_of_mem_codes hc
  · exact hne

/-- A pull reads its whole body exactly when nothing is clipped, or it does not reach its plugin. -/
theorem readsWholeBody_iff_reaches {env : Env} {r : Request} {body : Bytes} (w : World)
    (htext : assembledText r = some body) :
    ReadsWholeBody env r w body ↔ (Reaches env r body → Unclipped (body.drop 7)) := by
  obtain ⟨w', hw', htrace⟩ := handler2_trace env w htext
  have hreads : ReadsWholeBody env r w body ↔
      (∀ urls ∈ imageUrls (pullEvents env r w.glcf body), urls ≠ [] ∧
        urls = downloads (pullEvents env r w.glcf body) ∧ imgurl ++ joinUrls urls = body) ∧
      (imageUrls (pullEvents env r w.glcf body) = [] →
        finalizes (pullEvents env r w.glcf body) ≠ [] ∧
          ∀ rc ∈ finalizes (pullEvents env r w.glcf body), rc ≠ ngxOk) := by
    constructor
    · rintro ⟨v, events, hv, htrace', h⟩
      obtain rfl := Option.some.inj (hw'.symm.trans hv)
      obtain rfl := List.append_cancel_left (htrace.symm.trans htrace')
      exact h
    · exact fun h ↦ ⟨w', _, hw', htrace, h⟩
  rw [hreads]
  by_cases hr : Reaches env r body
  · obtain ⟨himages, hdown⟩ := pullEvents_of_reaches hr w.glcf
    have hbody : body = imgurl ++ body.drop 7 := by
      obtain ⟨s, rfl⟩ := hr.imgurl
      rw [List.drop_left' (by decide)]
    have hurls : urlsOfText body = urlsOf (body.drop 7) := by rw [urlsOfText, if_pos hr.imgurl]
    have hback : imgurl ++ joinUrls (urlsOf (body.drop 7)) = body
        ↔ joinUrls (urlsOf (body.drop 7)) = body.drop 7 := by
      nth_rewrite 2 [hbody]
      exact List.append_right_inj _
    rw [himages, hdown, hurls, ← join_urlsOf_iff, ← hback]
    simp [hr]
  · obtain ⟨himages, hfin⟩ := pullEvents_of_not_reaches hr w.glcf
    rw [himages]
    exact iff_of_true ⟨by simp, fun _ ↦ hfin⟩ fun h ↦ absurd h hr

theorem reaches_smooth {body : Bytes} (h : imgurl <+: body) :
    assembledText (pullOf [.flagged false body]) = some body ∧
      Reaches .smooth (pullOf [.flagged false body]) body := by
  have hbody : InMemoryBody (pullOf [.flagged false body]) [.flagged false body] :=
    inMemoryBody_pullOf (by simp) (by simp [Buf.flagged])
  have hnames : (pullOf [.flagged false body]).NamesPlugin := by
    right
    rw [argOf_eq]
    show (argValue (lit "src=pull&plugin=face") (lit "plugin")).isSome = true
    decide
  exact ⟨assembledText_single hbody, h, allSucceed_smooth.steps _ _, hnames⟩

/-- **A body is read in full, whenever it gets a pull to its plugin, exactly when it has no NUL
behind the prefix and ends there in two bytes that are no separators**; and that is also what it
comes down to for a single pull, unless this pull does not reach its plugin. -/
theorem reads_whole_body_iff (body : Bytes) :
    ((∀ env r w, assembledText r = some body → ReadsWholeBody env r w body) ↔
      (imgurl <+: body → Unclipped (body.drop 7))) ∧
      ∀ env r w, assembledText r = some body →
        (ReadsWholeBody env r w body ↔ (Reaches env r body → Unclipped (body.drop 7))) := by
  refine ⟨⟨fun h hp ↦ ?_, fun h env r w htext ↦ ?_⟩, fun env r w htext ↦
    readsWholeBody_iff_reaches w htext⟩
  · -- a request with that body for which all goes well
    obtain ⟨htext, hreaches⟩ := reaches_smooth hp
    exact (readsWholeBody_iff_reaches .fresh htext).mp (h _ _ _ htext) hreaches
  · exact (readsWholeBody_iff_reaches w htext).mpr fun hr ↦ h hr.imgurl

/-- A body with nothing behind the prefix gets to the plugin, with no image. -/
theorem reads_no_body :
    assembledText (pullUrl []) = some imgurl ∧
      (ngxHttpGraphClientBodyHandler2 .smooth (pullUrl []) .withFace).map
        (fun w ↦ (imageUrls w.trace, finalizes w.trace)) = some ([[]], [ngxOk]) ∧
      ¬ReadsWholeBody .smooth (pullUrl []) .withFace imgurl := by
  have hrun : (ngxHttpGraphClientBodyHandler2 .smooth (pullUrl []) .withFace).map
      (fun w ↦ (imageUrls w.trace, finalizes w.trace)) = some ([[]], [ngxOk]) := by decide +kernel
  refine ⟨by decide, hrun, ?_⟩
  rintro ⟨w', events, hw', htrace, himages, -⟩
  rw [hw', Option.map_some, htrace] at hrun
  have hone : imageUrls events = [[]] := congrArg Prod.fst (Option.some.inj hrun)
  exact (himages [] (by simp [hone])).1 rfl

end ImgPredictor
