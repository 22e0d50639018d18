import Mathlib.Data.List.Chain
import Mathlib.Data.List.Basic
import ImgPredictor.Graph.Finalize
import ImgPredictor.Graph.MissingBody
import ImgPredictor.Lib.Lists
import ImgPredictor.Statics.Log

/-!
# What the module ran, and what the statistics file it under

The module looks its arguments up by name, in any order.  The statistics read them off the request
line with a pattern, which wants `src` right behind `plugin`, both values made of word characters,
and takes the last such pair there is.

`agrees_iff` says when the two readings are the same.
-/

set_option autoImplicit false

namespace ImgPredictor

open Bytes Regex

/-! ## Pairs of arguments -/

/-- A text of word characters, at least one. -/
def IsWord (w : Bytes) : Prop := w ≠ [] ∧ ∀ b ∈ w, isWord b = true

/-- The argument ends in `plugin=` and the word. -/
def EndsInPlugin (arg plugin : Bytes) : Prop :=
  IsWord plugin ∧ lit "plugin=" ++ plugin <:+ arg

/-- The argument starts with `src=` and the word, which ends there. -/
def StartsWithSrc (arg src : Bytes) : Prop :=
  IsWord src ∧ ∃ rest, arg = lit "src=" ++ src ++ rest ∧ ∀ b ∈ rest.head?, isWord b = false

/-- Two arguments in a row name a plugin and a source. -/
def IsPair (arg next plugin src : Bytes) : Prop :=
  EndsInPlugin arg plugin ∧ StartsWithSrc next src

/-- No two arguments in a row do. -/
def NoPair (args : List Bytes) : Prop :=
  args.IsChain fun arg next ↦ ∀ plugin src, ¬ IsPair arg next plugin src

/-- The last two arguments in a row that do name these. -/
def LastPair (args : List Bytes) (plugin src : Bytes) : Prop :=
  ∃ before arg next after, args = before ++ arg :: next :: after ∧ IsPair arg next plugin src ∧
    NoPair (next :: after)

/-! ## The pattern -/

/-- The pattern behind its leading wildcard. -/
def pairPat : Pat UInt8 :=
  .seq (Regex.lit (lit "plugin=")) <| .seq (.group 1 (plus isWord)) <|
  .seq (Regex.lit (lit "&src=")) <| .seq (.group 2 (plus isWord)) (.many dot)

theorem requestPat_eq : requestPat = .seq (.many dot) pairPat := rfl

theorem requestOf_eq (request : Bytes) :
    requestOf request = (requestPat.captures request).map fun caps ↦
      ((caps.lookup 1).getD [], (caps.lookup 2).getD []) := by
  rw [requestOf, Pat.captures, Option.map_map]
  rfl

/-- The source, and whatever comes after it. -/
theorem captures_src (s : Bytes) :
    (Pat.seq (.group 2 (plus isWord)) (.many dot)).captures s =
      if s.takeWhile isWord = [] then none else some [(2, s.takeWhile isWord)] := by
  have hmany : ∀ t, (Pat.many dot).captures t = some [] := by
    intro t
    obtain ⟨others, ht, -⟩ := splits_eq_cons dot t
    simp [Pat.captures, Pat.first, Pat.hits, ht]
  rw [captures_plus_seq 2 (.inl (by simp [hmany]))]
  simp [hmany]

/-- What the pattern asks for between the two words. -/
theorem settled_plugin (s : Bytes) :
    Settled isWord (.seq (Regex.lit (lit "&src=")) <| .seq (.group 2 (plus isWord)) (.many dot))
      s := by
  refine .inr fun x t hx ↦ captures_lit_seq_eq_none _ fun hp ↦ ?_
  have hamp : lit "&src=" = 38 :: lit "src=" := by decide
  rw [hamp] at hp
  obtain ⟨rfl, -⟩ := List.cons_prefix_cons.mp hp
  exact absurd hx (by decide)

/-- The text up to a run, the run, and what stops it. -/
theorem isWord_takeWhile (s : Bytes) (h : s.takeWhile isWord ≠ []) :
    IsWord (s.takeWhile isWord) ∧ ∀ b ∈ (s.dropWhile isWord).head?, isWord b = false := by
  refine ⟨⟨h, fun b hb ↦ List.mem_takeWhile_imp hb⟩, fun b hb ↦ ?_⟩
  have := List.head?_dropWhile_not isWord s
  rw [Option.mem_def.mp hb] at this
  simpa using this

/-- **The pattern at one place of the text.** -/
theorem captures_pair_iff (s : Bytes) (caps : List (ℕ × Bytes)) :
    pairPat.captures s = some caps ↔ ∃ plugin src rest,
      s = lit "plugin=" ++ (plugin ++ (lit "&src=" ++ (src ++ rest))) ∧ IsWord plugin ∧
      IsWord src ∧ (∀ b ∈ rest.head?, isWord b = false) ∧ caps = [(1, plugin), (2, src)] := by
  rw [pairPat]
  constructor
  · intro h
    by_cases hp : lit "plugin=" <+: s
    · obtain ⟨s₁, rfl⟩ := hp
      rw [captures_lit_seq, captures_plus_seq 1 (settled_plugin s₁)] at h
      split at h
      · exact absurd h (by simp)
      · rename_i hplugin
        obtain ⟨hword, -⟩ := isWord_takeWhile s₁ hplugin
        by_cases hs : lit "&src=" <+: s₁.dropWhile isWord
        · obtain ⟨s₂, hs₂⟩ := hs
          rw [← hs₂, captures_lit_seq, captures_src] at h
          split at h
          · exact absurd h (by simp)
          · rename_i hsrc
            obtain ⟨hword', hrest⟩ := isWord_takeWhile s₂ hsrc
            refine ⟨s₁.takeWhile isWord, s₂.takeWhile isWord, s₂.dropWhile isWord, ?_, hword,
              hword', hrest, by simpa using h.symm⟩
            rw [List.takeWhile_append_dropWhile, hs₂, List.takeWhile_append_dropWhile]
        · rw [captures_lit_seq_eq_none _ hs] at h
          exact absurd h (by simp)
    · rw [captures_lit_seq_eq_none _ hp] at h
      exact absurd h (by simp)
  · rintro ⟨plugin, src, rest, rfl, hplugin, hsrc, hrest, rfl⟩
    obtain ⟨htake, hdrop⟩ := Lists.takeWhile_append_of_boundary hsrc.2 hrest
    have hamp : ∀ b ∈ (lit "&src=" ++ (src ++ rest)).head?, isWord b = false := by
      intro b hb
      obtain rfl : 38 = b := Option.some.inj hb
      decide
    obtain ⟨htake', hdrop'⟩ := Lists.takeWhile_append_of_boundary hplugin.2 hamp
    rw [captures_lit_seq, captures_plus_seq 1 (settled_plugin _), htake', if_neg hplugin.1, hdrop',
      captures_lit_seq, captures_src, htake, if_neg hsrc.1]
    rfl

/-! ## The pattern argument by argument -/

theorem notMem_of_isWord {w : Bytes} (hw : IsWord w) {c : UInt8} (hc : isWord c = false) : c ∉ w :=
  fun h ↦ absurd (hw.2 c h) (by simp [hc])

theorem takeWhile_ne_amp {a : Bytes} (ha : 38 ∉ a) (t : Bytes) :
    (a ++ t).takeWhile (· != 38) = a ++ t.takeWhile (· != 38) :=
  List.takeWhile_append_of_pos fun b hb ↦ by simpa using fun h : b = 38 ↦ ha (h ▸ hb)

/-- A text that starts with `src=` and a word does so before the first `&`. -/
theorem startsWithSrc_append {a : Bytes} (ha : 38 ∉ a) (t src : Bytes) :
    StartsWithSrc (a ++ 38 :: t) src ↔ StartsWithSrc a src := by
  refine and_congr_right fun hsrc ↦ ⟨?_, ?_⟩
  · rintro ⟨rest, h, hrest⟩
    have hamp : (38 : UInt8) ∉ lit "src=" ++ src := by
      rw [List.mem_append, not_or]
      exact ⟨by decide, notMem_of_isWord hsrc (by decide)⟩
    have hcut := congrArg (List.takeWhile (· != 38)) h
    rw [takeWhile_ne_amp ha, takeWhile_ne_amp hamp] at hcut
    refine ⟨rest.takeWhile (· != 38), by simpa using hcut, fun b hb ↦ hrest b ?_⟩
    cases rest with
    | nil => simp at hb
    | cons x rest =>
      rw [List.takeWhile_cons] at hb
      split at hb
      · exact hb
      · simp at hb
  · rintro ⟨rest, rfl, hrest⟩
    refine ⟨rest ++ 38 :: t, by simp, fun b hb ↦ ?_⟩
    cases rest with
    | nil =>
      obtain rfl : 38 = b := Option.some.inj hb
      decide
    | cons x rest => exact hrest b hb

/-- So it is its first argument that starts so. -/
theorem startsWithSrc_iff {t next : Bytes} {after : List Bytes} (h : t.splitOn 38 = next :: after)
    (src : Bytes) : StartsWithSrc t src ↔ StartsWithSrc next src := by
  induction t using Lists.separated_induction (38 : UInt8) with
  | piece a ha =>
    rw [List.splitOn_eq_singleton ha] at h
    rw [(List.cons.inj h).1]
  | more a t ha _ =>
    rw [List.splitOn_append_cons_self_of_not_mem ha] at h
    rw [startsWithSrc_append ha, (List.cons.inj h).1]

/-- The word an argument ends in. -/
theorem endsInPlugin_unique {a plugin plugin' : Bytes} (h : EndsInPlugin a plugin)
    (h' : EndsInPlugin a plugin') : plugin = plugin' := by
  have hword : ∀ {p : Bytes}, EndsInPlugin a p → a.reverse.takeWhile isWord = p.reverse := by
    rintro p ⟨hp, u, rfl⟩
    have hplugin : lit "plugin=" = lit "plugin" ++ [61] := by decide
    rw [hplugin]
    simp only [List.reverse_append, List.append_assoc, List.reverse_singleton]
    refine (Lists.takeWhile_append_of_boundary (fun b hb ↦ hp.2 b (by simpa using hb)) ?_).1
    intro b hb
    obtain rfl : 61 = b := Option.some.inj hb
    decide
  simpa using (hword h).symm.trans (hword h')

theorem startsWithSrc_unique {a src src' : Bytes} (h : StartsWithSrc a src)
    (h' : StartsWithSrc a src') : src = src' := by
  have hword : ∀ {s : Bytes}, StartsWithSrc a s → (a.drop 4).takeWhile isWord = s := by
    rintro s ⟨hs, rest, rfl, hrest⟩
    rw [List.append_assoc, List.drop_left' (by decide)]
    exact (Lists.takeWhile_append_of_boundary hs.2 hrest).1
  exact (hword h).symm.trans (hword h')

/-- The pattern at one place of an argument that an `&` follows. -/
theorem captures_pair_append {a : Bytes} (ha : 38 ∉ a) (t : Bytes) (caps : List (ℕ × Bytes)) :
    pairPat.captures (a ++ 38 :: t) = some caps ↔ ∃ plugin src, a = lit "plugin=" ++ plugin ∧
      IsWord plugin ∧ StartsWithSrc t src ∧ caps = [(1, plugin), (2, src)] := by
  have hamp : lit "&src=" = 38 :: lit "src=" := by decide
  rw [captures_pair_iff]
  constructor
  · rintro ⟨plugin, src, rest, h, hplugin, hsrc, hrest, rfl⟩
    rw [hamp, List.cons_append, ← List.append_assoc] at h
    have hnot : (38 : UInt8) ∉ lit "plugin=" ++ plugin := by
      rw [List.mem_append, not_or]
      exact ⟨by decide, notMem_of_isWord hplugin (by decide)⟩
    obtain ⟨rfl, rfl⟩ := Lists.append_cons_inj_of_notMem ha hnot h
    exact ⟨plugin, src, rfl, hplugin, ⟨hsrc, rest, by simp, hrest⟩, rfl⟩
  · rintro ⟨plugin, src, rfl, hplugin, ⟨hsrc, rest, rfl, hrest⟩, rfl⟩
    exact ⟨plugin, src, rest, by simp [hamp], hplugin, hsrc, hrest, rfl⟩

theorem endsInPlugin_cons_iff {x : UInt8} {a plugin : Bytes} :
    EndsInPlugin (x :: a) plugin ↔
      (x :: a = lit "plugin=" ++ plugin ∧ IsWord plugin) ∨ EndsInPlugin a plugin := by
  rw [EndsInPlugin, EndsInPlugin, List.suffix_cons_iff, eq_comm (a := x :: a)]
  grind

theorem not_endsInPlugin_nil (plugin : Bytes) : ¬ EndsInPlugin [] plugin := by
  intro h
  have := List.suffix_nil.mp h.2
  simp at this
  exact h.1.1 this.2

theorem captures_pair_amp (t : Bytes) : pairPat.captures (38 :: t) = none := by
  refine captures_lit_seq_eq_none _ fun hp ↦ ?_
  have hlit : lit "plugin=" = 112 :: lit "lugin=" := by decide
  rw [hlit] at hp
  exact absurd (List.cons_prefix_cons.mp hp).1 (by decide)

/-- A place of the line comes after all the places behind it. -/
theorem captures_cons {x : UInt8} (hx : x ≠ 10) (s : Bytes) :
    requestPat.captures (x :: s) = (requestPat.captures s).or (pairPat.captures (x :: s)) := by
  rw [requestPat_eq, captures_many_seq_cons _ (by simpa [dot] using hx)]

/-- **One argument of the line**: the pattern prefers what it finds behind it. -/
theorem captures_append {a : Bytes} (ha : 38 ∉ a) (hline : 10 ∉ a) (t : Bytes)
    (caps : List (ℕ × Bytes)) :
    requestPat.captures (a ++ 38 :: t) = some caps ↔ requestPat.captures t = some caps ∨
      (requestPat.captures t = none ∧ ∃ plugin src, EndsInPlugin a plugin ∧ StartsWithSrc t src ∧
        caps = [(1, plugin), (2, src)]) := by
  induction a generalizing caps with
  | nil =>
    rw [List.nil_append, captures_cons (by decide), captures_pair_amp, Option.or_none]
    simp [not_endsInPlugin_nil]
  | cons x a ih =>
    rw [List.mem_cons, not_or] at ha hline
    have hrest := ih ha.2 hline.2
    have hhere := captures_pair_append (a := x :: a) (by simpa using ha) t
    rw [List.cons_append] at hhere ⊢
    rw [captures_cons (Ne.symm hline.1), Option.or_eq_some_iff]
    constructor
    · rintro (h | ⟨hnone, h⟩)
      · rcases (hrest caps).mp h with h | ⟨ht, plugin, src, hends, h⟩
        · exact .inl h
        · exact .inr ⟨ht, plugin, src, endsInPlugin_cons_iff.mpr (.inr hends), h⟩
      · obtain ⟨plugin, src, heq, hword, h⟩ := (hhere caps).mp h
        refine .inr ⟨?_, plugin, src, endsInPlugin_cons_iff.mpr (.inl ⟨heq, hword⟩), h⟩
        cases ht : requestPat.captures t with
        | none => rfl
        | some caps' => exact absurd ((hrest caps').mpr (.inl ht)) (by simp [hnone])
    · rintro (h | ⟨ht, plugin, src, hends, hsrc, rfl⟩)
      · exact .inl ((hrest caps).mpr (.inl h))
      · -- the rest of the argument has no other pair than this one
        cases hr : requestPat.captures (a ++ 38 :: t) with
        | some caps' =>
          rcases (hrest caps').mp hr with h | ⟨-, plugin', src', hends', hsrc', rfl⟩
          · exact absurd h (by simp [ht])
          · obtain rfl := endsInPlugin_unique hends (endsInPlugin_cons_iff.mpr (.inr hends'))
            obtain rfl := startsWithSrc_unique hsrc hsrc'
            exact .inl rfl
        | none =>
          refine .inr ⟨rfl, (hhere _).mpr ?_⟩
          rcases endsInPlugin_cons_iff.mp hends with ⟨heq, hword⟩ | hends
          · exact ⟨plugin, src, heq, hword, hsrc, rfl⟩
          · exact absurd ((hrest _).mpr (.inr ⟨ht, plugin, src, hends, hsrc, rfl⟩)) (by simp [hr])

/-- A text without an `&` has no pair. -/
theorem captures_eq_none {a : Bytes} (ha : 38 ∉ a) (hline : 10 ∉ a) :
    requestPat.captures a = none := by
  have hpair : ∀ s : Bytes, 38 ∉ s → pairPat.captures s = none := by
    intro s hs
    rw [Option.eq_none_iff_forall_ne_some]
    intro caps hcaps
    obtain ⟨plugin, src, rest, rfl, -⟩ := (captures_pair_iff s caps).mp hcaps
    have : (38 : UInt8) ∈ lit "&src=" := by decide
    simp [this] at hs
  induction a with
  | nil => rw [requestPat_eq, captures_many_seq_nil, hpair [] ha]
  | cons x a ih =>
    have hx : x ≠ 10 := fun heq ↦ hline (heq ▸ List.mem_cons_self)
    rw [captures_cons hx, hpair _ ha, ih (fun h ↦ ha (.tail _ h)) fun h ↦ hline (.tail _ h)]
    rfl

theorem noPair_cons_iff {a next : Bytes} {after : List Bytes} :
    NoPair (a :: next :: after) ↔ (∀ plugin src, ¬ IsPair a next plugin src) ∧
      NoPair (next :: after) :=
  List.isChain_cons_cons

theorem lastPair_cons_iff {a next plugin src : Bytes} {after : List Bytes} :
    LastPair (a :: next :: after) plugin src ↔ LastPair (next :: after) plugin src ∨
      (NoPair (next :: after) ∧ IsPair a next plugin src) := by
  constructor
  · rintro ⟨before, arg, next', after', h, hpair, hno⟩
    cases before with
    | nil =>
      obtain ⟨rfl, htail⟩ := List.cons.inj h
      obtain ⟨rfl, rfl⟩ := List.cons.inj htail
      exact .inr ⟨hno, hpair⟩
    | cons b before =>
      obtain ⟨rfl, htail⟩ := List.cons.inj h
      exact .inl ⟨before, arg, next', after', htail, hpair, hno⟩
  · rintro (⟨before, arg, next', after', h, hpair, hno⟩ | ⟨hno, hpair⟩)
    · exact ⟨a :: before, arg, next', after', by rw [h, List.cons_append], hpair, hno⟩
    · exact ⟨[], a, next, after, rfl, hpair, hno⟩

/-- **What the pattern captures**: the last pair of arguments there is. -/
theorem captures_iff {line : Bytes} (hline : 10 ∉ line) :
    (∀ caps, requestPat.captures line = some caps ↔ ∃ plugin src,
      LastPair (line.splitOn 38) plugin src ∧ caps = [(1, plugin), (2, src)]) ∧
    (requestPat.captures line = none ↔ NoPair (line.splitOn 38)) := by
  induction line using Lists.separated_induction (38 : UInt8) with
  | piece a ha =>
    rw [captures_eq_none ha hline, List.splitOn_eq_singleton ha]
    refine ⟨fun caps ↦ iff_of_false (by simp) ?_, iff_of_true rfl (.singleton _)⟩
    rintro ⟨plugin, src, ⟨before, arg, next, after, h, -⟩, -⟩
    have := congrArg List.length h
    simp at this
    omega
  | more a t ha ih =>
    have hna : (10 : UInt8) ∉ a := fun h ↦ hline (List.mem_append_left _ h)
    have hnt : (10 : UInt8) ∉ t := fun h ↦ hline (List.mem_append_right _ (.tail _ h))
    obtain ⟨hsome, hnone⟩ := ih hnt
    have hstep := captures_append ha hna t
    rw [List.splitOn_append_cons_self_of_not_mem ha]
    cases hsplit : t.splitOn 38 with
    | nil => exact absurd hsplit (List.splitOn_ne_nil 38 t)
    | cons next after =>
      rw [hsplit] at hsome hnone
      have hsrc := startsWithSrc_iff hsplit
      constructor
      · intro caps
        simp only [hstep, hsome, hnone, lastPair_cons_iff, IsPair, hsrc]
        grind
      · rw [noPair_cons_iff, ← hnone, Option.eq_none_iff_forall_ne_some]
        simp only [ne_eq, hstep, hsrc, IsPair, Option.eq_none_iff_forall_ne_some]
        grind

theorem requestOf_iff {request : Bytes} (hline : 10 ∉ request) (plugin src : Bytes) :
    requestOf request = some (plugin, src) ↔ LastPair (request.splitOn 38) plugin src := by
  rw [requestOf_eq, Option.map_eq_some_iff]
  simp only [(captures_iff hline).1]
  constructor
  · rintro ⟨caps, ⟨plugin', src', hlast, rfl⟩, h⟩
    obtain ⟨rfl, rfl⟩ : plugin' = plugin ∧ src' = src := by
      simpa [List.lookup_cons] using h
    exact hlast
  · exact fun h ↦ ⟨_, ⟨plugin, src, h, rfl⟩, by simp [List.lookup_cons]⟩

/-! ## The module and the statistics -/

/-- The request line of a request with this query string, as the error log has it. -/
structure RequestLine (args : Bytes) where
  /-- The method and the path. -/
  before : Bytes
  /-- What comes after the query string. -/
  after : Bytes
  /-- It is one line. -/
  oneLine : 10 ∉ before ++ lit "?" ++ args ++ after

/-- The text of a request line. -/
def RequestLine.text {args : Bytes} (line : RequestLine args) : Bytes :=
  line.before ++ lit "?" ++ args ++ line.after

/-- The module runs a plugin for a request, under a source: these are the arguments it looks up, and
a process handler is called. -/
structure Runs (env : Env) (value : Slice) (r : Request) (name : Bytes) (arrivals : List Arrival)
    (w : World) (plugin src : Bytes) : Prop where
  /-- The `plugin` argument. -/
  pluginArg : argOf r (lit "plugin") = some plugin
  /-- The `src` argument. -/
  srcArg : argOf r (lit "src") = some src
  /-- The handler has the body read, and the callback runs the plugin. -/
  runs : ∃ r' handler w' events, ngxHttpGraphHandler value r = .read r' handler ∧
    Delivers r' arrivals ∧
    handler.run env (ngxHttpReadClientRequestBody r' name arrivals) w = some w' ∧
    w'.trace = w.trace ++ events ∧
    ∃ images extPara sym ext, .runProcess plugin images extPara ∈ events ∧
      .process sym images ext ∈ events

/-- The pattern yields what the module looked up. -/
def Agrees (r : Request) (line : RequestLine r.args) : Prop :=
  ∃ plugin src, argOf r (lit "plugin") = some plugin ∧ argOf r (lit "src") = some src ∧
    requestOf line.text = some (plugin, src)

/-- **The statistics file a request under what the module ran** exactly if the last pair of
arguments in the request line is the one the module looked up. -/
theorem agrees_iff {env : Env} {value : Slice} {r : Request} {name : Bytes}
    {arrivals : List Arrival} {w : World} {plugin src : Bytes}
    (hrun : Runs env value r name arrivals w plugin src) (line : RequestLine r.args) :
    Agrees r line ↔ LastPair (line.text.splitOn 38) plugin src := by
  rw [RequestLine.text, ← requestOf_iff line.oneLine, Agrees, hrun.pluginArg, hrun.srcArg]
  constructor
  · rintro ⟨plugin', src', hplugin, hsrc, h⟩
    obtain rfl := Option.some.inj hplugin
    obtain rfl := Option.some.inj hsrc
    exact h
  · exact fun h ↦ ⟨plugin, src, rfl, rfl, h⟩

/-- A push to the plugin `face`, with the arguments the other way round. -/
def pushFace : Request := { postPush with args := lit "plugin=face&src=push" }

/-- `POST /i?… HTTP/1.1` -/
def lineOf (args : Bytes) (h : 10 ∉ lit " \x22POST /i" ++ lit "?" ++ args ++ lit " HTTP/1.1\x22") :
    RequestLine args :=
  ⟨lit " \x22POST /i", lit " HTTP/1.1\x22", h⟩

/-- What a push to `face` leaves in the trace. -/
def pushTrace : List Event :=
  [.runProcess (lit "face") [(lit "0001", lit "pushed_image")] [],
    .process 3 [(lit "0001", lit "pushed_image")] none, .returned 0 (lit "\x7b\x7d"),
    .logError (lit ", res_json:\x7b\x7d"), .output (lit "\x7b\x7d"), .clientSend 0, .finalize 0]

theorem runs_of_pushTrace {r : Request} (hplugin : argOf r (lit "plugin") = some (lit "face"))
    (hsrc : argOf r (lit "src") = some (lit "push"))
    (hread : ngxHttpGraphHandler ⟨[], 0⟩ r = .read r.forPush .handler1)
    (hdelivers : Delivers r.forPush [⟨[(lit "GIF", [])], true, false⟩])
    (htrace : (BodyHandler.run .smooth (ngxHttpReadClientRequestBody r.forPush (lit "0001")
      [⟨[(lit "GIF", [])], true, false⟩]) .withFace .handler1).map World.trace = some pushTrace) :
    Runs .smooth ⟨[], 0⟩ r (lit "0001") [⟨[(lit "GIF", [])], true, false⟩] .withFace (lit "face")
      (lit "push") := by
  obtain ⟨w', hw', ht⟩ := Option.map_eq_some_iff.mp htrace
  refine ⟨hplugin, hsrc, r.forPush, .handler1, w', pushTrace, hread, hdelivers, hw', ht, ?_⟩
  exact ⟨_, _, _, _, .head _, .tail _ (.head _)⟩

theorem agrees_pushFace : Agrees pushFace (lineOf pushFace.args (by decide)) := by
  have hdelivers : Delivers pushFace.forPush [⟨[(lit "GIF", [])], true, false⟩] :=
    ⟨by decide, fun _ ↦ ⟨[], _, rfl, rfl, by decide⟩, fun _ _ ↦ rfl, by decide⟩
  refine (agrees_iff (runs_of_pushTrace (by decide) (by decide) (by decide) hdelivers
    (by decide +kernel)) _).mpr ?_
  refine ⟨[], lit " \x22POST /i?plugin=face", lit "src=push HTTP/1.1\x22", [], by decide +kernel,
    ⟨⟨⟨by decide, by decide +kernel⟩, ⟨lit " \x22POST /i?", by decide⟩⟩,
      ⟨by decide, by decide +kernel⟩, lit " HTTP/1.1\x22", by decide, by decide +kernel⟩,
    .singleton _⟩

/-- With `src` in front of `plugin` the module runs the plugin, and the statistics find no pair. -/
theorem not_agrees_postPush :
    Runs .smooth ⟨[], 0⟩ postPush (lit "0001") [⟨[(lit "GIF", [])], true, false⟩] .withFace
        (lit "face") (lit "push") ∧
      requestOf (lineOf postPush.args (by decide)).text = none ∧
      ¬ Agrees postPush (lineOf postPush.args (by decide)) := by
  have hdelivers : Delivers postPush.forPush [⟨[(lit "GIF", [])], true, false⟩] :=
    ⟨by decide, fun _ ↦ ⟨[], _, rfl, rfl, by decide⟩, fun _ _ ↦ rfl, by decide⟩
  have hnone : requestOf (lineOf postPush.args (by decide)).text = none := by decide +kernel
  refine ⟨runs_of_pushTrace (by decide) (by decide) (by decide) hdelivers (by decide +kernel),
    hnone, ?_⟩
  rintro ⟨plugin, src, -, -, h⟩
  exact absurd (hnone.symm.trans h) (by simp)

end ImgPredictor
