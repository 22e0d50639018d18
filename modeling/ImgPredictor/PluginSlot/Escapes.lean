import ImgPredictor.PluginSlot.Process

/-!
# What an escape decodes to

An encoding has none but good escapes, and there the decoder does what it should.  This file is
about the others.  `sscanf` is not asked whether it converted anything, so a bad escape is not an
error: the loop writes a byte for it, the one left over in `ii`.

* `decodeRefused_iff` — so decoding does not fail, and `run_process_by_name` does not give up.
* `local_iff` — a byte may come from an escape before, or from the uninitialised variable; the
  condition is when it does not.

The index is an `int` like the length.  An escape that breaks off at the very end of a string of
`2^31 - 2` bytes or more moves it past the largest `int`, which C++ leaves undefined; `local_iff`
keeps clear of these two lengths.
-/

set_option autoImplicit false

namespace ImgPredictor

open Bytes

/-! ## Where escapes begin and end -/

/-- The string does not end inside an escape. -/
inductive Whole : Bytes → Prop
  /-- Nothing is left. -/
  | nil : Whole []
  /-- A byte that does not start an escape. -/
  | raw {b : UInt8} {s : Bytes} : b ≠ 37 → Whole s → Whole (b :: s)
  /-- An escape takes the two bytes behind it along, whatever they are. -/
  | escape {h l : UInt8} {s : Bytes} : Whole s → Whole (37 :: h :: l :: s)

/-- Two hexadecimal digits come first. -/
def StartsWithDigits (s : Bytes) : Prop :=
  ∃ h l t, s = h :: l :: t ∧ (hexVal h).isSome = true ∧ (hexVal l).isSome = true

/-- Some `%` that starts an escape is not followed by two hexadecimal digits. -/
def Malformed (s : Bytes) : Prop :=
  ∃ a rest, s = a ++ 37 :: rest ∧ Whole a ∧ ¬ StartsWithDigits rest

/-- What `ii` holds once the string is decoded. -/
def carried (ii : ℤ) : Bytes → ℤ
  | [] => ii
  | x :: rest =>
    if x != 37 then carried ii rest
    else
      let ii' := (scanHex (cstr (rest.take 2) 0)).getD ii
      match rest with
      | _ :: _ :: tail => carried ii' tail
      | _ => ii'

/-- **The decoder stops and goes on between escapes**, and all it takes along is `ii`. -/
theorem urlDecode_append {a : Bytes} (ha : Whole a) (ii : ℤ) (b : Bytes) :
    urlDecode ii (a ++ b) = urlDecode ii a ++ urlDecode (carried ii a) b := by
  simp only [urlDecode]
  induction ha generalizing ii with
  | nil => rfl
  | raw hx _ ih =>
    have hx' := bne_iff_ne.mpr hx
    rw [List.cons_append, urlDecodeFrom, urlDecodeFrom, carried, if_pos hx', if_pos hx', if_pos hx',
      ih, List.cons_append]
  | @escape h l s _ ih =>
    simp only [List.cons_append, urlDecodeFrom, carried, bne_self_eq_false, Bool.false_eq_true,
      if_false, List.take_succ_cons, List.take_zero]
    rw [ih]

/-! ## Decoding does not fail -/

/-- The decode-failure exit: an error code, nothing written, and no handler called. -/
def DecodeRefused (res : ProcessResult) (resJson : Bytes) : Prop :=
  res.rc ≠ 0 ∧ res.resJson = resJson ∧ res.invoked = none

/-- **A malformed parameter is not refused for that**: it takes a length that is not positive as an
`int`, so at least `2 ^ 31` bytes, for a parameter to be refused. -/
theorem decodeRefused_iff {slot : PluginSlot PluginInfo} {name : Bytes} {pit : PluginInfo}
    (hpit : slot.getPluginInfo name = some pit) (hflag : pit.hasExtIn = true) {extPara : Bytes}
    (hmalformed : Malformed extPara) (handlers : ProcessHandlers) (ii₀ : ℤ) (images : ImageList)
    (resJson : Bytes) :
    DecodeRefused
      (slot.runProcessDecoding (urlDecodeAny ii₀) handlers name images extPara resJson) resJson ↔
      asInt extPara.length ≤ 0 := by
  obtain ⟨a, rest, rfl, -, -⟩ := hmalformed
  have hne : a ++ 37 :: rest ≠ [] := by simp
  rw [PluginSlot.runProcessDecoding_of_ext hpit hflag _ handlers images hne]
  rw [isEmpty_urlDecodeAny]
  by_cases hsize : asInt (a ++ 37 :: rest).length ≤ 0
  · rw [decide_eq_true hsize, if_pos rfl]
    exact iff_of_true ⟨by simp, rfl, rfl⟩ hsize
  · rw [decide_eq_false hsize, if_neg Bool.false_ne_true]
    refine iff_of_false ?_ hsize
    rintro ⟨-, -, hinvoked⟩
    exact absurd hinvoked (by simp [PluginSlot.callHandler])

/-- A `%` at the very end. -/
theorem malformed_sample : Malformed (lit "a%") :=
  ⟨lit "a", [], rfl, .raw (by decide) .nil, by rintro ⟨h, l, t, heq, -⟩; exact absurd heq (by simp)⟩

/-- A handler that accepts whatever it is given. -/
def acceptAll : ProcessHandlers := fun _ _ resJson _ ↦ (0, resJson)

theorem decodeRefused_iff_sample :
    DecodeRefused
      (poemSlot.runProcessDecoding (urlDecodeAny 7) acceptAll (lit "poem") [] (lit "a%") []) [] ↔
      asInt (lit "a%").length ≤ 0 :=
  decodeRefused_iff poemSlot_getPluginInfo rfl malformed_sample acceptAll 7 [] []

/-- **A handler is given what was on the stack**: the parameter is decoded to an `a` and a byte of
the uninitialised variable. -/
theorem malformed_accepted :
    poemSlot.getPluginInfo (lit "poem") = some poem ∧ poem.hasExtIn = true ∧
      Malformed (lit "a%") ∧
      poemSlot.runProcessDecoding (urlDecodeAny 7) acceptAll (lit "poem") [] (lit "a%") []
        = ⟨0, [], some (3, some [97, 7])⟩ ∧
      ¬ DecodeRefused (poemSlot.runProcessDecoding (urlDecodeAny 7) acceptAll (lit "poem") []
        (lit "a%") []) [] := by
  have hrun := PluginSlot.runProcessDecoding_of_ext poemSlot_getPluginInfo rfl (urlDecodeAny 7)
    acceptAll [] (show lit "a%" ≠ [] by decide) []
  have hdecode : urlDecodeAny 7 (lit "a%") = [97, 7] := by decide
  rw [hdecode] at hrun
  refine ⟨poemSlot_getPluginInfo, rfl, malformed_sample, hrun, ?_⟩
  rw [hrun]
  exact fun h ↦ h.1 rfl

/-! ## Where a byte comes from -/

/-- The first escape of the string, if it has one, converts. -/
def firstConverts : Bytes → Bool
  | [] => true
  | x :: rest => if x != 37 then firstConverts rest else (scanHex (cstr (rest.take 2) 0)).isSome

/-- No escape of the string converts. -/
def noneConverts : Bytes → Bool
  | [] => true
  | x :: rest =>
    if x != 37 then noneConverts rest
    else (scanHex (cstr (rest.take 2) 0)).isNone && match rest with
      | _ :: _ :: tail => noneConverts tail
      | _ => true

theorem noneConverts_raw {x : UInt8} (hx : x ≠ 37) (rest : Bytes) :
    noneConverts (x :: rest) = noneConverts rest := by
  rcases rest with _ | ⟨h, _ | ⟨l, tail⟩⟩ <;> simp [noneConverts, hx]

theorem toChar_add_one (ii : ℤ) : toChar (ii + 1) ≠ toChar ii := by
  intro h
  have hmod := congrArg UInt8.toNat h
  simp only [toChar, UInt8.toNat_ofNat'] at hmod
  omega

/-- **The first escape decides**: once one has converted, the value at the start is forgotten. -/
theorem urlDecode_of_firstConverts {s : Bytes} (h : firstConverts s = true) (ii ii' : ℤ) :
    urlDecode ii s = urlDecode ii' s := by
  simp only [urlDecode]
  induction s with
  | nil => rfl
  | cons x rest ih =>
    rw [firstConverts] at h
    rw [urlDecodeFrom, urlDecodeFrom]
    split at h
    · rename_i hx
      rw [if_pos hx, if_pos hx, ih h]
    · rename_i hx
      obtain ⟨v, hv⟩ := Option.isSome_iff_exists.mp h
      rw [if_neg hx, if_neg hx, hv]
      rfl

/-- Otherwise the first byte it writes shows it. -/
theorem toChar_eq_of_urlDecode {s : Bytes} (h : firstConverts s = false) {ii ii' : ℤ}
    (heq : urlDecode ii s = urlDecode ii' s) : toChar ii = toChar ii' := by
  simp only [urlDecode] at heq
  induction s with
  | nil => exact absurd h (by simp [firstConverts])
  | cons x rest ih =>
    rw [firstConverts] at h
    rw [urlDecodeFrom, urlDecodeFrom] at heq
    split at h
    · rename_i hx
      rw [if_pos hx, if_pos hx] at heq
      exact ih h (List.cons.inj heq).2
    · rename_i hx
      have hnone := Option.isNone_iff_eq_none.mp (Option.isSome_eq_false_iff.mp h)
      rw [if_neg hx, if_neg hx, hnone] at heq
      exact (List.cons.inj heq).1

/-- The value at the end is the one at the start, if nothing has converted. -/
theorem carried_of_noneConverts {a : Bytes} (ha : Whole a) (h : noneConverts a = true) (ii : ℤ) :
    carried ii a = ii := by
  induction ha generalizing ii with
  | nil => rfl
  | raw hx _ ih =>
    rw [noneConverts_raw hx] at h
    rw [carried, if_pos (bne_iff_ne.mpr hx), ih h]
  | escape _ ih =>
    simp only [noneConverts, carried, bne_self_eq_false, Bool.false_eq_true, if_false,
      Bool.and_eq_true, Option.isNone_iff_eq_none] at h ⊢
    rw [h.1, Option.getD_none, ih h.2]

/-- If something has, it does not depend on the start. -/
theorem carried_of_converts {a : Bytes} (ha : Whole a) (h : noneConverts a = false) :
    ∃ v, ∀ ii, carried ii a = v := by
  induction ha with
  | nil => exact absurd h (by simp [noneConverts])
  | raw hx _ ih =>
    rw [noneConverts_raw hx] at h
    obtain ⟨v, hv⟩ := ih h
    exact ⟨v, fun ii ↦ by rw [carried, if_pos (bne_iff_ne.mpr hx), hv]⟩
  | @escape b c s hs ih =>
    simp only [noneConverts, carried, bne_self_eq_false, Bool.false_eq_true, if_false] at h ⊢
    cases hnone : noneConverts s with
    | false =>
      obtain ⟨v, hv⟩ := ih hnone
      exact ⟨v, fun ii ↦ hv _⟩
    | true =>
      -- then it is this escape that does
      rw [hnone, Bool.and_true] at h
      obtain ⟨v, hv⟩ := Option.isSome_iff_exists.mp (Option.isNone_eq_false_iff.mp h)
      exact ⟨v, fun ii ↦ by rw [hv, Option.getD_some, carried_of_noneConverts hs hnone]⟩

/-! ## Decoding piece by piece -/

/-- The two strings decode by themselves to what they decode to together, whatever the variable
holds at the start of each. -/
def Local (a b : Bytes) : Prop :=
  ∀ ii ii₁ ii₂, urlDecodeAny ii (a ++ b) = urlDecodeAny ii₁ a ++ urlDecodeAny ii₂ b

/-- The same, if it holds one value at the start of all. -/
def LocalAlike (a b : Bytes) : Prop :=
  ∀ ii, urlDecodeAny ii (a ++ b) = urlDecodeAny ii a ++ urlDecodeAny ii b

theorem local_iff_of_fits {a : Bytes} (ha : Whole a) (b : Bytes) :
    ((∀ ii ii₁ ii₂, urlDecode ii (a ++ b) = urlDecode ii₁ a ++ urlDecode ii₂ b) ↔
        firstConverts a = true ∧ firstConverts b = true) ∧
      ((∀ ii, urlDecode ii (a ++ b) = urlDecode ii a ++ urlDecode ii b) ↔
        firstConverts b = true ∨ noneConverts a = true) := by
  have hshows : ∀ {s : Bytes}, (∀ ii ii', urlDecode ii s = urlDecode ii' s) →
      firstConverts s = true := by
    intro s hs
    by_contra hno
    exact toChar_add_one 0 (toChar_eq_of_urlDecode (by simpa using hno) (hs _ _))
  refine ⟨⟨fun h ↦ ⟨hshows fun ii ii' ↦ ?_, hshows fun ii ii' ↦ ?_⟩, ?_⟩, ⟨fun h ↦ ?_, ?_⟩⟩
  · exact List.append_cancel_right ((h 0 ii 0).symm.trans (h 0 ii' 0))
  · exact List.append_cancel_left ((h 0 0 ii).symm.trans (h 0 0 ii'))
  · rintro ⟨hfirst, hfirst'⟩ ii ii₁ ii₂
    rw [urlDecode_append ha, urlDecode_of_firstConverts hfirst ii ii₁,
      urlDecode_of_firstConverts hfirst' _ ii₂]
  · by_contra hno
    rw [not_or, Bool.not_eq_true, Bool.not_eq_true] at hno
    obtain ⟨v, hv⟩ := carried_of_converts ha hno.2
    -- a value that is not the one carried over
    have hsame := h (v + 1)
    rw [urlDecode_append ha, hv] at hsame
    exact toChar_add_one v
      (toChar_eq_of_urlDecode hno.1 (List.append_cancel_left hsame)).symm
  · rintro (hfirst | hnone) ii
    · rw [urlDecode_append ha, urlDecode_of_firstConverts hfirst _ ii]
    · rw [urlDecode_append ha, carried_of_noneConverts ha hnone]

/-- A length from `2^31` to `2^32` bytes is not positive as an `int`: such a string decodes to
nothing, as the empty one does. -/
theorem urlDecodeAny_eq_nil_iff {s : Bytes} (hlen : s.length ≤ 2 ^ 32) (ii : ℤ) :
    urlDecodeAny ii s = [] ↔ s = [] ∨ 2 ^ 31 ≤ s.length := by
  rw [← List.isEmpty_iff, isEmpty_urlDecodeAny, decide_eq_true_iff, ← List.length_eq_zero_iff]
  rcases Nat.lt_or_ge s.length (2 ^ 31) with hlt | hle
  · rw [asInt_of_lt hlt]
    omega
  · have := asInt_le hle
    omega

/-- **When decoding is local.**  Of strings that fit together: nothing shows of the variable's value
at the start of either.  With one value at the start of all, it may show in the second if the first
leaves it alone.  Of strings that do not fit, up to `2^32` bytes: if neither of them decodes to
anything. -/
theorem local_iff {a : Bytes} (ha : Whole a) (b : Bytes) :
    (a.length + b.length + 2 < 2 ^ 31 →
      (Local a b ↔ firstConverts a = true ∧ firstConverts b = true) ∧
        (LocalAlike a b ↔ firstConverts b = true ∨ noneConverts a = true)) ∧
      (2 ^ 31 ≤ a.length + b.length → a.length + b.length ≤ 2 ^ 32 →
        (Local a b ↔ (a = [] ∨ 2 ^ 31 ≤ a.length) ∧ (b = [] ∨ 2 ^ 31 ≤ b.length)) ∧
          (LocalAlike a b ↔ (a = [] ∨ 2 ^ 31 ≤ a.length) ∧ (b = [] ∨ 2 ^ 31 ≤ b.length))) := by
  have hjoined : (a ++ b).length = a.length + b.length := List.length_append
  constructor
  · intro hfits
    simp only [Local, LocalAlike, urlDecodeAny_eq (show (a ++ b).length < 2 ^ 31 by omega),
      urlDecodeAny_eq (show a.length < 2 ^ 31 by omega),
      urlDecodeAny_eq (show b.length < 2 ^ 31 by omega)]
    exact local_iff_of_fits ha b
  · intro hlong hlong'
    have hnil : ∀ ii, urlDecodeAny ii (a ++ b) = [] := fun ii ↦
      (urlDecodeAny_eq_nil_iff (by omega) ii).mpr (.inr (by omega))
    have hparts : ∀ ii₁ ii₂, [] = urlDecodeAny ii₁ a ++ urlDecodeAny ii₂ b ↔
        (a = [] ∨ 2 ^ 31 ≤ a.length) ∧ (b = [] ∨ 2 ^ 31 ≤ b.length) := fun ii₁ ii₂ ↦ by
      rw [eq_comm, List.append_eq_nil_iff, urlDecodeAny_eq_nil_iff (by omega),
        urlDecodeAny_eq_nil_iff (by omega)]
    simp only [Local, LocalAlike, hnil, hparts, forall_const, and_self]

/-- Two good escapes. -/
theorem local_sample :
    (Local (lit "%41") (lit "%42") ↔
        firstConverts (lit "%41") = true ∧ firstConverts (lit "%42") = true) ∧
      (LocalAlike (lit "%41") (lit "%42") ↔
        firstConverts (lit "%42") = true ∨ noneConverts (lit "%41") = true) :=
  (local_iff (.escape .nil) _).1 (by decide)

/-- **A bad escape behind a good one** decodes to the good one's byte. -/
theorem not_local :
    Whole (lit "%41") ∧ urlDecodeAny 7 (lit "%41" ++ lit "%zz") = lit "AA" ∧
      urlDecodeAny 7 (lit "%41") ++ urlDecodeAny 7 (lit "%zz") = lit "A" ++ [7] ∧
      ¬ LocalAlike (lit "%41") (lit "%zz") ∧ ¬ Local (lit "%41") (lit "%zz") := by
  have htogether : urlDecodeAny 7 (lit "%41" ++ lit "%zz") = lit "AA" := by decide +kernel
  have hapart : urlDecodeAny 7 (lit "%41") ++ urlDecodeAny 7 (lit "%zz") = lit "A" ++ [7] := by
    decide +kernel
  have hne : lit "AA" ≠ lit "A" ++ [7] := by decide
  refine ⟨.escape .nil, htogether, hapart, fun h ↦ hne ?_, fun h ↦ hne ?_⟩
  · rw [← htogether, ← hapart]
    exact h 7
  · rw [← htogether, ← hapart]
    exact h 7 7 7

end ImgPredictor
