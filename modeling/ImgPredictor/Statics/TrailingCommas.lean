import ImgPredictor.Statics.Repair

/-!
# The trailing commas of `parse_cicf`

The answers of the plugin may have a comma before the closing bracket of an array, which
`json.loads` does not accept.  `parse_cicf` deletes the comma of every `,]` before it reads the
text.  This file says that the deletion does no harm and is enough.

* On a text that is accepted as it is, it changes strings at most, and no test of `parse_cicf` sees
  that: neither `result` nor `x` has a bracket in it.
* Commas written before the brackets of arrays are all deleted again, since no bracket of an
  accepted text has a comma before it already.
-/

set_option autoImplicit false

namespace ImgPredictor

open Bytes Json

/-! ## The test on values -/

/-- What the test says of an object: `False` if it has no `result` and otherwise whether one of the
elements of that, in order, has an `x`. -/
def faceOutcome (ms : List (Str × Value)) : Except PyError Bool :=
  match lookup ms (str "result") with
  | none => .ok false
  | some res => do (← iterate res).anyM (hasKey · (str "x"))

/-- What `imaginx_str_to_json` makes of an object, the empty one included. -/
theorem strToJson_object {resJson : Bytes} {ms : List (Str × Value)}
    (h : loads resJson = some (.obj ms)) (key : Str) :
    strToJson key resJson = .ok (if (lookup ms key).isSome then some (.obj ms) else none) := by
  rw [strToJson, h]
  cases ms with
  | nil => rfl
  | cons m ms => rfl

theorem parseEach_object {resJson : Bytes} {ms : List (Str × Value)}
    (h : loads resJson = some (.obj ms)) :
    parseEach (hasKey · (str "x")) resJson = faceOutcome ms := by
  rw [parseEach, imaginxStrToJson, strToJson_object h, faceOutcome]
  cases hres : lookup ms (str "result") with
  | none => rfl
  | some res =>
    have hindex : index (.obj ms) (str "result") = .ok res := by rw [index, hres]
    change (do (← iterate (← index (.obj ms) (str "result"))).anyM (hasKey · (str "x"))) = _
    rw [hindex]
    rfl

theorem lookup_cons (m : Str × Value) (ms : List (Str × Value)) (key : Str) :
    lookup (m :: ms) key = (lookup ms key).or (if key = m.1 then some m.2 else none) := by
  rw [lookup, List.reverse_cons, List.lookup_append, lookup]
  congr 1
  rw [List.lookup_cons]
  by_cases hkey : key = m.1
  · simp [hkey]
  · simp [beq_false_of_ne hkey, hkey]

/-- **Keys without brackets are looked up alike.** -/
theorem lookup_alike {ms ns : List (Str × Value)} (h : AlikeMembers ms ns) {key : Str}
    (hkey : 93 ∉ key) :
    (lookup ms key = none ∧ lookup ns key = none) ∨
      ∃ v v', lookup ms key = some v ∧ lookup ns key = some v' ∧ Alike v v' := by
  induction ms generalizing ns with
  | nil =>
    cases h
    exact .inl ⟨rfl, rfl⟩
  | cons m ms ih =>
    cases h with
    | @cons k k' v v' _ ns hk hv hms =>
      have hsame : key = k ↔ key = k' := by
        rw [eq_comm, hk.eq_iff hkey, eq_comm]
      rw [lookup_cons, lookup_cons]
      rcases ih hms with ⟨hnone, hnone'⟩ | ⟨w, w', hsome, hsome', hw⟩
      · rw [hnone, hnone', Option.none_or, Option.none_or]
        by_cases hfound : key = k
        · exact .inr ⟨v, v', if_pos hfound, if_pos (hsame.mp hfound), hv⟩
        · exact .inl ⟨if_neg hfound, if_neg (mt hsame.mpr hfound)⟩
      · exact .inr ⟨w, w', by rw [hsome, Option.some_or], by rw [hsome', Option.some_or], hw⟩

theorem hasKey_alike {v v' : Value} (h : Alike v v') {key : Str} (hkey : 93 ∉ key) :
    hasKey v key = hasKey v' key := by
  cases h with
  | obj h =>
    rw [hasKey, hasKey]
    rcases lookup_alike h hkey with ⟨hnone, hnone'⟩ | ⟨w, w', hsome, hsome', -⟩
    · rw [hnone, hnone']
    · rw [hsome, hsome']
      rfl
  | _ => rfl

theorem anyM_alike {xs ys : List Value} (h : AlikeList xs ys) {key : Str} (hkey : 93 ∉ key) :
    xs.anyM (hasKey · key) = ys.anyM (hasKey · key) := by
  induction xs generalizing ys with
  | nil =>
    cases h
    rfl
  | cons x xs ih =>
    cases h with
    | cons hx hxs => rw [List.anyM, List.anyM, hasKey_alike hx hkey, ih hxs]

/-- The characters of a string and the keys of an object have no keys; the first of them raises an
exception. -/
theorem anyM_strs {α : Type} (f : α → Str) (l : List α) (key : Str) :
    (l.map fun a ↦ Value.str (f a)).anyM (hasKey · key)
      = if l = [] then .ok false else .error .attributeError := by
  cases l <;> rfl

/-- **The test does not see what happens to the strings.** -/
theorem faceOutcome_alike {ms ns : List (Str × Value)} (h : AlikeMembers ms ns) :
    faceOutcome ms = faceOutcome ns := by
  have hresult : 93 ∉ str "result" := by decide
  have hx : 93 ∉ str "x" := by decide
  rw [faceOutcome, faceOutcome]
  rcases lookup_alike h hresult with ⟨hnone, hnone'⟩ | ⟨v, v', hsome, hsome', hv⟩
  · rw [hnone, hnone']
  · rw [hsome, hsome']
    cases hv with
    | @arr xs ys hxs => exact anyM_alike hxs hx
    | @str s s' hs =>
      have hnil : s = [] ↔ s' = [] := hs.eq_iff (by simp)
      change (s.map fun c ↦ Value.str [c]).anyM _ = (s'.map fun c ↦ Value.str [c]).anyM _
      rw [anyM_strs, anyM_strs]
      simp only [hnil]
    | @obj fs gs hfs =>
      change (fs.map fun m ↦ Value.str m.1).anyM _ = (gs.map fun m ↦ Value.str m.1).anyM _
      rw [anyM_strs, anyM_strs]
      cases hfs <;> rfl
    | _ => rfl

/-! ## The texts -/

/-- **An accepted text is still accepted without its `,]`**, and gives the same up to strings. -/
theorem loads_dropTrailingCommas {t : Bytes} {v : Value} (h : loads t = some v) :
    ∃ v', loads (dropTrailingCommas t) = some v' ∧ Alike v v' := by
  rw [loads] at h
  split at h
  · exact absurd h (by simp)
  · rename_i v₀ rest hvalue
    split at h
    · rename_i hrest
      obtain rfl := Option.some.inj h
      obtain ⟨v', hvalue', halike⟩ := (tracks_value _).1 hvalue
      have hlen := length_dropTrailingCommas_le t
      have hskip := skipWs_length (dropTrailingCommas t)
      have hbound : value (2 * t.length + 2) (skipWs (dropTrailingCommas t))
          = value (2 * (dropTrailingCommas t).length + 2) (skipWs (dropTrailingCommas t)) :=
        value_eq_of_le (by omega) (by omega)
      rw [← skipWs_dropTrailingCommas, hbound] at hvalue'
      refine ⟨v', ?_, halike⟩
      rw [loads, hvalue']
      have hempty : skipWs (dropTrailingCommas rest) = [] := by
        rw [skipWs_dropTrailingCommas, dropTrailingCommas_eq_nil_iff]
        simpa using hrest
      simp [hempty]
    · exact absurd h (by simp)

/-- At one of these places stands a bracket, and not right after a comma. -/
def Placed (places : List ℕ) (t : Bytes) : Prop :=
  ∀ u b w, t = u ++ b :: w → w.length + 1 ∈ places → b = 93 ∧ ∀ u', u ≠ u' ++ [44]

theorem placed_of_closes {places : List ℕ} {t : Bytes} (h : ∀ n ∈ places, Closes t n) :
    Placed places t := by
  rintro u b w rfl hmem
  obtain ⟨w', ⟨u', b', heq, hb'⟩, hlen⟩ := h _ hmem
  rw [List.append_cons u' b'] at heq
  obtain ⟨rfl, hcons⟩ := List.append_inj' heq (by simpa using hlen.symm)
  refine ⟨(List.cons.inj hcons).1, fun v hv ↦ hb' ?_⟩
  exact (List.append_inj' hv rfl).2 |> List.singleton_inj.mp

theorem Placed.tail {places : List ℕ} {a : UInt8} {t : Bytes} (h : Placed places (a :: t)) :
    Placed places t := by
  rintro u b w rfl hmem
  obtain ⟨hb, hlast⟩ := h (a :: u) b w rfl hmem
  refine ⟨hb, fun u' hu ↦ hlast (a :: u') ?_⟩
  rw [hu, List.cons_append]

/-- **The commas written before brackets are deleted again**, if there is none before them yet. -/
theorem dropTrailingCommas_withCommas {places : List ℕ} {t : Bytes} (h : Placed places t) :
    dropTrailingCommas (withCommas places t) = dropTrailingCommas t := by
  fun_induction dropTrailingCommas t with
  | case1 => rfl
  | case2 s ih =>
    have hcomma : (93 :: s).length + 1 ∉ places := fun hmem ↦
      absurd (h [] 44 (93 :: s) rfl hmem).1 (by decide)
    have hbracket : s.length + 1 ∉ places := fun hmem ↦ (h [44] 93 s rfl hmem).2 [] rfl
    rw [withCommas, if_neg hcomma, withCommas, if_neg hbracket, dropTrailingCommas,
      ih h.tail.tail]
  | case3 b s hpair ih =>
    have hrest := ih h.tail
    rw [withCommas]
    split
    · rename_i hmem
      obtain ⟨rfl, -⟩ := h [] b s rfl hmem
      rw [dropTrailingCommas, hrest]
    · by_cases hb : b = 44
      · subst hb
        have hnext : (withCommas places s).head? ≠ some 93 := by
          cases s with
          | nil => simp [withCommas]
          | cons c s =>
            have hnot : s.length + 1 ∉ places := fun hmem ↦ (h [44] c s rfl hmem).2 [] rfl
            rw [withCommas, if_neg hnot]
            rintro hc
            obtain rfl := Option.some.inj hc
            exact hpair s rfl rfl
        rw [dropTrailingCommas_comma hnext, hrest]
      · rw [dropTrailingCommas_cons hb, hrest]

/-- **The repair changes no decision**: not on a text that is accepted without it, and not when
commas are written before the closing brackets of any of its arrays that are not empty. -/
theorem parseCicf_repairs {t : Bytes} {ms : List (Str × Value)} (h : loads t = some (.obj ms)) :
    parseEach (hasKey · (str "x")) t = faceOutcome ms ∧
      parseCicf t = faceOutcome ms ∧
        ∀ places, places ⊆ arrayEnds t → parseCicf (withCommas places t) = faceOutcome ms := by
  have hrepaired : parseCicf t = faceOutcome ms := by
    obtain ⟨v, hloads, halike⟩ := loads_dropTrailingCommas h
    cases halike with
    | obj hms => rw [parseCicf, parseEach_object hloads, faceOutcome_alike hms]
  refine ⟨parseEach_object h, hrepaired, fun places hplaces ↦ ?_⟩
  have hplaced := placed_of_closes fun n hn ↦ closes_of_mem_arrayEnds (hplaces hn)
  rw [parseCicf, dropTrailingCommas_withCommas hplaced]
  exact hrepaired

/-- An answer with a comma before a bracket in a key. -/
def commaAnswer : Bytes :=
  lit "\x7b\x22result\x22:[\x7b\x22a,]\x22:[1]\x7d,\x7b\x22x\x22:2\x7d]\x7d"

/-- With a comma behind each of its arrays, it is the hit it was. -/
theorem parseCicf_repairs_nested :
    parseCicf (withCommas (arrayEnds commaAnswer) commaAnswer) = .ok true := by
  have hobject : (loads commaAnswer).map (hasKey · (str "result")) = some (.ok true) := by
    decide +kernel
  obtain ⟨v, hv, hkey⟩ := Option.map_eq_some_iff.mp hobject
  cases v with
  | obj ms =>
    obtain ⟨hplain, -, hplaces⟩ := parseCicf_repairs hv
    rw [hplaces _ (List.Subset.refl _), ← hplain]
    decide +kernel
  | _ => exact absurd hkey (by simp [hasKey])

end ImgPredictor
