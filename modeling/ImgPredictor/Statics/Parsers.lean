import ImgPredictor.Lib.Lists
import ImgPredictor.Statics.Python

/-!
# The parsers of the plugins' answers

Each plugin of `plugin_dict` has a parser that says whether an answer is a hit.  They come in two
kinds: those that go through a list of results, `parseEach`, and those that look at one field of a
single result, `parseOne`.

A parser raises an exception on an answer of another shape.  `parseEach_ok_iff` and
`parseOne_ok_iff` say which shapes are accepted.
-/

set_option autoImplicit false

namespace ImgPredictor

open Bytes Json

/-! ## The parsers -/

/-- `imaginx_str_to_json`, with the key it asks for. -/
def strToJson (key : Str) (jsonStr : Bytes) : Except PyError (Option Value) :=
  match loads jsonStr with
  | none => .error .valueError
  | some v =>
    if !truthy v then .ok none
    else do return if ← hasKey v key then some v else none

/-- `imaginx_str_to_json` -/
def imaginxStrToJson (jsonStr : Bytes) : Except PyError (Option Value) :=
  strToJson (str "result") jsonStr

/-- The parsers that look for a hit in a list of results. -/
def parseEach (hit : Value → Except PyError Bool) (resJson : Bytes) : Except PyError Bool := do
  match ← imaginxStrToJson resJson with
  | none => return false
  | some v => (← iterate (← index v (str "result"))).anyM hit

/-- The parsers that look at a field of the one result, which is under `key`. -/
def parseOne (key field : Str) (hit : Value → Except PyError Bool) (resJson : Bytes) :
    Except PyError Bool := do
  match ← strToJson key resJson with
  | none => return false
  | some v =>
    let res ← index v key
    if ← hasKey res field then hit (← index res field) else return false

/-- Is there an `image_check`, and is it not `0`? -/
def badimg (res : Value) : Except PyError Bool := do
  if ← hasKey res (str "image_check") then
    return !isStr (← index res (str "image_check")) (str "0")
  else return false

/-- `parse_Histsvm_badimg` -/
def parseHistsvmBadimg : Bytes → Except PyError Bool := parseEach badimg

/-- `s.replace(",]", "]")` -/
def dropTrailingCommas : Bytes → Bytes
  | [] => []
  | 44 :: 93 :: s => 93 :: dropTrailingCommas s
  | b :: s => b :: dropTrailingCommas s

/-- `parse_cicf` -/
def parseCicf (resJson : Bytes) : Except PyError Bool :=
  parseEach (hasKey · (str "x")) (dropTrailingCommas resJson)

/-- `parse_tutu` -/
def parseTutu : Bytes → Except PyError Bool := parseOne (str "result") (str "match") intNonzero

/-- `parse_yagai` -/
def parseYagai : Bytes → Except PyError Bool := parseOne (str "result") (str "overlap") intNonzero

/-- `parse_img_qua` -/
def parseImgQua : Bytes → Except PyError Bool :=
  parseOne (str "result") (str "state") fun v ↦ .ok (isStr v (str "true"))

/-- `parse_filter` -/
def parseFilter : Bytes → Except PyError Bool :=
  parseOne (str "results") (str "label") fun v ↦ .ok (!isStr v (str "0"))

/-- `plugin_dict` -/
def pluginDict : List (Bytes × (Bytes → Except PyError Bool)) :=
  [(lit "socol", parseHistsvmBadimg), (lit "face", parseCicf), (lit "imgquality", parseImgQua),
    (lit "tutu", parseTutu), (lit "tuwen", parseTutu), (lit "yagai", parseYagai),
    (lit "filter", parseFilter)]

/-- `src_type` -/
def srcType : List Bytes := [lit "push", lit "pull"]

example : parseTutu (lit "\x7b\x22result\x22:\x7b\x22match\x22:\x22 1\x22\x7d\x7d") = .ok true := by
  decide +kernel

/-! ## What they accept -/

/-- A JSON text whose value is empty, or an object whose entry under `key`, if there is one, is of
the given shape. -/
def Answers (key : Str) (shape : Value → Prop) (resJson : Bytes) : Prop :=
  ∃ v, loads resJson = some v ∧ (truthy v = false ∨
    ∃ ms, v = .obj ms ∧ ∀ res, lookup ms key = some res → shape res)

/-- A list of objects, as far as the first hit. -/
def ObjectsToHit (hit : List (Str × Value) → Bool) : List Value → Prop
  | [] => True
  | .obj ms :: xs => hit ms = true ∨ ObjectsToHit hit xs
  | _ :: _ => False

/-- The shape of a list of results: a list of objects, as far as the first hit, or something empty
that can be gone through. -/
def EachShape (hit : List (Str × Value) → Bool) : Value → Prop
  | .arr xs => ObjectsToHit hit xs
  | .str s => s = []
  | .obj ms => ms = []
  | _ => False

/-- The shape of one result: an object whose field, if it is there, is of the given shape. -/
def OneShape (field : Str) (shape : Value → Prop) (res : Value) : Prop :=
  ∃ fs, res = .obj fs ∧ ∀ x, lookup fs field = some x → shape x

theorem ok_bind_iff {α β : Type} {x : Except PyError α} {f : α → Except PyError β} :
    (∃ b, x >>= f = .ok b) ↔ ∃ a, x = .ok a ∧ ∃ b, f a = .ok b := by
  cases x with
  | error e => exact iff_of_false (fun ⟨_, h⟩ ↦ nomatch h) fun ⟨_, h, _⟩ ↦ nomatch h
  | ok a => exact ⟨fun h ↦ ⟨a, rfl, h⟩, fun ⟨_, rfl, h⟩ ↦ h⟩

/-- What `imaginx_str_to_json` makes of a text, when it does not raise an exception. -/
theorem strToJson_ok_iff {key : Str} {jsonStr : Bytes} {shape : Value → Prop}
    {f : Option Value → Except PyError Bool} (hnone : ∃ b, f none = .ok b)
    (hsome : ∀ ms res, lookup ms key = some res →
      ((∃ b, f (some (.obj ms)) = .ok b) ↔ shape res)) :
    (∃ b, strToJson key jsonStr >>= f = .ok b) ↔ Answers key shape jsonStr := by
  rw [ok_bind_iff, Answers, strToJson]
  cases loads jsonStr with
  | none => exact iff_of_false (fun ⟨_, h, _⟩ ↦ nomatch h) fun ⟨_, h, _⟩ ↦ nomatch h
  | some v =>
    simp only [Option.some.injEq, exists_eq_left']
    cases htruthy : truthy v with
    | false => exact iff_of_true ⟨none, rfl, hnone⟩ (.inl rfl)
    | true =>
      simp only [Bool.not_true, Bool.false_eq_true, if_false, false_or, reduceCtorEq]
      have hother : (∀ ms, v ≠ .obj ms) → hasKey v key = .error .attributeError := by
        intro h
        cases v with
        | obj ms => exact absurd rfl (h ms)
        | _ => rfl
      by_cases hobj : ∃ ms, v = .obj ms
      · obtain ⟨ms, rfl⟩ := hobj
        cases hl : lookup ms key with
        | none =>
          refine iff_of_true ⟨none, ?_, hnone⟩ ⟨ms, rfl, fun res h ↦ nomatch hl.symm.trans h⟩
          rw [hasKey, hl]
          rfl
        | some res =>
          have hstr : (do return if ← hasKey (.obj ms) key then some (Value.obj ms) else none)
              = (.ok (some (.obj ms)) : Except PyError (Option Value)) := by
            rw [hasKey, hl]
            rfl
          rw [hstr]
          constructor
          · rintro ⟨a, ha, hb⟩
            obtain rfl := Except.ok.inj ha
            refine ⟨ms, rfl, fun res' h' ↦ ?_⟩
            obtain rfl := Option.some.inj (hl.symm.trans h')
            exact (hsome ms res hl).mp hb
          · rintro ⟨ms', h, hshape⟩
            obtain rfl := Value.obj.inj h
            exact ⟨_, rfl, (hsome ms res hl).mpr (hshape res hl)⟩
      · rw [hother fun ms h ↦ hobj ⟨ms, h⟩]
        exact iff_of_false (fun ⟨_, h, _⟩ ↦ nomatch h) fun ⟨ms, h, _⟩ ↦ hobj ⟨ms, h⟩

/-- Going through a list up to the first hit raises no exception exactly when there are objects as
far as that. -/
theorem anyM_ok_iff {test : Value → Except PyError Bool} {hit : List (Str × Value) → Bool}
    (hobj : ∀ ms, test (.obj ms) = .ok (hit ms))
    (hother : ∀ v, (∀ ms, v ≠ .obj ms) → test v = .error .attributeError) (xs : List Value) :
    (∃ b, xs.anyM test = .ok b) ↔ ObjectsToHit hit xs := by
  induction xs with
  | nil => exact iff_of_true ⟨false, rfl⟩ trivial
  | cons x xs ih =>
    rw [List.anyM]
    by_cases hx : ∃ ms, x = .obj ms
    · obtain ⟨ms, rfl⟩ := hx
      rw [hobj, ObjectsToHit, ← ih]
      cases hit ms with
      | true => exact iff_of_true ⟨true, rfl⟩ (.inl rfl)
      | false => exact ⟨.inr, fun h ↦ h.resolve_left Bool.false_ne_true⟩
    · rw [hother x fun ms h ↦ hx ⟨ms, h⟩]
      refine iff_of_false (fun ⟨_, h⟩ ↦ nomatch h) fun h ↦ ?_
      cases x with
      | obj ms => exact hx ⟨ms, rfl⟩
      | _ => exact h

/-- **The answers a parser of a list of results accepts.** -/
theorem parseEach_ok_iff {test : Value → Except PyError Bool} {hit : List (Str × Value) → Bool}
    (hobj : ∀ ms, test (.obj ms) = .ok (hit ms))
    (hother : ∀ v, (∀ ms, v ≠ .obj ms) → test v = .error .attributeError) (resJson : Bytes) :
    (∃ b, parseEach test resJson = .ok b) ↔ Answers (str "result") (EachShape hit) resJson := by
  refine strToJson_ok_iff ⟨false, rfl⟩ fun ms res hres ↦ ?_
  have hindex : index (.obj ms) (str "result") = .ok res := by rw [index, hres]
  simp only [hindex]
  change (∃ b, iterate res >>= (·.anyM test) = .ok b) ↔ _
  -- the characters of a string and the keys of an object are no objects
  have hstrs : ∀ {α : Type} (f : α → Str) (l : List α),
      (∃ b, (l.map fun a ↦ Value.str (f a)).anyM test = .ok b) ↔ l = [] := by
    intro α f l
    rw [anyM_ok_iff hobj hother]
    cases l with
    | nil => exact iff_of_true trivial rfl
    | cons a l => exact iff_of_false id (by simp)
  cases res with
  | arr xs => exact anyM_ok_iff hobj hother xs
  | str s => exact hstrs (fun c ↦ [c]) s
  | obj fs => exact hstrs Prod.fst fs
  | _ => exact iff_of_false (fun ⟨_, h⟩ ↦ nomatch h) id

/-- **The answers a parser of one result accepts.** -/
theorem parseOne_ok_iff {key field : Str} {test : Value → Except PyError Bool}
    {shape : Value → Prop} (htest : ∀ v, (∃ b, test v = .ok b) ↔ shape v) (resJson : Bytes) :
    (∃ b, parseOne key field test resJson = .ok b) ↔
      Answers key (OneShape field shape) resJson := by
  refine strToJson_ok_iff ⟨false, rfl⟩ fun ms res hres ↦ ?_
  have hindex : index (.obj ms) key = .ok res := by rw [index, hres]
  simp only [hindex]
  change (∃ b, hasKey res field >>= (fun b ↦ if b then index res field >>= test else .ok false)
    = .ok b) ↔ _
  rw [OneShape]
  by_cases hobj : ∃ fs, res = .obj fs
  · obtain ⟨fs, rfl⟩ := hobj
    rw [hasKey, index]
    cases hl : lookup fs field with
    | none =>
      refine iff_of_true ⟨false, rfl⟩ ⟨fs, rfl, fun x h ↦ ?_⟩
      exact nomatch hl.symm.trans h
    | some x =>
      refine (htest x).trans ⟨fun h ↦ ⟨fs, rfl, fun y hy ↦ ?_⟩, fun ⟨fs', h, hshape⟩ ↦ ?_⟩
      · obtain rfl := Option.some.inj (hl.symm.trans hy)
        exact h
      · obtain rfl := Value.obj.inj h
        exact hshape x hl
  · have hkey : hasKey res field = .error .attributeError := by
      cases res with
      | obj fs => exact absurd ⟨fs, rfl⟩ hobj
      | _ => rfl
    rw [hkey]
    exact iff_of_false (fun ⟨_, h⟩ ↦ nomatch h) fun ⟨fs, h, _⟩ ↦ hobj ⟨fs, h⟩

/-! ## The answers each plugin's parser accepts -/

/-- An object with an `image_check` that is not `0`. -/
def badimgHit (ms : List (Str × Value)) : Bool :=
  (lookup ms (str "image_check")).any fun v ↦ !isStr v (str "0")

/-- An object with an `x`. -/
def faceHit (ms : List (Str × Value)) : Bool := (lookup ms (str "x")).isSome

/-- The shapes of the answers of the plugins of `plugin_dict`. -/
def answerOf : List (Bytes × (Bytes → Prop)) :=
  [(lit "socol", Answers (str "result") (EachShape badimgHit)),
    (lit "face", fun s ↦ Answers (str "result") (EachShape faceHit) (dropTrailingCommas s)),
    (lit "imgquality", Answers (str "result") (OneShape (str "state") fun _ ↦ True)),
    (lit "tutu", Answers (str "result") (OneShape (str "match") IsNumeric)),
    (lit "tuwen", Answers (str "result") (OneShape (str "match") IsNumeric)),
    (lit "yagai", Answers (str "result") (OneShape (str "overlap") IsNumeric)),
    (lit "filter", Answers (str "results") (OneShape (str "label") fun _ ↦ True))]

theorem badimg_ok_iff (resJson : Bytes) :
    (∃ b, parseHistsvmBadimg resJson = .ok b) ↔
      Answers (str "result") (EachShape badimgHit) resJson := by
  refine parseEach_ok_iff (fun ms ↦ ?_) (fun v hv ↦ ?_) resJson
  · rw [badimg, hasKey, badimgHit, index]
    cases lookup ms (str "image_check") <;> rfl
  · cases v with
    | obj ms => exact absurd rfl (hv ms)
    | _ => rfl

theorem cicf_ok_iff (resJson : Bytes) :
    (∃ b, parseCicf resJson = .ok b) ↔
      Answers (str "result") (EachShape faceHit) (dropTrailingCommas resJson) := by
  refine parseEach_ok_iff (fun ms ↦ rfl) (fun v hv ↦ ?_) _
  cases v with
  | obj ms => exact absurd rfl (hv ms)
  | _ => rfl

/-- **A parser raises an exception exactly on the answers that are not of its plugin's shape.** -/
theorem parser_ok_iff {plugin : Bytes} {parse : Bytes → Except PyError Bool}
    (h : pluginDict.lookup plugin = some parse) :
    ∃ answer, answerOf.lookup plugin = some answer ∧
      ∀ resJson, (∃ b, parse resJson = .ok b) ↔ answer resJson := by
  have htext : ∀ (test : Value → Bool) (v : Value),
      (∃ b, (Except.ok (test v) : Except PyError Bool) = .ok b) ↔ True :=
    fun test v ↦ iff_of_true ⟨_, rfl⟩ trivial
  refine Lists.lookup_of_forall₂
    (R := fun (parse : Bytes → Except PyError Bool) (answer : Bytes → Prop) ↦
      ∀ resJson, (∃ b, parse resJson = .ok b) ↔ answer resJson)
    (.cons ⟨rfl, badimg_ok_iff⟩ <| .cons ⟨rfl, cicf_ok_iff⟩ <|
      .cons ⟨rfl, parseOne_ok_iff (htext _)⟩ <| .cons ⟨rfl, parseOne_ok_iff intNonzero_ok_iff⟩ <|
      .cons ⟨rfl, parseOne_ok_iff intNonzero_ok_iff⟩ <|
      .cons ⟨rfl, parseOne_ok_iff intNonzero_ok_iff⟩ <|
      .cons ⟨rfl, parseOne_ok_iff (htext _)⟩ .nil) h

/-- The same of whatever parser a plugin has, if it has one. -/
theorem answer_iff {plugin resJson : Bytes} :
    (∀ answer, answerOf.lookup plugin = some answer → answer resJson) ↔
      ∀ parse, pluginDict.lookup plugin = some parse → ∃ b, parse resJson = .ok b := by
  cases hp : pluginDict.lookup plugin with
  | none =>
    have ha : answerOf.lookup plugin = none := by
      have hkeys : answerOf.map Prod.fst = pluginDict.map Prod.fst := rfl
      rw [Lists.lookup_eq_none_iff] at hp ⊢
      rwa [hkeys]
    simp [ha]
  | some parse =>
    obtain ⟨answer, ha, hok⟩ := parser_ok_iff hp
    simp only [ha, Option.some.injEq, forall_eq', hok]

end ImgPredictor
