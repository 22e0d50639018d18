import Mathlib.Data.List.InsertIdx
import ImgPredictor.Statics.Run

/-!
# One bad line

A line is *isolated* if the statistics go on after it, and report every window it is not in as if it
were not there.  `isolated_iff` says that a line is isolated exactly when it is `Harmless`: nothing
in `log_statics` stands between the exception a line raises and the end of the run.
-/

set_option autoImplicit false

namespace ImgPredictor

open Bytes Lists

variable (localSrvAddr : Bytes) (stepSeconds : ℤ)

/-- The line between `pre` and `post` is isolated. -/
structure Isolated (pre : List Bytes) (line : Bytes) (post : List Bytes) : Prop where
  /-- The loop does not stop at the line. -/
  goesOn : (logLoop localSrvAddr stepSeconds .init (pre ++ [line])).2
    = (logLoop localSrvAddr stepSeconds .init pre).2
  /-- It does not stop any earlier or later than without the line. -/
  raised : (logStatics localSrvAddr stepSeconds (pre ++ line :: post)).raised
    = (logStatics localSrvAddr stepSeconds (pre ++ post)).raised
  /-- The calls of `insert_db` are those without the line, but for the window that is open when the
  line comes. -/
  inserted :
    let k := (logLoop localSrvAddr stepSeconds .init pre).1.inserted.length
    (logStatics localSrvAddr stepSeconds (pre ++ line :: post)).inserted.eraseIdx k
      = (logStatics localSrvAddr stepSeconds (pre ++ post)).inserted.eraseIdx k

/-- The line names no plugin and source; or its source is not one of the texts of a record, and if
it is one of `src_type` and the plugin has a parser, the answer is of the shape that parser
takes. -/
def Harmless (x : Entry) : Prop :=
  ∀ plugin src, requestOf x.request = some (plugin, src) →
    src ≠ lit "datetime" ∧ src ≠ lit "server_addr" ∧
      (src ∈ srcType → ∀ answer, answerOf.lookup plugin = some answer → answer x.resJson)

theorem fault_eq_none_iff (x : Entry) : x.fault = none ↔ Harmless x := by
  rw [Entry.fault, Entry.parser, Entry.named, Harmless]
  cases hreq : requestOf x.request with
  | none => simp
  | some named =>
    obtain ⟨plugin, src⟩ := named
    have hone : ∀ P : Bytes → Bytes → Prop,
        (∀ p s, some (plugin, src) = some (p, s) → P p s) ↔ P plugin src := fun P ↦
      ⟨fun h ↦ h _ _ rfl, fun h p s he ↦ by cases he; exact h⟩
    rw [hone, answer_iff]
    simp only [Bool.or_eq_true, beq_iff_eq]
    by_cases htext : src = lit "datetime" ∨ src = lit "server_addr"
    · rw [if_pos htext]
      grind
    · rw [if_neg htext]
      rw [not_or] at htext
      by_cases hsrc : src ∈ srcType
      · rw [if_pos hsrc]
        cases hp : pluginDict.lookup plugin with
        | none => simp [htext]
        | some parse => cases hr : parse x.resJson <;> simp [hr, htext, hsrc]
      · simp [hsrc, htext]

variable {localSrvAddr stepSeconds}

/-- A run without exceptions so far goes on as if the line were not there, if the line raises none
and does not begin a window. -/
theorem isolated_of_fault_eq_none {pre : List Bytes} {line : Bytes} {x x₀ : Entry}
    {a : List Entry} (hstep : 1 ≤ stepSeconds) (hpre : seen pre = (x₀ :: a, none))
    (hx : readLine line = some (.ok x)) (hf : x.fault = none)
    (hin : closesAt stepSeconds (headAfter (closesAt stepSeconds) x₀ a) x = false)
    (post : List Bytes) : Isolated localSrvAddr stepSeconds pre line post := by
  have hpre2 : (seen pre).2 = none := by rw [hpre]
  have hline : ∀ lines, seen (line :: lines) = (x :: (seen lines).1, (seen lines).2) :=
    fun lines ↦ seen_cons_ok hx hf
  refine ⟨?_, ?_, ?_⟩
  · rw [(logLoop_spec _ _ _).1, (logLoop_spec _ _ _).1, seen_append hpre2, hline, hpre2]
    rfl
  · rw [logStatics_eq, logStatics_eq, seen_append hpre2, seen_append hpre2, hline]
  · have hk : (logLoop localSrvAddr stepSeconds .init pre).1.inserted.length
        = closings (closesAt stepSeconds) x₀ a := by
      rw [(logLoop_spec _ _ _).2.2, List.length_map, hpre, cutWindows_eq hstep, windows,
        length_windowsFrom_discard]
    simp only [logStatics_eq, windowsOf, seen_append hpre2, hline, hpre, hk, cutWindows_eq hstep]
    rw [List.eraseIdx_map, List.eraseIdx_map]
    exact congrArg _ (eraseIdx_windows (fun w ↦ (lastWindow_isPrefix _ w).length_le) hin _)

/-- **A line is isolated exactly when it is harmless**, provided it does not begin a window. -/
theorem isolated_iff {pre : List Bytes} {line : Bytes} {x : Entry} {start : DateTime}
    (hx : readLine line = some (.ok x))
    (hstart : (logLoop localSrvAddr stepSeconds .init pre).1.startDt = some start)
    (hin : closes stepSeconds start x.dt = false) (post : List Bytes) :
    Isolated localSrvAddr stepSeconds pre line post ↔
      ((logLoop localSrvAddr stepSeconds .init pre).2 = none → Harmless x) := by
  rw [← fault_eq_none_iff, (logLoop_spec _ _ _).1]
  rw [(logLoop_spec _ _ _).2.1] at hstart
  cases hpre : seen pre with
  | mk es err =>
    rw [hpre] at hstart
    cases es with
    | nil => exact absurd hstart (by simp)
    | cons x₀ a =>
      cases err with
      | some e =>
        -- the run has ended before the line
        have hsame : ∀ lines, seen (pre ++ lines) = seen pre :=
          seen_append_of_raised (by simp [hpre])
        refine iff_of_true ⟨?_, ?_, ?_⟩ fun h ↦ absurd h (by simp)
        · rw [(logLoop_spec _ _ _).1, (logLoop_spec _ _ _).1, hsame]
        · rw [logStatics_eq, logStatics_eq, hsame, hsame]
        · simp only [logStatics_eq, windowsOf, hsame]
      | none =>
        have hstep : 1 ≤ stepSeconds := by
          have := (DateTime.secondsSince_range x.dt start).1
          have := of_decide_eq_false hin
          omega
        have hhead : (headAfter (closesAt stepSeconds) x₀ a).dt = start := by
          simpa [headAfter] using hstart
        constructor
        · intro h _
          have hgoes := h.goesOn
          rw [(logLoop_spec _ _ _).1, (logLoop_spec _ _ _).1, seen_append (by rw [hpre]), hpre]
            at hgoes
          cases hf : x.fault with
          | none => rfl
          | some e =>
            rw [seen_cons_fault hx hf] at hgoes
            exact absurd hgoes (by simp)
        · intro h
          refine isolated_of_fault_eq_none hstep hpre hx (h rfl) ?_ post
          rw [closesAt, hhead]
          exact hin

/-- A line whose answer is not JSON, and whose source is a word of its own. -/
theorem isolated_otherSource :
    Isolated (lit "a") 600 [sampleLine "10:25:00" "0" "r"]
      (sampleLine "10:25:01" "x" "plugin=face&src=other")
      [sampleLine "10:45:00" "0" "plugin=face&src=pull"] := by
  have hstart : (logLoop (lit "a") 600 .init [sampleLine "10:25:00" "0" "r"]).1.startDt
      = some (sampleTime 10 25 0) := by
    simp only [sampleLine_eq]
    decide +kernel
  have hread : readLine (sampleLine "10:25:01" "x" "plugin=face&src=other")
      = some (.ok ⟨sampleTime 10 25 1, lit "x", lit "plugin=face&src=other"⟩) := by
    simp only [sampleLine_eq]
    decide +kernel
  refine (isolated_iff hread hstart (by decide +kernel) _).mpr fun _ plugin src h ↦ ?_
  have hreq : requestOf (lit "plugin=face&src=other") = some (lit "face", lit "other") := by
    decide +kernel
  obtain ⟨rfl, rfl⟩ := Prod.mk.inj (Option.some.inj (hreq.symm.trans h))
  exact ⟨by decide, by decide, fun hsrc ↦ absurd hsrc (by decide)⟩

/-- A line within the window of the one before it, with a good date and an answer that is not JSON:
it is not isolated, and with a third line the run issues no query, where without it it issues
two. -/
theorem not_isolated_notJson :
    (readLine (sampleLine "10:25:01" "x" "plugin=face&src=pull")
        = some (.ok ⟨sampleTime 10 25 1, lit "x", lit "plugin=face&src=pull"⟩) ∧
      (logLoop (lit "a") 600 .init [sampleLine "10:25:00" "0" "r"]).1.startDt
        = some (sampleTime 10 25 0) ∧
      (logLoop (lit "a") 600 .init [sampleLine "10:25:00" "0" "r"]).2 = none ∧
      closes 600 (sampleTime 10 25 0) (sampleTime 10 25 1) = false) ∧
    ¬ Isolated (lit "a") 600 [sampleLine "10:25:00" "0" "r"]
      (sampleLine "10:25:01" "x" "plugin=face&src=pull")
      [sampleLine "10:45:00" "0" "plugin=face&src=pull"] ∧
    (logStatics (lit "a") 600 [sampleLine "10:25:00" "0" "r",
      sampleLine "10:25:01" "x" "plugin=face&src=pull",
      sampleLine "10:45:00" "0" "plugin=face&src=pull"]).queries = [] ∧
    (logStatics (lit "a") 600 [sampleLine "10:25:00" "0" "r",
      sampleLine "10:45:00" "0" "plugin=face&src=pull"]).queries.length = 2 := by
  simp only [sampleLine_eq]
  refine ⟨by decide +kernel, fun h ↦ ?_, by decide +kernel, by decide +kernel⟩
  exact absurd h.goesOn (by decide +kernel)

end ImgPredictor
