import Mathlib.Data.List.Chain
import ImgPredictor.Statics.Run

/-!
# The windows and the clock

`(dt - start_dt).seconds` is the time elapsed since the window began, less the whole days in it;
when the line is older than the start of the window, the days are negative and the seconds are not.
So a line may be as little as a second older and close the window, or days younger and not close it.

`windowLaw_iff`: the windows follow the clock exactly in the runs in which that makes no difference
to any line that is tested.
-/

set_option autoImplicit false

namespace ImgPredictor

open Bytes Lists

variable (localSrvAddr : Bytes) (stepSeconds : ℤ)

/-- The run gets from `pre` to a line that is read as `x`, when the window that is open began at
`start`. -/
structure Tested (lines pre : List Bytes) (line : Bytes) (start : DateTime) (x : Entry) : Prop where
  /-- The line follows `pre`. -/
  lines : pre ++ [line] <+: lines
  /-- It is read as `x`. -/
  reads : readLine line = some (.ok x)
  /-- The run gets to it. -/
  goesOn : (logLoop localSrvAddr stepSeconds .init pre).2 = none
  /-- There is a window. -/
  began : (logLoop localSrvAddr stepSeconds .init pre).1.startDt = some start

/-- The windows of a log follow the clock. -/
structure WindowLaw (lines : List Bytes) : Prop where
  /-- A line closes the window exactly if it comes `step_seconds` or more after its start. -/
  closing : ∀ pre line start x, Tested localSrvAddr stepSeconds lines pre line start x →
    ((logLoop localSrvAddr stepSeconds .init (pre ++ [line])).1.inserted.length
        = (logLoop localSrvAddr stepSeconds .init pre).1.inserted.length + 1 ↔
      stepSeconds ≤ x.dt.since start)
  /-- `insert_db` is called with the counts of windows, stamped with the time of their first
  line. -/
  counted : (logStatics localSrvAddr stepSeconds lines).inserted
      = (windowsOf stepSeconds lines).map (countWindow localSrvAddr) ∧
    ∀ w ∈ windowsOf stepSeconds lines, ∀ start ∈ w.head?,
      (countWindow localSrvAddr w).Stamped localSrvAddr start.dt
  /-- Every line of a window is earlier than its start and `step_seconds`. -/
  early : ∀ w ∈ windowsOf stepSeconds lines, ∀ start ∈ w.head?, ∀ x ∈ w,
    x.dt.since start.dt < stepSeconds
  /-- The starts of consecutive windows are at least `step_seconds` apart. -/
  apart : (windowsOf stepSeconds lines).IsChain fun w w' ↦
    ∀ start ∈ w.head?, ∀ start' ∈ w'.head?, stepSeconds ≤ start'.dt.since start.dt

/-- Leaving the whole days out of `elapsed` makes no difference: if it is negative, what is left is
short of `step_seconds`, and if it is a day or more and not short of it, what is left is not. -/
def DaysAside (stepSeconds elapsed : ℤ) : Prop :=
  (elapsed < 0 → elapsed % 86400 < stepSeconds) ∧
    (86400 ≤ elapsed → elapsed < stepSeconds ∨ stepSeconds ≤ elapsed % 86400)

instance (stepSeconds elapsed : ℤ) : Decidable (DaysAside stepSeconds elapsed) :=
  inferInstanceAs (Decidable (_ ∧ _))

variable {localSrvAddr stepSeconds}

theorem closes_iff (hstep : 1 ≤ stepSeconds) (start dt : DateTime) :
    (closes stepSeconds start dt = true ↔ stepSeconds ≤ dt.since start) ↔
      DaysAside stepSeconds (dt.since start) := by
  rw [closes, decide_eq_true_iff, DateTime.secondsSince, DaysAside]
  omega

/-- **The test of the window, seen from outside.** -/
theorem Tested.closes_iff {lines pre : List Bytes} {line : Bytes} {start : DateTime} {x : Entry}
    (h : Tested localSrvAddr stepSeconds lines pre line start x) :
    (logLoop localSrvAddr stepSeconds .init (pre ++ [line])).1.inserted.length
        = (logLoop localSrvAddr stepSeconds .init pre).1.inserted.length + 1 ↔
      closes stepSeconds start x.dt = true := by
  rw [logLoop_append _ _ h.goesOn]
  cases hs : (logLoop localSrvAddr stepSeconds .init pre).1 with
  | mk startDt counts inserted =>
    have hstart : startDt = some start := by simpa [hs] using h.began
    have hturn : (LogState.turn stepSeconds ⟨startDt, counts, inserted⟩ x.dt).2.inserted.length
        = inserted.length + 1 ↔ closes stepSeconds start x.dt = true := by
      rw [LogState.turn, hstart, Option.getD_some]
      split <;> simp [*]
    cases hf : x.fault with
    | some e =>
      rw [logLoop_fault _ _ h.reads hf]
      exact hturn
    | none =>
      rw [logLoop_ok _ _ h.reads hf]
      exact hturn

/-- Every question the windows are cut by is a test of the run. -/
theorem tested_of_mem_steps {lines : List Bytes} {head x : Entry}
    (h : (head, x) ∈ steps (closesAt stepSeconds) (seen lines).1) :
    ∃ pre line, Tested localSrvAddr stepSeconds lines pre line head.dt x := by
  obtain ⟨x₀, a, b, hseen, rfl⟩ := mem_steps _ h
  obtain ⟨pre, line, post, rfl, hpre, hx⟩ := seen_split hseen
  obtain ⟨hraised, hbegan, -⟩ := logLoop_spec localSrvAddr stepSeconds pre
  rw [hpre] at hraised hbegan
  exact ⟨pre, line, ⟨post, by simp⟩, hx, hraised, by simpa [headAfter] using hbegan⟩

/-- **The windows follow the clock** exactly if leaving whole days out of the time elapsed makes no
difference to any line that is tested. -/
theorem windowLaw_iff (hstep : 1 ≤ stepSeconds) (lines : List Bytes) :
    WindowLaw localSrvAddr stepSeconds lines ↔
      ∀ pre line start x, Tested localSrvAddr stepSeconds lines pre line start x →
        DaysAside stepSeconds (x.dt.since start) := by
  constructor
  · intro h pre line start x ht
    exact (closes_iff hstep start x.dt).mp (ht.closes_iff.symm.trans (h.closing _ _ _ _ ht))
  · intro h
    have hclock : ∀ pre line start x, Tested localSrvAddr stepSeconds lines pre line start x →
        (closes stepSeconds start x.dt = true ↔ stepSeconds ≤ x.dt.since start) :=
      fun pre line start x ht ↦ (closes_iff hstep start x.dt).mpr (h _ _ _ _ ht)
    have hfirst := windowsOf_isPrefix hstep lines
    obtain ⟨hopen, hchain⟩ := @windows_sound _ (closesAt stepSeconds) (seen lines).1
    refine ⟨fun pre line start x ht ↦ ?_, ⟨?_, fun w hw start hs ↦ ?_⟩,
      fun w hw start hs x hx ↦ ?_, ?_⟩
    · exact ht.closes_iff.trans (hclock _ _ _ _ ht)
    · rw [logStatics_eq]
    · obtain ⟨head, tail, rfl, -⟩ := hopen w (hfirst.subset hw)
      obtain rfl := Option.some.inj hs
      exact stamped_countWindow head tail
    · obtain ⟨head, tail, rfl, htail⟩ := hopen w (hfirst.subset hw)
      obtain rfl := Option.some.inj hs
      rcases List.mem_cons.mp hx with rfl | hx
      · rw [DateTime.since]
        omega
      · obtain ⟨hmem, hclose⟩ := htail x hx
        obtain ⟨pre, line, ht⟩ := tested_of_mem_steps hmem
        have hlt : ¬ stepSeconds ≤ x.dt.since head.dt := by
          rw [← hclock _ _ _ _ ht, show closes stepSeconds head.dt x.dt = false from hclose]
          exact Bool.false_ne_true
        omega
    · have hchained := List.IsChain.prefix hchain hfirst
      refine List.IsChain.imp (fun w w' hw start hs start' hs' ↦ ?_) hchained
      obtain ⟨head, tail, head', tail', rfl, rfl, hmem, hclose⟩ := hw
      obtain rfl := Option.some.inj hs
      obtain rfl := Option.some.inj hs'
      obtain ⟨pre, line, ht⟩ := tested_of_mem_steps hmem
      exact (hclock _ _ _ _ ht).mp hclose

/-- Two lines eleven minutes apart. -/
theorem windowLaw_elevenMinutes :
    WindowLaw (lit "a") 600 [sampleLine "10:25:00" "x" "r", sampleLine "10:36:00" "x" "r"] := by
  refine (windowLaw_iff (by decide) _).mpr fun pre line start x ht ↦ ?_
  obtain ⟨hlines, hreads, hgoesOn, hbegan⟩ := ht
  cases pre with
  | nil => exact absurd hbegan (by simp [logLoop, LogState.init])
  | cons l pre =>
    obtain ⟨rfl, hrest⟩ := List.cons_prefix_cons.mp hlines
    cases pre with
    | cons l' pre => exact absurd hrest.length_le (by simp)
    | nil =>
      obtain ⟨rfl, -⟩ := List.cons_prefix_cons.mp hrest
      simp only [sampleLine_eq] at hbegan hreads ⊢
      obtain rfl : sampleTime 10 25 0 = start := Option.some.inj (.trans (by decide +kernel) hbegan)
      obtain rfl : ⟨sampleTime 10 36 0, lit "x", lit "r"⟩ = x :=
        Except.ok.inj (Option.some.inj (.trans (by decide +kernel) hreads))
      decide +kernel

/-- A line a second older than the first closes the window. -/
theorem not_windowLaw_older :
    ¬ WindowLaw (lit "a") 600 [sampleLine "10:25:00" "x" "r", sampleLine "10:24:59" "x" "r"] := by
  intro h
  have ht : Tested (lit "a") 600 [sampleLine "10:25:00" "x" "r", sampleLine "10:24:59" "x" "r"]
      [sampleLine "10:25:00" "x" "r"] (sampleLine "10:24:59" "x" "r") (sampleTime 10 25 0)
      ⟨sampleTime 10 24 59, lit "x", lit "r"⟩ := by
    simp only [sampleLine_eq]
    exact ⟨⟨[], rfl⟩, by decide +kernel, by decide +kernel, by decide +kernel⟩
  have hclosing := h.closing _ _ _ _ ht
  simp only [sampleLine_eq] at hclosing
  exact absurd hclosing (by decide +kernel)

end ImgPredictor
