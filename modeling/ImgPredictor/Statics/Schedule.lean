import ImgPredictor.Statics.Rotation
import ImgPredictor.Statics.Strptime

/-!
# The cron table

`cron.lst.tpl` moves the log at 0:01, runs the statistics over what was moved at 0:10 and removes
old files at 0:20, every night.  Between the first and the second the workers have nine minutes to
open `error.log` again.

If they all do, every event of every night is one that `Site.Allowed` asks for, and what the
statistics are run over can be said without files (`inputs_days`): a line goes into the file of the
first night after it, unless its worker had opened the new log already.
-/

set_option autoImplicit false

namespace ImgPredictor

open Bytes DateTime

namespace Site

/-! ## Dates -/

/-- `date +"%Y%m%d"` -/
def ymd (t : DateTime) : Bytes :=
  padded 4 t.year ++ padded 2 t.month ++ padded 2 t.day

/-- Different days have different names. -/
theorem toOrdinal_eq_of_ymd {t t' : DateTime} (h : ymd t = ymd t') :
    t.toOrdinal = t'.toOrdinal := by
  have hlength : ∀ t : DateTime, (padded 4 t.year).length = 4 ∧
      (padded 2 t.month).length = 2 := by
    intro t
    have hdate := t.date
    exact ⟨length_padded (k := 3) (by omega), length_padded (k := 1) (by omega)⟩
  have hspelled : ∀ {width n m : ℕ}, padded width n = padded width m → n = m := by
    intro width n m heq
    rw [← spelled_padded width n, heq, spelled_padded]
  obtain ⟨hyear, hmonth⟩ := hlength t
  obtain ⟨hyear', hmonth'⟩ := hlength t'
  rw [ymd, ymd, List.append_assoc, List.append_assoc] at h
  obtain ⟨hy, h⟩ := List.append_inj h (hyear.trans hyear'.symm)
  obtain ⟨hm, hd⟩ := List.append_inj h (hmonth.trans hmonth'.symm)
  rw [DateTime.toOrdinal, DateTime.toOrdinal, hspelled hy, hspelled hm, hspelled hd]

/-! ## Days -/

/-- What a worker does. -/
inductive WorkerEvent (ι : Type) where
  /-- It writes a line. -/
  | write (worker : ι) (line : Bytes)
  /-- It opens `error.log` again. -/
  | reopen (worker : ι)

variable {ι : Type}

/-- As an event of the site. -/
def WorkerEvent.toEvent : WorkerEvent ι → Event ι
  | .write worker line => .write worker line
  | .reopen worker => .reopen worker

/-- A day, from midnight to midnight, with what the workers do between the jobs. -/
structure Day (ι : Type) where
  /-- When the jobs are run. -/
  today : DateTime
  /-- Until 0:01. -/
  early : List (WorkerEvent ι)
  /-- From 0:01 to 0:10. -/
  between : List (WorkerEvent ι)
  /-- From 0:10 to 0:20. -/
  later : List (WorkerEvent ι)
  /-- The dated logs that are removed at 0:20. -/
  expired : List Bytes
  /-- From 0:20 on. -/
  rest : List (WorkerEvent ι)
  /-- All workers follow the signal of `log_rotate.sh` before the statistics are run. -/
  reopened : ∀ worker, .reopen worker ∈ between

/-- The date the moved log gets into its name. -/
def Day.date (d : Day ι) : Bytes := ymd d.today

/-- From `log_rotate.sh` to `run_statics.sh`. -/
def Day.night (d : Day ι) : List (Event ι) :=
  .rotate d.date :: d.between.map WorkerEvent.toEvent ++ [.statics d.date]

/-- What happens on a day. -/
def Day.events (d : Day ι) : List (Event ι) :=
  d.early.map WorkerEvent.toEvent ++ (d.night ++ (d.later.map WorkerEvent.toEvent ++
    (d.expired.map .expire ++ d.rest.map WorkerEvent.toEvent)))

/-! ## What is read when -/

/-- What is written. -/
def WorkerEvent.lines : WorkerEvent ι → List Bytes
  | .write _ line => [line]
  | .reopen _ => []

/-- The lines of some events. -/
def linesOf (es : List (WorkerEvent ι)) : List Bytes := es.flatMap WorkerEvent.lines

variable [DecidableEq ι]

/-- The workers that have opened the new log after an event. -/
def WorkerEvent.done (done : ι → Bool) : WorkerEvent ι → ι → Bool
  | .write .. => done
  | .reopen worker => Function.update done worker true

/-- What is written to the new log, if `side` holds, and to the old one, if it does not. -/
def WorkerEvent.linesOn (side : Bool) (done : ι → Bool) : WorkerEvent ι → List Bytes
  | .write worker line => if done worker = side then [line] else []
  | .reopen _ => []

/-- The lines that some events write to the new log, or to the old one. -/
def linesOn (side : Bool) : (ι → Bool) → List (WorkerEvent ι) → List Bytes
  | _, [] => []
  | done, e :: es => e.linesOn side done ++ linesOn side (e.done done) es

/-- What the statistics are run over on the given days, if `carried` is in the log before them. -/
def inputsOf (carried : List Bytes) : List (Day ι) → List (List Bytes)
  | [] => []
  | d :: days => (carried ++ linesOf d.early ++ linesOn false (fun _ ↦ false) d.between) ::
    inputsOf (linesOn true (fun _ ↦ false) d.between ++ linesOf d.later ++ linesOf d.rest) days

/-- What is in the log after the given days. -/
def carriedOver (carried : List Bytes) : List (Day ι) → List Bytes
  | [] => carried
  | d :: days =>
    carriedOver (linesOn true (fun _ ↦ false) d.between ++ linesOf d.later ++ linesOf d.rest) days

/-- What the workers do on a day. -/
def Day.work (d : Day ι) : List (WorkerEvent ι) := d.early ++ d.between ++ d.later ++ d.rest

/-- Every line goes to one of the two logs. -/
theorem linesOn_perm (done : ι → Bool) (es : List (WorkerEvent ι)) :
    (linesOn false done es ++ linesOn true done es).Perm (linesOf es) := by
  induction es generalizing done with
  | nil => exact .nil
  | cons e es ih =>
    have hone : (e.linesOn false done ++ e.linesOn true done).Perm e.lines := by
      cases e with
      | write worker line =>
        rw [WorkerEvent.linesOn, WorkerEvent.linesOn, WorkerEvent.lines]
        cases done worker <;> exact .refl _
      | reopen worker => exact .nil
    rw [linesOn, linesOn, linesOf, List.flatMap_cons, List.append_assoc]
    refine List.Perm.trans ?_ (hone.append (ih (e.done done)))
    rw [List.append_assoc]
    refine List.Perm.append_left _ ?_
    rw [← List.append_assoc, ← List.append_assoc]
    exact List.perm_append_comm.append_right _

/-- **Every line is read in one night, or still in the log.** -/
theorem inputsOf_perm (carried : List Bytes) (days : List (Day ι)) :
    ((inputsOf carried days).flatten ++ carriedOver carried days).Perm
      (carried ++ linesOf (days.flatMap Day.work)) := by
  induction days generalizing carried with
  | nil => simp [inputsOf, carriedOver, linesOf]
  | cons d days ih =>
    have hrest := ih (linesOn true (fun _ ↦ false) d.between ++ linesOf d.later ++ linesOf d.rest)
    have hbetween := linesOn_perm (fun _ ↦ false) d.between
    rw [inputsOf, carriedOver, List.flatten_cons, List.append_assoc]
    refine (hrest.append_left _).trans ?_
    simp only [linesOf, List.flatMap_cons, List.flatMap_append, Day.work, List.append_assoc] at *
    refine List.Perm.append_left _ (List.Perm.append_left _ ?_)
    rw [← List.append_assoc]
    exact hbetween.append_right _

/-! ## The workers -/

/-- The workers that are done write to `error.log`, the others still to the old file. -/
structure Reopening (s : Site ι) (old : LogName) (done : ι → Bool) : Prop where
  /-- The files are in order. -/
  accounted : s.Accounted
  /-- Not done. -/
  stale : ∀ worker, done worker = false → s.dir old = some (s.target worker)
  /-- Done. -/
  fresh : ∀ worker, done worker = true → s.dir .errorLog = some (s.target worker)

/-- What the workers leave alone. -/
structure Untouched (s s' : Site ι) : Prop where
  /-- The dated logs. -/
  dated : ∀ date, s'.dir (.dated date) = s.dir (.dated date)
  /-- The files to be read. -/
  unread : s'.unread = s.unread
  /-- The files that were read. -/
  inputs : s'.inputs = s.inputs

omit [DecidableEq ι] in
theorem Untouched.refl (s : Site ι) : s.Untouched s := ⟨fun _ ↦ rfl, rfl, rfl⟩

omit [DecidableEq ι] in
theorem Untouched.trans {s₁ s₂ s₃ : Site ι} (h₁ : s₁.Untouched s₂) (h₂ : s₂.Untouched s₃) :
    s₁.Untouched s₃ :=
  ⟨fun date ↦ (h₂.dated date).trans (h₁.dated date), h₂.unread.trans h₁.unread,
    h₂.inputs.trans h₁.inputs⟩

variable {s : Site ι} {date : Bytes} {done : ι → Bool}

theorem untouched_step (s : Site ι) (e : WorkerEvent ι) : s.Untouched (s.step e.toEvent) := by
  cases e with
  | write worker line => exact ⟨fun _ ↦ rfl, rfl, rfl⟩
  | reopen worker =>
    rw [WorkerEvent.toEvent, step]
    rcases s.dir .errorLog with _ | file
    · have hdir : ∀ date, Function.update s.dir .errorLog (some s.made) (.dated date)
          = s.dir (.dated date) := fun date ↦ Function.update_of_ne (by simp) _ _
      exact ⟨hdir, rfl, rfl⟩
    · exact ⟨fun _ ↦ rfl, rfl, rfl⟩

/-- **What one event of a worker does.** -/
theorem Reopening.step (h : s.Reopening (.dated date) done) (e : WorkerEvent ι) :
    (s.step e.toEvent).Reopening (.dated date) (e.done done) ∧
      (s.step e.toEvent).contentOf (.dated date)
        = s.contentOf (.dated date) ++ e.linesOn false done ∧
      (s.step e.toEvent).contentOf .errorLog
        = s.contentOf .errorLog ++ e.linesOn true done := by
  cases e with
  | write worker line =>
    refine ⟨⟨accounted_write h.accounted worker line, h.stale, h.fresh⟩, ?_⟩
    cases hdone : done worker with
    | false =>
      have hname := h.stale worker hdone
      simp only [WorkerEvent.toEvent, contentOf_write h.accounted hname]
      simp [WorkerEvent.linesOn, hdone]
    | true =>
      have hname := h.fresh worker hdone
      simp only [WorkerEvent.toEvent, contentOf_write h.accounted hname]
      simp [WorkerEvent.linesOn, hdone]
  | reopen worker =>
    have hcontent := contentOf_reopen h.accounted worker
    refine ⟨⟨accounted_reopen h.accounted worker, ?_, ?_⟩, ?_, ?_⟩
    · intro w hw
      rw [WorkerEvent.done, Function.update_apply] at hw
      split at hw
      · exact absurd hw (by simp)
      · rename_i hne
        rw [(untouched_step s (.reopen worker)).dated, h.stale w hw, WorkerEvent.toEvent, Site.step]
        rcases s.dir .errorLog with _ | file <;> exact congrArg some (by simp [hne])
    · intro w hw
      rw [WorkerEvent.done, Function.update_apply] at hw
      rw [WorkerEvent.toEvent, Site.step]
      rcases hcur : s.dir .errorLog with _ | file
      · simp only [Function.update_self]
        split at hw
        · rename_i heq
          rw [heq, Function.update_self]
        · exact absurd (h.fresh w hw) (by simp [hcur])
      · simp only [hcur]
        split at hw
        · rename_i heq
          rw [heq, Function.update_self]
        · rename_i hne
          rw [Function.update_of_ne hne, ← h.fresh w hw, hcur]
    · exact (hcontent _).trans (List.append_nil _).symm
    · exact (hcontent _).trans (List.append_nil _).symm

/-- The workers that have opened the new log after some events. -/
def doneAfter (done : ι → Bool) (es : List (WorkerEvent ι)) : ι → Bool :=
  es.foldl (fun done e ↦ e.done done) done

theorem doneAfter_mono {w : ι} (h : done w = true) (es : List (WorkerEvent ι)) :
    doneAfter done es w = true := by
  induction es generalizing done with
  | nil => exact h
  | cons e es ih =>
    refine ih ?_
    cases e with
    | write _ _ => exact h
    | reopen worker =>
      change Function.update done worker true w = true
      rw [Function.update_apply]
      split
      · rfl
      · exact h

theorem doneAfter_of_mem {w : ι} {es : List (WorkerEvent ι)} (h : .reopen w ∈ es) :
    doneAfter done es w = true := by
  induction es generalizing done with
  | nil => exact absurd h List.not_mem_nil
  | cons e es ih =>
    rcases List.mem_cons.mp h with rfl | h
    · exact doneAfter_mono (Function.update_self ..) es
    · exact ih h

/-- When all are done, all lines are theirs. -/
theorem linesOn_of_done {done : ι → Bool} (h : ∀ w, done w = true) (es : List (WorkerEvent ι)) :
    linesOn true done es = linesOf es := by
  induction es generalizing done with
  | nil => rfl
  | cons e es ih =>
    have hdone : ∀ w, e.done done w = true := fun w ↦ doneAfter_mono (h w) [e]
    have hone : e.linesOn true done = e.lines := by
      cases e with
      | write worker line => exact if_pos (h worker)
      | reopen worker => rfl
    rw [linesOn, ih hdone, hone, linesOf, linesOf, List.flatMap_cons]

theorem untouched_run (s : Site ι) (es : List (WorkerEvent ι)) :
    s.Untouched (s.run (es.map WorkerEvent.toEvent)) := by
  induction es generalizing s with
  | nil => exact .refl s
  | cons e es ih => exact (untouched_step s e).trans (ih _)

/-- **What the workers do while they open the new log.** -/
theorem Reopening.run (h : s.Reopening (.dated date) done) (es : List (WorkerEvent ι)) :
    (s.run (es.map WorkerEvent.toEvent)).Reopening (.dated date) (doneAfter done es) ∧
      (s.run (es.map WorkerEvent.toEvent)).contentOf (.dated date)
        = s.contentOf (.dated date) ++ linesOn false done es ∧
      (s.run (es.map WorkerEvent.toEvent)).contentOf .errorLog
        = s.contentOf .errorLog ++ linesOn true done es := by
  induction es generalizing s done with
  | nil => exact ⟨h, (List.append_nil _).symm, (List.append_nil _).symm⟩
  | cons e es ih =>
    obtain ⟨hone, hdated, hlog⟩ := h.step e
    obtain ⟨hrest, hdated', hlog'⟩ := ih hone
    rw [hdated, List.append_assoc] at hdated'
    rw [hlog, List.append_assoc] at hlog'
    exact ⟨hrest, hdated', hlog'⟩

/-! ## A day -/

theorem run_append (s : Site ι) (es es' : List (Event ι)) :
    s.run (es ++ es') = (s.run es).run es' := List.foldl_append

theorem orderly_append {es es' : List (Event ι)} :
    s.Orderly (es ++ es') ↔ s.Orderly es ∧ (s.run es).Orderly es' := by
  induction es generalizing s with
  | nil => exact (true_and _).symm.to_iff
  | cons e es ih => exact (and_congr_right fun _ ↦ ih).trans and_assoc.symm

/-- What workers do is always allowed. -/
theorem orderly_workers (s : Site ι) (es : List (WorkerEvent ι)) :
    s.Orderly (es.map WorkerEvent.toEvent) := by
  induction es generalizing s with
  | nil => trivial
  | cons e es ih =>
    refine ⟨?_, ih _⟩
    cases e <;> trivial

/-- Between the jobs of one night and those of the next: everything that was moved has been read,
and all workers write to `error.log`. -/
structure Rested (s : Site ι) (used : List Bytes) : Prop where
  /-- The files are in order. -/
  accounted : s.Accounted
  /-- Nothing is left to be read. -/
  unread : s.unread = []
  /-- The workers write to `error.log`. -/
  fresh : ∀ worker, s.dir .errorLog = some (s.target worker)
  /-- The dates there are logs of. -/
  used : ∀ date, (s.dir (.dated date)).isSome = true → date ∈ used

omit [DecidableEq ι] in
theorem rested_init : (init : Site ι).Rested [] :=
  ⟨accounted_init, rfl, fun _ ↦ rfl, fun _ h ↦ absurd h (by simp [init])⟩

variable {used : List Bytes}

/-- The workers between two nights. -/
theorem Rested.workers (h : s.Rested used) (es : List (WorkerEvent ι)) :
    (s.run (es.map WorkerEvent.toEvent)).Rested used ∧
      (s.run (es.map WorkerEvent.toEvent)).inputs = s.inputs ∧
      (s.run (es.map WorkerEvent.toEvent)).contentOf .errorLog
        = s.contentOf .errorLog ++ linesOf es := by
  -- nobody is left at the log of any date
  have hall : s.Reopening (.dated []) fun _ ↦ true :=
    ⟨h.accounted, fun _ hw ↦ absurd hw (by simp), fun worker _ ↦ h.fresh worker⟩
  obtain ⟨hrun, -, hlog⟩ := hall.run es
  have hsame := untouched_run s es
  rw [linesOn_of_done fun _ ↦ rfl] at hlog
  refine ⟨⟨hrun.accounted, hsame.unread.trans h.unread, fun worker ↦ ?_, fun date hdate ↦ ?_⟩,
    hsame.inputs, hlog⟩
  · exact hrun.fresh worker (doneAfter_mono rfl es)
  · exact h.used date (hsame.dated date ▸ hdate)

/-- The log is moved. -/
theorem Rested.rotate [Nonempty ι] (h : s.Rested used) (hdate : date ∉ used) :
    s.Allowed (.rotate date) ∧
      (s.step (.rotate date)).Reopening (.dated date) (fun _ ↦ false) ∧
      (s.step (.rotate date)).unread = [date] ∧
      (s.step (.rotate date)).inputs = s.inputs ∧
      (s.step (.rotate date)).contentOf (.dated date) = s.contentOf .errorLog ∧
      (s.step (.rotate date)).contentOf .errorLog = [] ∧
      ∀ date', ((s.step (.rotate date)).dir (.dated date')).isSome = true →
        date' ∈ date :: used := by
  have hallowed : s.dir (.dated date) = none := by
    rw [← Option.not_isSome_iff_eq_none]
    exact fun hsome ↦ hdate (h.used date hsome)
  have haccounted := accounted_rotate h.accounted hallowed
  refine ⟨hallowed, ?_⟩
  obtain ⟨worker⟩ := ‹Nonempty ι›
  have hcur := h.fresh worker
  have hstep : s.step (.rotate date) = { s with
      dir := Function.update (Function.update s.dir .errorLog none) (.dated date)
        (some (s.target worker))
      unread := s.unread ++ [date] } := by
    rw [step, hcur]
  rw [hstep] at haccounted ⊢
  refine ⟨⟨haccounted, fun w _ ↦ ?_, fun w hw ↦ absurd hw (by simp)⟩, ?_, rfl, ?_, ?_, ?_⟩
  · change Function.update _ _ _ _ = _
    rw [Function.update_self, ← hcur, h.fresh w]
  · simp [h.unread]
  · simp [contentOf, hcur]
  · simp [contentOf]
  · intro date' hdate'
    simp only [Function.update_apply, LogName.dated.injEq] at hdate'
    split at hdate'
    · rename_i heq
      exact heq ▸ List.mem_cons_self
    · exact List.mem_cons_of_mem _ (h.used date' (by simpa using hdate'))

/-- Old logs are removed. -/
theorem Rested.expire (h : s.Rested used) (dates : List Bytes) :
    s.Orderly (dates.map .expire) ∧ (s.run (dates.map .expire)).Rested used ∧
      (s.run (dates.map .expire)).inputs = s.inputs ∧
      (s.run (dates.map .expire)).contentOf .errorLog = s.contentOf .errorLog := by
  induction dates generalizing s with
  | nil => exact ⟨trivial, h, rfl, rfl⟩
  | cons date dates ih =>
    have hread : date ∉ s.unread := by simp [h.unread]
    have hcur : Function.update s.dir (.dated date) none .errorLog = s.dir .errorLog :=
      Function.update_of_ne (by simp) _ _
    have hrested : (s.step (.expire date)).Rested used := by
      refine ⟨accounted_expire h.accounted hread, h.unread, fun w ↦ hcur.trans (h.fresh w), ?_⟩
      intro date' hdate'
      refine h.used date' ?_
      simp only [step, Function.update_apply] at hdate'
      split at hdate'
      · exact absurd hdate' (by simp)
      · exact hdate'
    obtain ⟨horder, hrest, hinputs, hlog⟩ := ih hrested
    refine ⟨⟨hread, horder⟩, hrest, hinputs, hlog.trans ?_⟩
    change ((Function.update s.dir (.dated date) none .errorLog).map s.content).getD [] = _
    rw [hcur, contentOf]

/-- **From the move to the statistics.** -/
theorem Rested.night [Nonempty ι] (h : s.Rested used) (d : Day ι) (hdate : d.date ∉ used) :
    s.Orderly d.night ∧ (s.run d.night).Rested (d.date :: used) ∧
      (s.run d.night).inputs
        = s.inputs ++ [s.contentOf .errorLog ++ linesOn false (fun _ ↦ false) d.between] ∧
      (s.run d.night).contentOf .errorLog = linesOn true (fun _ ↦ false) d.between := by
  obtain ⟨hallowed, hmoved, hunread, hinputs, hold, hnew, hused⟩ := h.rotate hdate
  generalize hs₁ : s.step (.rotate d.date) = s₁ at hmoved hunread hinputs hold hnew hused
  obtain ⟨hdone, hdated, hlog⟩ := hmoved.run d.between
  have hsame := untouched_run s₁ d.between
  have horder : s₁.Orderly (d.between.map WorkerEvent.toEvent ++ [.statics d.date]) ↔
      (s₁.run (d.between.map WorkerEvent.toEvent)).Allowed (.statics d.date) := by
    rw [orderly_append, Orderly, Orderly, and_true]
    exact and_iff_right (orderly_workers s₁ d.between)
  have hrun : s.run d.night
      = (s₁.run (d.between.map WorkerEvent.toEvent)).step (.statics d.date) := by
    rw [Day.night, List.cons_append, ← hs₁]
    exact run_append _ _ _
  generalize s₁.run (d.between.map WorkerEvent.toEvent) = s₂ at hdone hdated hlog hsame hrun horder
  have hfresh : ∀ worker, s₂.dir .errorLog = some (s₂.target worker) :=
    fun worker ↦ hdone.fresh worker (doneAfter_of_mem (d.reopened worker))
  have hunread₂ : s₂.unread = [d.date] := hsame.unread.trans hunread
  have hleft : s₂.Allowed (.statics d.date) := by
    refine ⟨by simp [hunread₂], fun worker hworker ↦ ?_⟩
    exact nomatch hdone.accounted.names _ _ _ hworker (hfresh worker)
  rw [hrun]
  refine ⟨⟨hallowed, hs₁ ▸ horder.mpr hleft⟩, ⟨?_, ?_, hfresh, fun date' hdate' ↦ ?_⟩, ?_, ?_⟩
  · exact accounted_statics hdone.accounted hleft.1 hleft.2
  · simp [step, hunread₂]
  · exact hused date' (hsame.dated date' ▸ hdate')
  · change s₂.inputs ++ [s₂.contentOf (.dated d.date)] = _
    rw [hsame.inputs, hinputs, hdated, hold]
  · change s₂.contentOf .errorLog = _
    rw [hlog, hnew, List.nil_append]

/-- **A day.** -/
theorem Rested.day [Nonempty ι] (h : s.Rested used) (d : Day ι) (hdate : d.date ∉ used) :
    s.Orderly d.events ∧ (s.run d.events).Rested (d.date :: used) ∧
      (s.run d.events).inputs = s.inputs ++
        [s.contentOf .errorLog ++ linesOf d.early ++ linesOn false (fun _ ↦ false) d.between] ∧
      (s.run d.events).contentOf .errorLog
        = linesOn true (fun _ ↦ false) d.between ++ linesOf d.later ++ linesOf d.rest := by
  rw [Day.events]
  obtain ⟨h₁, hinputs₁, hlog₁⟩ := h.workers d.early
  obtain ⟨horder₂, h₂, hinputs₂, hlog₂⟩ := h₁.night d hdate
  obtain ⟨h₃, hinputs₃, hlog₃⟩ := h₂.workers d.later
  obtain ⟨horder₄, h₄, hinputs₄, hlog₄⟩ := h₃.expire d.expired
  obtain ⟨h₅, hinputs₅, hlog₅⟩ := h₄.workers d.rest
  simp only [run_append, orderly_append]
  refine ⟨⟨orderly_workers _ _, horder₂, orderly_workers _ _, horder₄, orderly_workers _ _⟩,
    h₅, ?_, ?_⟩
  · rw [hinputs₅, hinputs₄, hinputs₃, hinputs₂, hlog₁, hinputs₁]
  · rw [hlog₅, hlog₄, hlog₃, hlog₂]

/-! ## Any number of days -/

theorem Rested.days [Nonempty ι] (h : s.Rested used) {days : List (Day ι)}
    (hdates : (days.map Day.date).Nodup) (hnew : ∀ d ∈ days, d.date ∉ used) :
    s.Orderly (days.flatMap Day.events) ∧
      (s.run (days.flatMap Day.events)).unread = [] ∧
      (s.run (days.flatMap Day.events)).inputs
        = s.inputs ++ inputsOf (s.contentOf .errorLog) days ∧
      (s.run (days.flatMap Day.events)).contentOf .errorLog
        = carriedOver (s.contentOf .errorLog) days := by
  induction days generalizing s used with
  | nil => exact ⟨trivial, h.unread, (List.append_nil _).symm, rfl⟩
  | cons d days ih =>
    rw [List.map_cons, List.nodup_cons] at hdates
    obtain ⟨horder, hrest, hinputs, hlog⟩ := h.day d (hnew d List.mem_cons_self)
    have hnew' : ∀ d' ∈ days, d'.date ∉ d.date :: used := by
      intro d' hd' hmem
      rcases List.mem_cons.mp hmem with heq | hmem
      · exact hdates.1 (heq ▸ List.mem_map_of_mem hd')
      · exact hnew d' (List.mem_cons_of_mem _ hd') hmem
    obtain ⟨horder', hunread, hinputs', hlog'⟩ := ih hrest hdates.2 hnew'
    rw [List.flatMap_cons, run_append, orderly_append]
    refine ⟨⟨horder, horder'⟩, hunread, ?_, ?_⟩
    · rw [hinputs', hinputs, hlog, List.append_assoc]
      rfl
    · rw [hlog', hlog]
      rfl

omit [DecidableEq ι] in
/-- No two days have the same date. -/
theorem nodup_dates {days : List (Day ι)}
    (h : days.Pairwise fun d d' ↦ d.today.toOrdinal < d'.today.toOrdinal) :
    (days.map Day.date).Nodup := by
  rw [List.Nodup, List.pairwise_map]
  exact h.imp fun hlt heq ↦ hlt.ne (toOrdinal_eq_of_ymd heq)

/-- What has been read after some days, and what has not. -/
theorem read_days [Nonempty ι] {days : List (Day ι)}
    (h : days.Pairwise fun d d' ↦ d.today.toOrdinal < d'.today.toOrdinal) :
    ((init : Site ι).run (days.flatMap Day.events)).inputs = inputsOf [] days ∧
      ((init : Site ι).run (days.flatMap Day.events)).left = carriedOver [] days := by
  obtain ⟨-, hunread, hinputs, hlog⟩ := rested_init.days (nodup_dates h) (by simp)
  refine ⟨hinputs, ?_⟩
  rw [left, hunread, hlog]
  rfl

/-- **What the statistics are run over**: whatever the workers write and whenever they open the new
log, as long as they all do so in time, everything that happens is allowed, every night's run gets
the lines since the last one, and the lines written to the new log are kept for the next. -/
theorem inputs_days [Nonempty ι] {days : List (Day ι)}
    (h : days.Pairwise fun d d' ↦ d.today.toOrdinal < d'.today.toOrdinal) :
    (init : Site ι).Orderly (days.flatMap Day.events) ∧
      ((init : Site ι).run (days.flatMap Day.events)).inputs = inputsOf [] days ∧
      ((init : Site ι).run (days.flatMap Day.events)).left = carriedOver [] days := by
  obtain ⟨horder, -⟩ := rested_init.days (nodup_dates h) (by simp)
  exact ⟨horder, read_days h⟩

/-- Both workers open the new log. -/
theorem sample_reopened (early : List Bytes) : ∀ worker : Bool,
    .reopen worker ∈ [.reopen true] ++ early.map (WorkerEvent.write false) ++ [.reopen false] := by
  simp

theorem sample_date : 1 ≤ 2016 ∧ 2016 ≤ 9999 ∧ 1 ≤ 3 ∧ 3 ≤ 12 ∧ 1 ≤ 9 ∧ 9 ≤ daysInMonth 2016 3 := by
  decide

theorem sample_minute : 0 < 24 ∧ 1 < 60 ∧ 0 < 60 := by decide

/-- Two days of two workers, one of which is late to open the new log. -/
def sampleDays : List (Day Bool) :=
  [{  today := sampleTime 0 1 0 sample_minute
      early := [.write true (lit "a\n")]
      between := [.reopen true] ++ [lit "b\n"].map (WorkerEvent.write false) ++ [.reopen false]
      later := [.write false (lit "c\n")]
      expired := []
      rest := []
      reopened := sample_reopened _ },
    { today := { sampleTime 0 1 0 sample_minute with day := 9, date := sample_date }
      early := []
      between := [.reopen true] ++ [].map (WorkerEvent.write false) ++ [.reopen false]
      later := []
      expired := [ymd (sampleTime 0 1 0 sample_minute)]
      rest := [.write true (lit "d\n")]
      reopened := sample_reopened _ }]

theorem inputs_sampleDays :
    ((init : Site Bool).run (sampleDays.flatMap Day.events)).inputs
      = [[lit "a\n", lit "b\n"], [lit "c\n"]] :=
  (inputs_days (by decide)).2.1

end Site

end ImgPredictor
