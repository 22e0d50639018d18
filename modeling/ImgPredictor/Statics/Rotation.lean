import Mathlib.Data.List.Perm.Basic
import Mathlib.Logic.Function.Basic
import ImgPredictor.Statics.Totals

/-!
# Rotating the log

A minute past midnight `log_rotate.sh` moves `error.log` to a name with the date in it and signals
nginx, ten minutes past `run_statics.sh` runs the statistics over the file of that name, and later
files that are a month old are removed.  The workers of nginx keep writing to the file that was
moved until they have got round to opening `error.log` again, each at its own time.

* A `Site` has the names of the directory, the files behind them and what the workers have open.
  Moving a file gives its number another name, and a worker that has it open goes on writing to it.
* `Site.step` is what can happen, one event at a time and in any order; `Site.Allowed` is what has
  to hold before an event so that nothing is lost by it.

`accounted_run`: as long as no date is used twice and no file is read before the workers have left
it, every line that is written is in exactly one file that was read or will be.  So the rows of all
days add up to what was written (`sum_counter_run`), if no run over a file raises an exception.

What is assumed: the location logs to the `error.log` that `log_rotate.sh` moves, and not to a file
of its own as `nginx.conf.tpl` has it; the scripts agree on the directory; a line is written as a
whole; and the jobs do what they say, one after the other.  The access log is moved along and read
by nobody, so it is left out.
-/

set_option autoImplicit false

namespace ImgPredictor

open Bytes Lists

/-! ## The files -/

/-- The names the error log has. -/
inductive LogName where
  /-- `error.log` -/
  | errorLog
  /-- `error.log_$(date +"%Y%m%d").log` -/
  | dated (date : Bytes)
  deriving DecidableEq

/-- The directory of the logs, the files the workers of nginx have open, and what has happened.
Files are told apart by numbers, so that moving one is giving its number another name. -/
structure Site (ι : Type) where
  /-- The names that are in use. -/
  dir : LogName → Option ℕ
  /-- What is in the files. -/
  content : ℕ → List Bytes
  /-- The file a worker writes to. -/
  target : ι → ℕ
  /-- How many files there have been. -/
  made : ℕ
  /-- The lines written so far. -/
  written : List Bytes
  /-- What the statistics have been run over. -/
  inputs : List (List Bytes)
  /-- The dates under which there is a file that the statistics have not been run over. -/
  unread : List Bytes

namespace Site

variable {ι : Type}

/-- One empty log, which all workers have open. -/
def init : Site ι where
  dir := fun name ↦ if name = .errorLog then some 0 else none
  content := fun _ ↦ []
  target := fun _ ↦ 0
  made := 1
  written := []
  inputs := []
  unread := []

/-- What is in the file of a name. -/
def contentOf (s : Site ι) (name : LogName) : List Bytes := ((s.dir name).map s.content).getD []

/-- Every line written is in one of the files that were read, or in one that was not. -/
structure Accounted (s : Site ι) : Prop where
  /-- The lines. -/
  lines : s.written.Perm (s.inputs.flatten ++
    (s.unread.flatMap fun date ↦ s.contentOf (.dated date)) ++ s.contentOf .errorLog)
  /-- No file has two names. -/
  names : ∀ name name' file, s.dir name = some file → s.dir name' = some file → name = name'
  /-- The next file has no name yet. -/
  made : ∀ name file, s.dir name = some file → file < s.made
  /-- A date is noted once. -/
  nodup : s.unread.Nodup
  /-- There is a file under it. -/
  found : ∀ date ∈ s.unread, (s.dir (.dated date)).isSome = true
  /-- The workers write to `error.log`, or to a file that has not been read. -/
  targets : ∀ worker, s.dir .errorLog = some (s.target worker) ∨
    ∃ date ∈ s.unread, s.dir (.dated date) = some (s.target worker)

theorem accounted_init : (init : Site ι).Accounted := by
  refine ⟨by simp [init, contentOf], ?_, ?_, .nil, by simp [init], fun _ ↦ .inl rfl⟩
  · intro name name' file h h'
    simp only [init] at h h'
    split at h <;> split at h' <;> simp_all
  · intro name file h
    simp only [init] at h ⊢
    split at h <;> simp_all

/-- The name of the file a worker writes to. -/
theorem Accounted.target_name {s : Site ι} (h : s.Accounted) (worker : ι) :
    ∃ name, s.dir name = some (s.target worker) ∧
      (name = .errorLog ∨ ∃ date ∈ s.unread, name = .dated date) := by
  rcases h.targets worker with hcur | ⟨date, hdate, hdir⟩
  · exact ⟨_, hcur, .inl rfl⟩
  · exact ⟨_, hdir, .inr ⟨date, hdate, rfl⟩⟩

/-! ## What can happen -/

/-- What can happen. -/
inductive Event (ι : Type) where
  /-- A worker writes a line. -/
  | write (worker : ι) (line : Bytes)
  /-- `mv error.log error.log_<date>.log` of `log_rotate.sh` -/
  | rotate (date : Bytes)
  /-- A worker opens `error.log` again. -/
  | reopen (worker : ι)
  /-- `run_statics.sh` -/
  | statics (date : Bytes)
  /-- `find logs -mtime +30 -exec rm` -/
  | expire (date : Bytes)

variable [DecidableEq ι]

/-- What happens. -/
def step (s : Site ι) : Event ι → Site ι
  | .write worker line =>
    { s with
      content := Function.update s.content (s.target worker)
        (s.content (s.target worker) ++ [line])
      written := s.written ++ [line] }
  | .rotate date =>
    match s.dir .errorLog with
    | none => s
    | some file =>
      { s with
        dir := Function.update (Function.update s.dir .errorLog none) (.dated date) (some file)
        unread := s.unread ++ [date] }
  | .reopen worker =>
    match s.dir .errorLog with
    | some file => { s with target := Function.update s.target worker file }
    | none =>
      { s with
        dir := Function.update s.dir .errorLog (some s.made)
        content := Function.update s.content s.made []
        target := Function.update s.target worker s.made
        made := s.made + 1 }
  | .statics date =>
    { s with inputs := s.inputs ++ [s.contentOf (.dated date)], unread := s.unread.erase date }
  | .expire date => { s with dir := Function.update s.dir (.dated date) none }

/-- What is to be seen to: a date is not used twice, the statistics are run once over a file that no
worker has open any more, and what is removed has been read. -/
def Allowed (s : Site ι) : Event ι → Prop
  | .rotate date => s.dir (.dated date) = none
  | .statics date => date ∈ s.unread ∧ ∀ worker, s.dir (.dated date) ≠ some (s.target worker)
  | .expire date => date ∉ s.unread
  | .write .. | .reopen _ => True

/-- The state after some events. -/
def run (s : Site ι) (events : List (Event ι)) : Site ι := events.foldl step s

/-- Every event is allowed when it happens. -/
def Orderly (s : Site ι) : List (Event ι) → Prop
  | [] => True
  | e :: events => s.Allowed e ∧ (s.step e).Orderly events

/-! ## One event -/

variable {s : Site ι}

/-- A line that is written goes to the file of one name. -/
theorem contentOf_write (h : s.Accounted) {worker : ι} {line : Bytes} {name : LogName}
    (hname : s.dir name = some (s.target worker)) (name' : LogName) :
    (s.step (.write worker line)).contentOf name'
      = s.contentOf name' ++ if name' = name then [line] else [] := by
  rw [contentOf, contentOf, step]
  split
  · rename_i heq
    rw [heq, hname]
    simp
  · rename_i hne
    rcases hdir : s.dir name' with _ | file
    · simp
    · have hfile : file ≠ s.target worker := fun heq ↦
        hne (h.names _ _ _ (heq ▸ hdir) hname)
      simp [Function.update_of_ne hfile]

/-- Adding a line to one of several parts adds it to the whole. -/
theorem flatMap_add_perm {α β : Type} [DecidableEq α] {l : List α} (hl : l.Nodup) {a : α}
    (ha : a ∈ l) (f : α → List β) (b : β) :
    (l.flatMap fun a' ↦ f a' ++ if a' = a then [b] else []).Perm (l.flatMap f ++ [b]) := by
  obtain ⟨l₁, l₂, rfl⟩ := List.append_of_mem ha
  have hnot : a ∉ l₁ ∧ a ∉ l₂ := by
    rw [List.nodup_append, List.nodup_cons] at hl
    exact ⟨fun h ↦ hl.2.2 a h a List.mem_cons_self rfl, hl.2.1.1⟩
  have hrest : ∀ l : List α, a ∉ l →
      (l.flatMap fun a' ↦ f a' ++ if a' = a then [b] else []) = l.flatMap f := by
    intro l hnot
    refine List.flatMap_congr fun a' ha' ↦ ?_
    rw [if_neg fun h : a' = a ↦ hnot (h ▸ ha'), List.append_nil]
  rw [List.flatMap_append, List.flatMap_cons, hrest l₁ hnot.1, hrest l₂ hnot.2, if_pos rfl,
    List.flatMap_append, List.flatMap_cons]
  simp only [List.append_assoc]
  exact (List.perm_append_comm.append_left _).append_left _

theorem accounted_write (h : s.Accounted) (worker : ι) (line : Bytes) :
    (s.step (.write worker line)).Accounted := by
  obtain ⟨name, hname, hkind⟩ := h.target_name worker
  refine ⟨?_, h.names, h.made, h.nodup, h.found, h.targets⟩
  have hadd : ∀ name', (s.step (.write worker line)).contentOf name'
      = s.contentOf name' ++ if name' = name then [line] else [] := contentOf_write h hname
  change (s.written ++ [line]).Perm (s.inputs.flatten ++
    (s.unread.flatMap fun date ↦ (s.step (.write worker line)).contentOf (.dated date)) ++
      (s.step (.write worker line)).contentOf .errorLog)
  simp only [hadd]
  refine (h.lines.append_right [line]).trans ?_
  rcases hkind with rfl | ⟨date, hdate, rfl⟩
  · simp
  · have hpart := flatMap_add_perm h.nodup hdate (fun d ↦ s.contentOf (.dated d)) line
    simp only [LogName.dated.injEq, reduceCtorEq, if_false, List.append_nil]
    refine List.Perm.trans ?_ ((hpart.symm.append_left _).append_right _)
    simp only [List.append_assoc]
    exact (List.perm_append_comm.append_left _).append_left _

/-- Where a name leads to after the move. -/
theorem dir_rotate {file : ℕ} (hcur : s.dir .errorLog = some file) (date : Bytes) (name : LogName) :
    (s.step (.rotate date)).dir name = if name = .dated date then some file
      else if name = .errorLog then none else s.dir name := by
  rw [step, hcur]
  simp only [Function.update_apply]

theorem of_dir_rotate {file : ℕ} (hcur : s.dir .errorLog = some file) {date : Bytes}
    {name : LogName} {file' : ℕ} (hname : (s.step (.rotate date)).dir name = some file') :
    name = .dated date ∧ file' = file ∨ name ≠ .errorLog ∧ s.dir name = some file' := by
  rw [dir_rotate hcur] at hname
  split at hname
  · exact .inl ⟨‹_›, (Option.some.inj hname).symm⟩
  · split at hname
    · exact absurd hname (by simp)
    · exact .inr ⟨‹_›, hname⟩

/-- The other dates are where they were. -/
theorem dir_rotate_of_ne {file : ℕ} (hcur : s.dir .errorLog = some file) {date d : Bytes}
    (hne : d ≠ date) : (s.step (.rotate date)).dir (.dated d) = s.dir (.dated d) := by
  rw [dir_rotate hcur, if_neg (by simpa using hne), if_neg (by simp)]

theorem unread_rotate {file : ℕ} (hcur : s.dir .errorLog = some file) (date : Bytes) :
    (s.step (.rotate date)).unread = s.unread ++ [date] := by
  rw [step, hcur]

/-- A move changes no file. -/
theorem contentOf_rotate (s : Site ι) (date : Bytes) (name : LogName) :
    (s.step (.rotate date)).contentOf name
      = (((s.step (.rotate date)).dir name).map s.content).getD [] := by
  rw [contentOf, step]
  split <;> rfl

/-- The lines stay accounted for: what was in `error.log` is under the date now. -/
theorem lines_rotate (h : s.Accounted) {date : Bytes} {file : ℕ}
    (hcur : s.dir .errorLog = some file) (hother : ∀ d ∈ s.unread, d ≠ date) :
    s.written.Perm (s.inputs.flatten ++ ((s.step (.rotate date)).unread.flatMap fun d ↦
      (s.step (.rotate date)).contentOf (.dated d)) ++
        (s.step (.rotate date)).contentOf .errorLog) := by
  have hold : ∀ d ∈ s.unread,
      (s.step (.rotate date)).contentOf (.dated d) = s.contentOf (.dated d) := by
    intro d hd
    rw [contentOf_rotate, dir_rotate_of_ne hcur (hother d hd), contentOf]
  have hmoved : (s.step (.rotate date)).contentOf (.dated date) = s.contentOf .errorLog := by
    rw [contentOf_rotate, dir_rotate hcur, if_pos rfl, contentOf, hcur]
  have hgone : (s.step (.rotate date)).contentOf .errorLog = [] := by
    rw [contentOf_rotate, dir_rotate hcur, if_neg (by simp), if_pos rfl]
    rfl
  rw [unread_rotate hcur, List.flatMap_append, List.flatMap_congr hold, List.flatMap_singleton,
    hmoved, hgone, List.append_nil, ← List.append_assoc]
  exact h.lines

/-- Moving `error.log` makes it the last of the files not read. -/
theorem accounted_rotate (h : s.Accounted) {date : Bytes} (hdate : s.dir (.dated date) = none) :
    (s.step (.rotate date)).Accounted := by
  rcases hcur : s.dir .errorLog with _ | file
  · have hsame : s.step (.rotate date) = s := by rw [step, hcur]
    rwa [hsame]
  have hnew : date ∉ s.unread := fun hmem ↦ by
    have hfound := h.found date hmem
    rw [hdate] at hfound
    exact Bool.false_ne_true hfound
  have hother : ∀ d ∈ s.unread, d ≠ date := fun d hd heq ↦ hnew (heq ▸ hd)
  have hrest : (s.step (.rotate date)).written = s.written ∧
      (s.step (.rotate date)).inputs = s.inputs ∧ (s.step (.rotate date)).made = s.made ∧
        (s.step (.rotate date)).target = s.target := by
    rw [step, hcur]
    exact ⟨rfl, rfl, rfl, rfl⟩
  obtain ⟨hwritten, hinputs, hmade, htarget⟩ := hrest
  refine ⟨?_, ?_, ?_, ?_, ?_, ?_⟩
  · rw [hwritten, hinputs]
    exact lines_rotate h hcur hother
  · intro name name' file' hname hname'
    rcases of_dir_rotate hcur hname with ⟨rfl, rfl⟩ | ⟨hne, hold⟩ <;>
      rcases of_dir_rotate hcur hname' with ⟨rfl, hfile⟩ | ⟨hne', hold'⟩
    · rfl
    · exact absurd (h.names _ _ _ hold' hcur) hne'
    · exact absurd (h.names _ _ _ hold (hfile ▸ hcur)) hne
    · exact h.names _ _ _ hold hold'
  · intro name file' hname
    rw [hmade]
    rcases of_dir_rotate hcur hname with ⟨-, rfl⟩ | ⟨-, hold⟩
    · exact h.made _ _ hcur
    · exact h.made _ _ hold
  · rw [unread_rotate hcur]
    exact List.nodup_append.mpr ⟨h.nodup, List.nodup_singleton _, fun a ha b hb hab ↦
      hnew (List.mem_singleton.mp hb ▸ hab ▸ ha)⟩
  · intro d hd
    rw [unread_rotate hcur] at hd
    rcases List.mem_append.mp hd with hd | hd
    · rw [dir_rotate_of_ne hcur (hother d hd)]
      exact h.found d hd
    · rw [List.mem_singleton.mp hd, dir_rotate hcur, if_pos rfl]
      rfl
  · intro worker
    right
    rw [unread_rotate hcur, htarget]
    rcases h.targets worker with hw | ⟨d, hd, hw⟩
    · refine ⟨date, List.mem_append_right _ (List.mem_singleton_self _), ?_⟩
      rw [dir_rotate hcur, if_pos rfl, ← hw, hcur]
    · refine ⟨d, List.mem_append_left _ hd, ?_⟩
      rw [dir_rotate_of_ne hcur (hother d hd), hw]

/-- Opening `error.log` when it is not there makes a file for the name. -/
theorem dir_reopen (hcur : s.dir .errorLog = none) (worker : ι) (name : LogName) :
    (s.step (.reopen worker)).dir name
      = if name = .errorLog then some s.made else s.dir name := by
  rw [step, hcur]
  exact Function.update_apply ..

theorem of_dir_reopen (hcur : s.dir .errorLog = none) {worker : ι} {name : LogName} {file : ℕ}
    (hname : (s.step (.reopen worker)).dir name = some file) :
    name = .errorLog ∧ file = s.made ∨ s.dir name = some file := by
  rw [dir_reopen hcur] at hname
  split at hname
  · exact .inl ⟨‹_›, (Option.some.inj hname).symm⟩
  · exact .inr hname

/-- A file is made empty, and the others stay as they are. -/
theorem contentOf_reopen (h : s.Accounted) (worker : ι) (name : LogName) :
    (s.step (.reopen worker)).contentOf name = s.contentOf name := by
  rw [contentOf, contentOf, step]
  rcases hcur : s.dir .errorLog with _ | file
  · simp only [Function.update_apply]
    split
    · rename_i heq
      simp [heq, hcur]
    · rcases hname : s.dir name with _ | file
      · rfl
      · have hne : file ≠ s.made := (h.made _ _ hname).ne
        simp [hne]
  · rfl

/-- A worker that opens `error.log` may have to make it. -/
theorem accounted_reopen (h : s.Accounted) (worker : ι) :
    (s.step (.reopen worker)).Accounted := by
  rcases hcur : s.dir .errorLog with _ | file
  · have hfresh : ∀ name, s.dir name ≠ some s.made := fun name hname ↦
      Nat.lt_irrefl _ (h.made name _ hname)
    have hrest : (s.step (.reopen worker)).written = s.written ∧
        (s.step (.reopen worker)).inputs = s.inputs ∧
          (s.step (.reopen worker)).unread = s.unread ∧
            (s.step (.reopen worker)).made = s.made + 1 ∧
              (s.step (.reopen worker)).target = Function.update s.target worker s.made := by
      rw [step, hcur]
      exact ⟨rfl, rfl, rfl, rfl, rfl⟩
    obtain ⟨hwritten, hinputs, hunread, hmade, htarget⟩ := hrest
    refine ⟨?_, ?_, ?_, ?_, ?_, ?_⟩
    · simp only [hwritten, hinputs, hunread, contentOf_reopen h]
      exact h.lines
    · intro name name' file hname hname'
      rcases of_dir_reopen hcur hname with ⟨rfl, rfl⟩ | hold <;>
        rcases of_dir_reopen hcur hname' with ⟨rfl, hfile⟩ | hold'
      · rfl
      · exact absurd hold' (hfresh _)
      · exact absurd (hfile ▸ hold) (hfresh _)
      · exact h.names _ _ _ hold hold'
    · intro name file hname
      rw [hmade]
      rcases of_dir_reopen hcur hname with ⟨-, rfl⟩ | hold
      · exact Nat.lt_succ_self _
      · exact Nat.lt_succ_of_lt (h.made _ _ hold)
    · rw [hunread]
      exact h.nodup
    · intro d hd
      rw [dir_reopen hcur, if_neg (by simp)]
      exact h.found d (hunread ▸ hd)
    · intro worker'
      simp only [dir_reopen hcur, htarget, hunread, Function.update_apply]
      by_cases hw : worker' = worker
      · exact .inl (by simp [hw])
      · rcases h.targets worker' with hold | ⟨d, hd, hold⟩
        · exact absurd (hold.symm.trans hcur) (by simp)
        · exact .inr ⟨d, hd, by simpa [hw] using hold⟩
  · rw [step, hcur]
    refine ⟨h.lines, h.names, h.made, h.nodup, h.found, fun worker' ↦ ?_⟩
    simp only [Function.update_apply]
    split
    · exact .inl hcur
    · exact h.targets worker'

theorem accounted_statics (h : s.Accounted) {date : Bytes} (hdate : date ∈ s.unread)
    (hleft : ∀ worker, s.dir (.dated date) ≠ some (s.target worker)) :
    (s.step (.statics date)).Accounted := by
  refine ⟨?_, h.names, h.made, h.nodup.erase _, fun d hd ↦ h.found d (List.mem_of_mem_erase hd),
    fun worker ↦ ?_⟩
  · have hmove := (List.perm_cons_erase hdate).flatMap_right fun d ↦ s.contentOf (.dated d)
    rw [List.flatMap_cons] at hmove
    refine h.lines.trans ?_
    change (s.inputs.flatten ++ _ ++ _).Perm ((s.inputs ++ [s.contentOf (.dated date)]).flatten ++
      ((s.unread.erase date).flatMap fun d ↦ s.contentOf (.dated d)) ++ s.contentOf .errorLog)
    rw [List.flatten_append, List.flatten_singleton,
      List.append_assoc s.inputs.flatten (s.contentOf (.dated date))]
    exact (hmove.append_left _).append_right _
  · refine (h.targets worker).imp id ?_
    rintro ⟨d, hd, hw⟩
    refine ⟨d, (List.mem_erase_of_ne fun heq ↦ hleft worker ?_).mpr hd, hw⟩
    rw [← heq, hw]

theorem accounted_expire (h : s.Accounted) {date : Bytes} (hdate : date ∉ s.unread) :
    (s.step (.expire date)).Accounted := by
  have hdir : ∀ name, Function.update s.dir (.dated date) none name
      = if name = .dated date then none else s.dir name := fun name ↦ Function.update_apply ..
  have hinv : ∀ name file, Function.update s.dir (.dated date) none name = some file →
      s.dir name = some file := by
    intro name file hname
    rw [hdir] at hname
    split at hname
    · exact absurd hname (by simp)
    · exact hname
  have hkeep : ∀ d ∈ s.unread, Function.update s.dir (.dated date) none (.dated d)
      = s.dir (.dated d) := by
    intro d hd
    refine Function.update_of_ne (fun heq ↦ ?_) ..
    cases heq
    exact hdate hd
  have hcur : Function.update s.dir (.dated date) none .errorLog = s.dir .errorLog :=
    Function.update_of_ne (by simp) ..
  refine ⟨?_, fun name name' file hname hname' ↦ h.names _ _ _ (hinv _ _ hname) (hinv _ _ hname'),
    fun name file hname ↦ h.made _ _ (hinv _ _ hname), h.nodup, fun d hd ↦ ?_, fun worker ↦ ?_⟩
  · refine h.lines.trans (.of_eq ?_)
    have hold : ∀ d ∈ s.unread, ((Function.update s.dir (.dated date) none (.dated d)).map
        s.content).getD [] = s.contentOf (.dated d) := by
      intro d hd
      rw [hkeep d hd, contentOf]
    simp only [contentOf, step, hcur]
    rw [List.flatMap_congr hold]
    rfl
  · show (Function.update s.dir (.dated date) none (.dated d)).isSome = true
    rw [hkeep d hd]
    exact h.found d hd
  · refine (h.targets worker).imp (fun hw ↦ hcur.trans hw) ?_
    rintro ⟨d, hd, hw⟩
    exact ⟨d, hd, (hkeep d hd).trans hw⟩

/-- **What is allowed keeps the lines accounted for.** -/
theorem accounted_step (h : s.Accounted) {e : Event ι} (he : s.Allowed e) :
    (s.step e).Accounted := by
  cases e with
  | write worker line => exact accounted_write h worker line
  | rotate date => exact accounted_rotate h he
  | reopen worker => exact accounted_reopen h worker
  | statics date => exact accounted_statics h he.1 he.2
  | expire date => exact accounted_expire h he

/-! ## A run -/

theorem accounted_run {events : List (Event ι)} (h : s.Accounted) (horder : s.Orderly events) :
    (s.run events).Accounted := by
  induction events generalizing s with
  | nil => exact h
  | cons e events ih => exact ih (accounted_step h horder.1) horder.2

/-- The lines that are in no file that was read. -/
def left (s : Site ι) : List Bytes :=
  (s.unread.flatMap fun date ↦ s.contentOf (.dated date)) ++ s.contentOf .errorLog

/-- **Over any number of days, the rows add up to what the workers wrote**, less what is in the
files that have not been read. -/
theorem sum_counter_run {events : List (Event ι)} (horder : (init : Site ι).Orderly events)
    {jobs : List Job} (hjobs : jobs.map Job.lines = ((init : Site ι).run events).inputs)
    (plugin : Bytes) {column : Bytes} (h : column ∈ counterColumns) :
    ((jobs.flatMap Job.queries).map (Query.counter plugin column)).sum
        + ((entriesOf ((init : Site ι).run events).left).map (Entry.countsFor plugin column)).sum
      = ((entriesOf ((init : Site ι).run events).written).map
          (Entry.countsFor plugin column)).sum := by
  have hlines := (accounted_run accounted_init horder).lines
  rw [List.append_assoc, ← hjobs, ← List.flatMap_def] at hlines
  have hentries : (entriesOf ((init : Site ι).run events).written).Perm
      (entriesOf (jobs.flatMap Job.lines) ++ entriesOf ((init : Site ι).run events).left) := by
    rw [← entriesOf_append]
    exact hlines.filterMap _
  rw [(hentries.map _).sum_eq, List.map_append, List.sum_append,
    sum_counter_queries jobs plugin h]

/-- Two workers: one of them writes a line after the log was moved. -/
def sampleEvents : List (Event Bool) :=
  [.write true (sampleLine "10:25:00" "0" "plugin=face&src=pull"), .rotate (lit "20160309"),
    .write false (sampleLine "10:25:01" "0" "plugin=face&src=push"), .reopen true,
    .write true (sampleLine "10:45:00" "0" "plugin=face&src=pull"), .reopen false,
    .statics (lit "20160309"), .expire (lit "20160207")]

theorem quiet_day : (logStatics (lit "a") 600
    [sampleLine "10:25:00" "0" "plugin=face&src=pull",
      sampleLine "10:25:01" "0" "plugin=face&src=push"]).raised = none := by
  simp only [sampleLine_eq]
  decide +kernel

/-- The job of that day. -/
def sampleDay : Job where
  localSrvAddr := lit "a"
  stepSeconds := 600
  lines := [sampleLine "10:25:00" "0" "plugin=face&src=pull",
    sampleLine "10:25:01" "0" "plugin=face&src=push"]
  step := step_tenMinutes
  quiet := quiet_day

theorem sum_counter_sampleEvents :
    (([sampleDay].flatMap Job.queries).map (Query.counter (lit "face") (lit "pull"))).sum
        + ((entriesOf ((init : Site Bool).run sampleEvents).left).map
          (Entry.countsFor (lit "face") (lit "pull"))).sum
      = ((entriesOf ((init : Site Bool).run sampleEvents).written).map
          (Entry.countsFor (lit "face") (lit "pull"))).sum := by
  have horder : (init : Site Bool).Orderly sampleEvents := by
    refine ⟨trivial, rfl, trivial, trivial, trivial, trivial, ⟨List.mem_singleton_self _, ?_⟩, ?_,
      trivial⟩
    · rintro (_ | _) <;> exact fun h ↦ absurd (Option.some.inj h) (by decide)
    · exact List.not_mem_nil
  exact sum_counter_run horder rfl _ (by decide)

end Site

end ImgPredictor
