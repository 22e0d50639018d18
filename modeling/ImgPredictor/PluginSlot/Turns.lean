import ImgPredictor.PluginSlot.Config

/-!
# A load turn by turn

`load` is a loop over whatever words it gets to see, and each word that is neither empty nor a
comment is a record to be loaded.  This file takes the two apart, for any stream and for any
outcomes of `dlopen` and `dlsym`.

* `wordsRead` are the words of so many turns.  A stream that cannot be read to its end goes on
  giving the last one.
* `loadLoop_eq_loadWords` says that the loop is `loadWords` over the words of its turns, as long as
  the turns suffice.
-/

set_option autoImplicit false

namespace ImgPredictor

open Bytes Lists

/-! ## The words of the turns -/

/-- The words the loop works on in so many turns, `line` being the one before. -/
def wordsRead : ℕ → IStream → Bytes → List Bytes
  | 0, _, _ => []
  | turns + 1, file, line =>
    if file.eof then []
    else (file.extract line).2 :: wordsRead turns (file.extract line).1 (file.extract line).2

/-- More turns see more words, after the same ones. -/
theorem wordsRead_prefix {n m : ℕ} (h : n ≤ m) (file : IStream) (line : Bytes) :
    wordsRead n file line <+: wordsRead m file line := by
  induction n generalizing m file line with
  | zero => exact List.nil_prefix
  | succ n ih =>
    obtain ⟨m, rfl⟩ : ∃ k, m = k + 1 := ⟨m - 1, by omega⟩
    rw [wordsRead, wordsRead]
    split
    · exact List.prefix_rfl
    · exact List.cons_prefix_cons.mpr ⟨rfl, ih (by omega) _ _⟩

/-- At the end of the file there are no more. -/
theorem wordsRead_of_ended {n m : ℕ} (h : n ≤ m) {file : IStream} {line : Bytes}
    (hended : (wordsRead n file line).length < n) :
    wordsRead m file line = wordsRead n file line := by
  induction n generalizing m file line with
  | zero => exact absurd hended (Nat.not_lt_zero _)
  | succ n ih =>
    obtain ⟨m, rfl⟩ : ∃ k, m = k + 1 := ⟨m - 1, by omega⟩
    rw [wordsRead] at hended ⊢
    rw [wordsRead]
    split
    · rfl
    · rename_i heof
      rw [if_neg heof, List.length_cons] at hended
      rw [ih (by omega) (by omega)]

/-! ### Streams that are read from the start -/

/-- A stream over this text, which ends in the end of the file or in an error. -/
def IStream.over (broken : Bool) (text : Bytes) : IStream := { rest := text, broken }

theorem extract_of_no_word {broken : Bool} {text : Bytes} (hr : text.dropWhile isSpace = [])
    (line : Bytes) :
    (IStream.over broken text).extract line
      = ((IStream.over broken text).exhausted true, line) := by
  simp [IStream.extract, IStream.over, hr]

theorem extract_of_word {broken : Bool} {text : Bytes} {b : UInt8} {r : Bytes}
    (hr : text.dropWhile isSpace = b :: r) (line : Bytes) :
    (IStream.over broken text).extract line =
      (if ((b :: r).dropWhile fun x ↦ !isSpace x).isEmpty then
          (IStream.over broken text).exhausted false
        else .over broken ((b :: r).dropWhile fun x ↦ !isSpace x),
        (b :: r).takeWhile fun x ↦ !isSpace x) := by
  simp [IStream.extract, IStream.over, hr]

theorem wordsRead_of_eof (turns : ℕ) {file : IStream} (h : file.eof = true) (line : Bytes) :
    wordsRead turns file line = [] := by
  cases turns with
  | zero => rfl
  | succ turns => rw [wordsRead, if_pos h]

/-- The words of a file, its last one twice if white space follows it. -/
theorem wordsRead_ofText (turns : ℕ) (line text : Bytes) :
    wordsRead turns (.over false text) line = (wordsSeen line text).take turns := by
  induction turns generalizing line text with
  | zero => rfl
  | succ turns ih =>
    rw [wordsRead, if_neg (by simp [IStream.over])]
    cases hr : text.dropWhile isSpace with
    | nil =>
      rw [extract_of_no_word hr, wordsSeen_of_no_word hr, wordsRead_of_eof turns rfl,
        List.take_succ_cons, List.take_nil]
    | cons b r =>
      rw [extract_of_word hr, wordsSeen_of_word hr, List.take_succ_cons]
      split
      · rw [wordsRead_of_eof turns rfl, List.take_nil]
      · rw [ih]

/-- A stream that has failed gives the same word again and again. -/
theorem wordsRead_of_fail (turns : ℕ) {file : IStream} (heof : file.eof = false)
    (hfail : file.fail = true) (line : Bytes) :
    wordsRead turns file line = List.replicate turns line := by
  have hextract : file.extract line = (file, line) := by
    obtain ⟨rest, eof, fail, broken⟩ := file
    simp only at hfail
    subst hfail
    simp [IStream.extract]
  induction turns with
  | zero => rfl
  | succ turns ih =>
    rw [wordsRead, if_neg (by simp [heof]), hextract, ih]
    rfl

/-- **The words of a stream that ends in an error**: the last one does not end. -/
theorem wordsRead_broken {turns m : ℕ} (h : turns ≤ m) (line text : Bytes) :
    wordsRead turns (.over true text) line
      = (words text ++ List.replicate m ((words text).getLastD line)).take turns := by
  induction turns generalizing line text with
  | zero => rfl
  | succ turns ih =>
    rw [wordsRead, if_neg (by simp [IStream.over])]
    cases hr : text.dropWhile isSpace with
    | nil =>
      rw [extract_of_no_word hr, words_eq_nil hr, wordsRead_of_fail turns rfl rfl]
      simp [List.take_replicate, Nat.min_eq_left h, List.replicate_succ]
    | cons b r =>
      rw [extract_of_word hr, words_eq_cons hr, List.cons_append, List.take_succ_cons,
        List.getLastD_cons]
      congr 1
      cases hd : (b :: r).dropWhile fun x ↦ !isSpace x with
      | nil =>
        rw [List.isEmpty_nil, if_pos rfl, wordsRead_of_fail turns rfl rfl, words, wordsBy_nil]
        simp [List.take_replicate, Nat.min_eq_left (Nat.le_of_succ_le h)]
      | cons c t =>
        rw [List.isEmpty_cons, if_neg Bool.false_ne_true]
        exact ih (Nat.le_of_succ_le h) _ _

/-! ## The loop -/

/-- The name of a loaded record is its first field, which is not empty. -/
theorem name_of_loaded {dl : DynLib} {k : ℕ} {vecInfo : List Bytes} {pit : PluginInfo}
    (h : recordOutcome dl k vecInfo = .loaded pit) :
    pit.name = vecInfo.getD 0 [] ∧ pit.name ≠ [] := by
  rw [recordOutcome] at h
  split at h
  · exact absurd h (by simp)
  · rename_i hfields
    rw [not_or, Bool.not_eq_true] at hfields
    have hname : pit.name = vecInfo.getD 0 [] := by
      split at h
      · exact absurd h (by simp)
      · split at h
        · exact absurd h (by simp)
        · split at h
          · exact absurd h (by simp)
          · rw [← RecordOutcome.loaded.inj h]
    refine ⟨hname, fun hnil ↦ ?_⟩
    have hfirst : vecInfo[0]? = some [] := by
      rcases vecInfo with _ | ⟨x, vecInfo⟩
      · exact absurd (Nat.zero_lt_succ 5) (by simpa using hfields.1)
      · rw [hname] at hnil
        simpa using hnil
    have hmissing := (missingField_iff vecInfo).mpr ⟨0, hfirst, by decide⟩
    exact absurd (hfields.2.symm.trans hmissing) Bool.false_ne_true

/-- Over a list of words the loop returns. -/
theorem exists_loadWords (dl : DynLib) (lines : List Bytes) (st : LoadState) :
    ∃ res, loadWords dl lines st = some res := by
  induction lines generalizing st with
  | nil => exact ⟨_, rfl⟩
  | cons line lines ih =>
    rw [loadWords]
    cases hskip : skipped line with
    | true =>
      rw [loadTurn_of_skipped dl hskip]
      exact ih st
    | false =>
      rw [loadTurn_of_record dl hskip]
      rcases recordOutcome dl st.opened.length (fieldsOf line) with _ | _ | pit
      · exact ⟨_, rfl⟩
      · exact ⟨_, rfl⟩
      · exact ih _

/-- **The loop is the loop over the words of its turns**: it returns what that does, except that
without an end of the file it wants another turn. -/
theorem loadLoop_eq_loadWords (dl : DynLib) (turns : ℕ) (file : IStream) (line : Bytes)
    (st : LoadState) :
    loadLoop dl turns file line st = match loadWords dl (wordsRead turns file line) st with
      | some (true, st) => if (wordsRead turns file line).length < turns then some (true, st)
        else none
      | r => r := by
  induction turns generalizing file line st with
  | zero => rfl
  | succ turns ih =>
    rw [loadLoop, wordsRead]
    by_cases heof : file.eof = true
    · rw [if_pos heof, if_pos heof, loadWords]
      exact (if_pos (Nat.succ_pos _)).symm
    · rw [if_neg heof, if_neg heof, loadWords]
      simp only [List.length_cons, Nat.add_lt_add_iff_right]
      generalize (file.extract line).2 = word
      cases hskip : skipped word with
      | true =>
        rw [loadTurn_of_skipped dl hskip, loadTurn_of_skipped dl hskip]
        exact ih _ _ _
      | false =>
        rw [loadTurn_of_record dl hskip, loadTurn_of_record dl hskip]
        rcases recordOutcome dl st.opened.length (fieldsOf word) with _ | _ | pit
        · rfl
        · rfl
        · exact ih _ _ _

end ImgPredictor
