import ImgPredictor.PluginSlot.Ledger

/-!
# Whether a load ends

The loop of `load` asks `file.eof()` and nothing else.  A stream that reaches the end of its file
says so, in the turn that reads its last word or in the next.  A stream that fails without reaching
it, such as that of a directory, never does: every further extraction leaves `line` alone, and the
loop works on the last word for ever.  Only `return false` gets it out.

`terminates_iff` is the exact condition, for any text, any slot and any outcomes of `dlopen` and
`dlsym`.
-/

set_option autoImplicit false

namespace ImgPredictor

open Bytes Lists

/-! ## Records that fail -/

/-- The words that are records. -/
def recordWords (lines : List Bytes) : List Bytes := lines.filter fun line ↦ !skipped line

/-- One of the records is not loaded, as the one it is: `k` libraries have been opened before the
first of them, and every other record before it opens one. -/
def RecordFails (dl : DynLib) (k : ℕ) (lines : List Bytes) : Prop :=
  ∃ i line, (recordWords lines)[i]? = some line ∧
    ∀ pit, recordOutcome dl (k + i) (fieldsOf line) ≠ .loaded pit

theorem recordWords_of_skipped {line : Bytes} (h : skipped line = true) (lines : List Bytes) :
    recordWords (line :: lines) = recordWords lines := List.filter_cons_of_neg (by simp [h])

theorem recordWords_of_record {line : Bytes} (h : skipped line = false) (lines : List Bytes) :
    recordWords (line :: lines) = line :: recordWords lines := List.filter_cons_of_pos (by simp [h])

theorem not_recordFails_nil (dl : DynLib) (k : ℕ) : ¬RecordFails dl k [] := by
  rintro ⟨i, line, hline, -⟩
  exact absurd hline (by simp [recordWords])

theorem recordFails_of_skipped {line : Bytes} (h : skipped line = true) (dl : DynLib) (k : ℕ)
    (lines : List Bytes) : RecordFails dl k (line :: lines) ↔ RecordFails dl k lines := by
  rw [RecordFails, recordWords_of_skipped h, RecordFails]

/-- The first record fails, or one of the others. -/
theorem recordFails_of_record {line : Bytes} (h : skipped line = false) (dl : DynLib) (k : ℕ)
    (lines : List Bytes) :
    RecordFails dl k (line :: lines) ↔
      (∀ pit, recordOutcome dl k (fieldsOf line) ≠ .loaded pit) ∨
        RecordFails dl (k + 1) lines := by
  simp only [RecordFails, recordWords_of_record h]
  constructor
  · rintro ⟨i, line', hline, hfails⟩
    cases i with
    | zero =>
      obtain rfl := Option.some.inj hline
      exact .inl hfails
    | succ i => exact .inr ⟨i, line', hline, by rwa [Nat.add_assoc, Nat.add_comm 1 i]⟩
  · rintro (hfails | ⟨i, line', hline, hfails⟩)
    · exact ⟨0, line, rfl, hfails⟩
    · exact ⟨i + 1, line', hline, by rwa [Nat.add_assoc, Nat.add_comm 1 i] at hfails⟩

/-- More words are more records, after the same ones. -/
theorem RecordFails.mono {dl : DynLib} {k : ℕ} {lines more : List Bytes}
    (h : RecordFails dl k lines) (hle : lines <+: more) : RecordFails dl k more := by
  obtain ⟨i, line, hline, hfails⟩ := h
  obtain ⟨rest, rfl⟩ := hle
  refine ⟨i, line, ?_, hfails⟩
  rw [recordWords, List.filter_append]
  exact List.getElem?_append_left (List.getElem?_eq_some_iff.mp hline).1 ▸ hline

/-- **The loop says `false` when a record fails**, and only then. -/
theorem loadWords_eq_false_iff {dl : DynLib} {lines : List Bytes} {st : LoadState}
    {res : Bool × LoadState} (h : loadWords dl lines st = some res) :
    res.1 = false ↔ RecordFails dl st.opened.length lines := by
  induction lines generalizing st with
  | nil =>
    obtain rfl := Option.some.inj h
    exact iff_of_false (by simp) (not_recordFails_nil dl _)
  | cons line lines ih =>
    rw [loadWords] at h
    cases hskip : skipped line with
    | true =>
      rw [loadTurn_of_skipped dl hskip] at h
      rw [recordFails_of_skipped hskip]
      exact ih h
    | false =>
      rw [loadTurn_of_record dl hskip] at h
      rw [recordFails_of_record hskip]
      rcases hout : recordOutcome dl st.opened.length (fieldsOf line) with _ | handle | pit
      · rw [hout] at h
        obtain rfl := Option.some.inj h
        simp
      · rw [hout] at h
        obtain rfl := Option.some.inj h
        simp
      · rw [hout] at h
        have hopened : (st.withRecord pit).opened.length = st.opened.length + 1 := by
          simp [LoadState.withRecord]
        rw [ih h, hopened]
        simp

/-! ## The two kinds of streams -/

/-- `load` ends, once it has opened this stream. -/
def Terminates (dl : DynLib) (file : IStream) (slot : PluginSlot PluginInfo) : Prop :=
  ∃ res, LoopReturns dl file slot res

/-- **On a file it ends**: there is one turn more than there are words to be seen. -/
theorem terminates_ofText (dl : DynLib) (text : Bytes) (slot : PluginSlot PluginInfo) :
    Terminates dl (.over false text) slot := by
  have hwords : wordsRead ((wordsSeen [] text).length + 1) (.over false text) []
      = wordsSeen [] text := by
    rw [wordsRead_ofText, List.take_of_length_le (Nat.le_succ _)]
  obtain ⟨⟨ret, st⟩, hres⟩ := exists_loadWords dl (wordsSeen [] text) ⟨slot, [], []⟩
  refine ⟨(ret, st), (wordsSeen [] text).length + 1, ?_⟩
  rw [loadLoop_eq_loadWords, hwords, hres]
  cases ret with
  | false => rfl
  | true => exact if_pos (Nat.lt_succ_self _)

/-- The words of a stream that fails, with its last word read `n` times more. -/
def wordsAgain (text : Bytes) (n : ℕ) : List Bytes :=
  words text ++ List.replicate n ((words text).getLastD [])

/-- **On a stream that fails it ends only in a record that fails.** -/
theorem terminates_broken_iff (dl : DynLib) (text : Bytes) (slot : PluginSlot PluginInfo) :
    Terminates dl (.over true text) slot ↔ ∃ n, RecordFails dl 0 (wordsAgain text n) := by
  constructor
  · rintro ⟨⟨ret, st⟩, turns, h⟩
    have hread := wordsRead_broken (Nat.le_refl turns) [] text
    have hlength : (wordsRead turns (.over true text) []).length = turns := by
      rw [hread]
      simp
    rw [loadLoop_eq_loadWords, hlength] at h
    obtain ⟨⟨ret', st'⟩, hres⟩ :=
      exists_loadWords dl (wordsRead turns (.over true text) []) ⟨slot, [], []⟩
    rw [hres] at h
    cases ret' with
    | true => exact absurd h (by simp)
    | false =>
      have hfails := (loadWords_eq_false_iff hres).mp rfl
      rw [hread] at hfails
      exact ⟨turns, hfails.mono (List.take_prefix _ _)⟩
  · rintro ⟨n, hfails⟩
    have hread : wordsRead ((words text).length + n) (.over true text) [] = wordsAgain text n := by
      rw [wordsRead_broken (Nat.le_refl _), List.take_length_add_append, List.take_replicate,
        Nat.min_eq_left (Nat.le_add_left _ _), wordsAgain]
    obtain ⟨⟨ret, st⟩, hres⟩ := exists_loadWords dl (wordsAgain text n) ⟨slot, [], []⟩
    obtain rfl : ret = false := (loadWords_eq_false_iff hres).mpr hfails
    refine ⟨(false, st), (words text).length + n, ?_⟩
    rw [loadLoop_eq_loadWords, hread, hres]

/-- **When a load ends**: its stream reaches the end of the file, or one of its records fails,
perhaps the last one when it is loaded once more. -/
theorem terminates_iff (dl : DynLib) (broken : Bool) (text : Bytes)
    (slot : PluginSlot PluginInfo) :
    Terminates dl (.over broken text) slot ↔
      broken = false ∨ ∃ n, RecordFails dl 0 (wordsAgain text n) := by
  cases broken with
  | false => exact iff_of_true (terminates_ofText dl text slot) (.inl rfl)
  | true => simp [terminates_broken_iff]

/-- A stream that fails before its first word, such as a directory's, gives the empty word again and
again, which is skipped. -/
theorem not_terminates_directory : ¬Terminates everyLibrary (.over true []) .empty := by
  rw [terminates_broken_iff]
  rintro ⟨n, i, line, hline, -⟩
  have hskipped : recordWords (wordsAgain [] n) = [] := by
    have hempty : wordsAgain [] n = List.replicate n [] := by simp [wordsAgain, words]
    rw [recordWords, hempty, List.filter_eq_nil_iff]
    intro word hword
    rw [List.eq_of_mem_replicate hword]
    decide
  rw [hskipped] at hline
  exact absurd hline (by simp)

end ImgPredictor
