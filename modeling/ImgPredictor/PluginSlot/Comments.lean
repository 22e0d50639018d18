import ImgPredictor.Lib.Words
import ImgPredictor.PluginSlot.Load

/-!
# Comments in a plugin configuration

`load` reads words, not lines: it is every word that begins with `#` that is skipped, and the other
words of a comment are taken for records.

* `loadWords` is the loop over a list of words; `loadLoop_eq` says that the loop over the stream is
  the loop over `wordsSeen`, the words of the text with the last one twice when white space follows
  it.
* `loadRecords_wordsSeen` says that the second reading of that word makes no difference, as long as
  `dlopen` and `dlsym` depend on their arguments alone: the record is in the table already.
  `outcome_load` has what is left of a load then, a fold over the records.
* `comment_inert_iff` says which comments make no difference anywhere: those of which every word
  begins with `#`.
-/

set_option autoImplicit false

namespace ImgPredictor

open Bytes Lists

/-- The words of a text, as `>>` extracts them. -/
abbrev words (text : Bytes) : List Bytes := wordsBy isSpace text

/-- The loop of `load`, over a list of words. -/
def loadWords (dl : DynLib) : List Bytes → LoadState → Option (Bool × LoadState)
  | [], st => some (true, st)
  | line :: lines, st => loadTurn dl line st (loadWords dl lines)

/-! ## The words the loop sees -/

/-- The words the loop sees in a text, `line` being the word it saw last. -/
def wordsSeen (line text : Bytes) : List Bytes :=
  words text ++ if text.getLast?.all isSpace then [(words text).getLastD line] else []

/-- The stream over a file that can be read to its end. -/
def IStream.ofText (text : Bytes) : IStream := { rest := text }

theorem getLast?_dropWhile {α : Type} (p : α → Bool) {s : List α} (h : s.dropWhile p ≠ []) :
    (s.dropWhile p).getLast? = s.getLast? := by
  obtain ⟨t, ht⟩ := List.dropWhile_suffix (l := s) p
  have := List.getLast?_append_of_ne_nil t h
  rw [ht] at this
  exact this.symm

/-- The first word of a text, and the others. -/
theorem words_eq_cons {text : Bytes} {b : UInt8} {r : Bytes}
    (hr : text.dropWhile isSpace = b :: r) :
    words text = (b :: r).takeWhile (fun x ↦ !isSpace x) ::
      words ((b :: r).dropWhile fun x ↦ !isSpace x) := by
  have hb : isSpace b = false := by
    simpa [hr] using List.head?_dropWhile_not isSpace text
  rw [← wordsBy_eq_cons hb, ← hr, words, wordsBy_dropWhile]

theorem words_eq_nil {text : Bytes} (hr : text.dropWhile isSpace = []) : words text = [] := by
  rw [words, ← wordsBy_dropWhile, hr, wordsBy_nil]

/-- The words seen, when a word is there to be extracted. -/
theorem wordsSeen_of_word {line text : Bytes} {b : UInt8} {r : Bytes}
    (hr : text.dropWhile isSpace = b :: r) :
    wordsSeen line text = (b :: r).takeWhile (fun x ↦ !isSpace x) ::
      if ((b :: r).dropWhile fun x ↦ !isSpace x).isEmpty then []
      else wordsSeen ((b :: r).takeWhile fun x ↦ !isSpace x)
        ((b :: r).dropWhile fun x ↦ !isSpace x) := by
  have hlast : text.getLast? = (b :: r).getLast? := by
    rw [← hr, getLast?_dropWhile isSpace (by simp [hr])]
  have hwords := words_eq_cons hr
  rw [wordsSeen, hwords, hlast]
  cases hd : (b :: r).dropWhile fun x ↦ !isSpace x with
  | nil =>
    -- the text ends in the word
    have hall : ∀ x ∈ b :: r, isSpace x = false := by
      simpa using List.dropWhile_eq_nil_iff.mp hd
    have hns : (b :: r).getLast?.all isSpace = false := by
      obtain ⟨x, hx⟩ : ∃ x, (b :: r).getLast? = some x :=
        Option.isSome_iff_exists.mp (by simp)
      rw [hx, Option.all_some, hall x (List.mem_of_getLast? hx)]
    simp [hns]
  | cons c t =>
    have hlast' : (b :: r).getLast? = (c :: t).getLast? := by
      rw [← hd, getLast?_dropWhile _ (by simp [hd])]
    rw [wordsSeen, hlast', List.isEmpty_cons, if_neg Bool.false_ne_true, List.getLastD_cons]
    rfl

/-- The words seen, when there are none left. -/
theorem wordsSeen_of_no_word {line text : Bytes} (hr : text.dropWhile isSpace = []) :
    wordsSeen line text = [line] := by
  have hall := List.dropWhile_eq_nil_iff.mp hr
  have hlast : text.getLast?.all isSpace = true := by
    cases hl : text.getLast? with
    | none => rfl
    | some x => exact hall x (List.mem_of_getLast? hl)
  rw [wordsSeen, words_eq_nil hr, hlast]
  rfl

/-- At the end of the file the loop ends. -/
theorem loadLoop_eof (dl : DynLib) (fuel : ℕ) {file : IStream} (h : file.eof = true)
    (line : Bytes) (st : LoadState) :
    loadLoop dl (fuel + 1) file line st = some (true, st) := by
  rw [loadLoop, if_pos h]

/-- **The loop over a file is the loop over the words it sees.**  Each turn takes a word off the
text, so the bound on the turns is never met. -/
theorem loadLoop_eq (dl : DynLib) {fuel : ℕ} {text : Bytes} (hfuel : text.length + 1 < fuel)
    (line : Bytes) (st : LoadState) :
    loadLoop dl fuel (.ofText text) line st = loadWords dl (wordsSeen line text) st := by
  induction hn : text.length using Nat.strongRecOn generalizing fuel text line st with
  | ind n ih =>
    subst hn
    obtain ⟨fuel, rfl⟩ : ∃ f, fuel = f + 2 := ⟨fuel - 2, by omega⟩
    rw [loadLoop, if_neg (by simp [IStream.ofText])]
    cases hr : text.dropWhile isSpace with
    | nil =>
      have hex : (IStream.ofText text).extract line
          = ((IStream.ofText text).exhausted true, line) := by
        simp [IStream.extract, IStream.ofText, hr]
      rw [hex, wordsSeen_of_no_word hr, loadWords]
      have hend : loadLoop dl (fuel + 1) ((IStream.ofText text).exhausted true) line
          = loadWords dl [] := funext fun st ↦ loadLoop_eof dl fuel rfl line st
      simp only [hend]
    | cons b r =>
      rw [wordsSeen_of_word hr, loadWords]
      generalize hw : (b :: r).takeWhile (fun x ↦ !isSpace x) = w
      cases hd : (b :: r).dropWhile fun x ↦ !isSpace x with
      | nil =>
        have hex : (IStream.ofText text).extract line
            = ((IStream.ofText text).exhausted false, w) := by
          simp [IStream.extract, IStream.ofText, hr, hd, hw]
        have hend : loadLoop dl (fuel + 1) ((IStream.ofText text).exhausted false) w
            = loadWords dl [] := funext fun st ↦ loadLoop_eof dl fuel rfl w st
        rw [hex]
        simp only [hend, List.isEmpty_nil, if_true]
      | cons c t =>
        have hex : (IStream.ofText text).extract line = (.ofText (c :: t), w) := by
          simp [IStream.extract, IStream.ofText, hr, hd, hw]
        -- the word that was taken off has a byte, so what is left is shorter
        have hb : isSpace b = false := by
          simpa [hr] using List.head?_dropWhile_not isSpace text
        have hshort : (c :: t).length < text.length := by
          have h1 := (List.dropWhile_suffix (l := text) isSpace).length_le
          have h2 : (c :: t).length ≤ r.length := by
            rw [← hd, List.dropWhile_cons, if_pos (by simp [hb])]
            exact (List.dropWhile_suffix _).length_le
          rw [hr, List.length_cons] at h1
          omega
        have hnext : loadLoop dl (fuel + 1) (.ofText (c :: t)) w
            = loadWords dl (wordsSeen w (c :: t)) :=
          funext fun st ↦ ih _ hshort (by omega) w st rfl
        rw [hex]
        simp only [hnext, List.isEmpty_cons, Bool.false_eq_true, if_false]

/-! ## Words as records

When `dlopen` and `dlsym` depend on their arguments alone, a word stands for a record or for a
failure, and a load is a fold over the records. -/

section

variable (dlopen : Bytes → Option Handle) (dlsym : Handle → Bytes → Option Sym)

/-- The record that is loaded, if it is. -/
def RecordOutcome.record : RecordOutcome → Option PluginInfo
  | .loaded pit => some pit
  | _ => none

/-- The record the fields of a word make, when they make one: how many libraries have been opened
before makes no difference. -/
def recordOf (vecInfo : List Bytes) : Option PluginInfo :=
  (recordOutcome (.const dlopen dlsym) 0 vecInfo).record

theorem recordOf_eq (vecInfo : List Bytes) :
    recordOf dlopen dlsym vecInfo
      = if vecInfo.length < 6 ∨ missingField vecInfo = true then none
        else (dlopen (cstr (vecInfo.getD 1 []) 0)).bind fun handle ↦
          (dlsym handle (cstr (vecInfo.getD 2 []) 0)).bind fun initHandler ↦
            (dlsym handle (cstr (vecInfo.getD 3 []) 0)).map fun processHandler ↦
              { name := vecInfo.getD 0 [], dlhandler := handle, initHandler, processHandler,
                conf := vecInfo.getD 4 [], modelDir := vecInfo.getD 5 [],
                hasExtIn := decide (6 < vecInfo.length) && vecInfo.getD 6 [] == lit "true" } := by
  rw [recordOf, recordOutcome, DynLib.const]
  by_cases hfields : vecInfo.length < 6 ∨ missingField vecInfo = true
  · rw [if_pos hfields, if_pos hfields]
    rfl
  · rw [if_neg hfields, if_neg hfields]
    dsimp only
    cases dlopen (cstr (vecInfo.getD 1 []) 0) with
    | none => rfl
    | some handle =>
      rw [Option.bind_some]
      dsimp only
      cases dlsym handle (cstr (vecInfo.getD 2 []) 0) with
      | none => rfl
      | some initHandler =>
        rw [Option.bind_some]
        dsimp only
        cases dlsym handle (cstr (vecInfo.getD 3 []) 0) <;> rfl

/-- The record of a word. -/
def recordOfWord (line : Bytes) : Option PluginInfo :=
  (split line (lit "|")).bind (recordOf dlopen dlsym)

/-- A load as a fold: what is returned, and the table. -/
def loadRecords (slot : PluginSlot PluginInfo) : List (Option PluginInfo) →
    Bool × PluginSlot PluginInfo
  | [] => (true, slot)
  | none :: _ => (false, slot)
  | some pit :: records => loadRecords (slot.insertPlugin pit.name (some pit)).2 records

/-- The records of a list of words: those of the words that are not skipped. -/
def recordsOf (lines : List Bytes) : List (Option PluginInfo) :=
  (lines.filter fun line ↦ !skipped line).map (recordOfWord dlopen dlsym)

/-- What a load returns, and the table it leaves. -/
def outcome (r : Option (Bool × LoadState)) : Option (Bool × PluginSlot PluginInfo) :=
  r.map fun r ↦ (r.1, r.2.slot)

theorem recordOfWord_eq (line : Bytes) :
    recordOfWord dlopen dlsym line = recordOf dlopen dlsym (fieldsOf line) := by
  rw [recordOfWord, split_bar, Option.bind_some]

/-- **A load over a list of words is a fold over their records.** -/
theorem outcome_loadWords (lines : List Bytes) (st : LoadState) :
    outcome (loadWords (.const dlopen dlsym) lines st)
      = some (loadRecords st.slot (recordsOf dlopen dlsym lines)) := by
  induction lines generalizing st with
  | nil => rfl
  | cons line lines ih =>
    rw [loadWords, recordsOf, List.filter_cons]
    cases hskip : skipped line with
    | true =>
      rw [loadTurn_of_skipped _ hskip]
      exact ih st
    | false =>
      have hrecord : recordOfWord dlopen dlsym line = (recordOutcome (.const dlopen dlsym)
          st.opened.length (fieldsOf line)).record := recordOfWord_eq dlopen dlsym line
      rw [loadTurn_of_record _ hskip, Bool.not_false, if_pos rfl, List.map_cons, hrecord]
      rcases recordOutcome (.const dlopen dlsym) st.opened.length (fieldsOf line) with _ | _ | pit
      · rfl
      · rfl
      · exact ih (st.withRecord pit)

/-! ## The last word -/

/-- **Reading the last record again changes nothing.** -/
theorem loadRecords_twice (slot : PluginSlot PluginInfo) (records : List (Option PluginInfo))
    (r : Option PluginInfo) :
    loadRecords slot (records ++ [r, r]) = loadRecords slot (records ++ [r]) := by
  induction records generalizing slot with
  | nil =>
    cases r with
    | none => rfl
    | some pit => simp [loadRecords, slot.insertPlugin_insertPlugin]
  | cons r' records ih =>
    cases r' with
    | none => rfl
    | some pit => exact ih _

/-- The words the loop sees make the records of the words of the text, the last of them perhaps
twice. -/
theorem loadRecords_wordsSeen (slot : PluginSlot PluginInfo) (text : Bytes) :
    loadRecords slot (recordsOf dlopen dlsym (wordsSeen [] text))
      = loadRecords slot (recordsOf dlopen dlsym (words text)) := by
  rw [wordsSeen]
  split
  · cases h : (words text).getLast? with
    | none =>
      rw [List.getLast?_eq_none_iff.mp h]
      rfl
    | some w =>
      have hinit := List.dropLast_append_getLast? w h
      have hlast : (words text).getLastD [] = w := by rw [List.getLastD_eq_getLast?, h]; rfl
      rw [hlast, ← hinit]
      simp only [recordsOf, List.filter_append, List.map_append, List.append_assoc]
      cases hw : skipped w with
      | true => simp [hw]
      | false => simpa [hw] using loadRecords_twice slot _ _
  · rw [List.append_nil]

/-- **A load is a fold over the records of the words of the text.** -/
theorem outcome_load {conf : Bytes} (hconf : conf ≠ []) (text : Bytes)
    (slot : PluginSlot PluginInfo) :
    outcome (load (.const dlopen dlsym) conf (some (.ofText text)) slot)
      = some (loadRecords slot (recordsOf dlopen dlsym (words text))) := by
  have hload : load (.const dlopen dlsym) conf (some (.ofText text)) slot
      = loadWords (.const dlopen dlsym) (wordsSeen [] text) ⟨slot, [], []⟩ := by
    rw [load, if_neg (by simpa using hconf)]
    exact loadLoop_eq _ (by simp [IStream.ofText]) [] _
  rw [hload, outcome_loadWords, loadRecords_wordsSeen]

end

/-! ## Comments -/

/-- A text, given by its lines. -/
def textOf (lines : List Bytes) : Bytes := [10].intercalate lines

/-- The line `c` is inert: put in anywhere among the lines of any configuration, it changes neither
what a load returns nor the table. -/
def Inert (c : Bytes) : Prop :=
  ∀ dlopen dlsym conf slot lines i, lines ≠ [] → (∀ l ∈ lines, 10 ∉ l) → i ≤ lines.length →
    outcome (load (.const dlopen dlsym) conf (some (.ofText (textOf (lines.insertIdx i c)))) slot)
      = outcome (load (.const dlopen dlsym) conf (some (.ofText (textOf lines))) slot)

theorem skipped_iff {word : Bytes} (hw : word ≠ []) :
    skipped word = true ↔ word.head? = some 35 := by
  cases word with
  | nil => exact absurd rfl hw
  | cons x word => simp [skipped]

theorem words_textOf (lines : List Bytes) : words (textOf lines) = lines.flatMap words :=
  wordsBy_intercalate (by decide) lines

/-- Words that are skipped make no records. -/
theorem recordsOf_eq_nil (dlopen : Bytes → Option Handle) (dlsym : Handle → Bytes → Option Sym)
    {lines : List Bytes} (h : ∀ line ∈ lines, skipped line = true) :
    recordsOf dlopen dlsym lines = [] := by
  rw [recordsOf, List.map_eq_nil_iff, List.filter_eq_nil_iff]
  intro line hline
  simp [h line hline]

theorem recordsOf_append (dlopen : Bytes → Option Handle) (dlsym : Handle → Bytes → Option Sym)
    (s t : List Bytes) :
    recordsOf dlopen dlsym (s ++ t) = recordsOf dlopen dlsym s ++ recordsOf dlopen dlsym t := by
  rw [recordsOf, List.filter_append, List.map_append]
  rfl

/-- Without libraries no word makes a record. -/
theorem recordOfWord_noLibraries :
    recordOfWord (fun _ ↦ none) (fun _ _ ↦ none) = fun _ ↦ none := by
  funext line
  rw [recordOfWord_eq, recordOf_eq]
  split <;> rfl

/-- A load that comes upon a word that is not skipped fails then. -/
theorem loadRecords_noLibraries (slot : PluginSlot PluginInfo) {lines : List Bytes} {line : Bytes}
    (hline : line ∈ lines) (hskip : skipped line = false) :
    (loadRecords slot (recordsOf (fun _ ↦ none) (fun _ _ ↦ none) lines)).1 = false := by
  have hmem : line ∈ lines.filter fun line ↦ !skipped line :=
    List.mem_filter.mpr ⟨hline, by simp [hskip]⟩
  rw [recordsOf, recordOfWord_noLibraries]
  cases hf : lines.filter fun line ↦ !skipped line with
  | nil => exact absurd hmem (by simp [hf])
  | cons w ws => rw [List.map_cons, loadRecords]

/-- **Exactly the comments of which every word begins with `#` are inert.** -/
theorem comment_inert_iff (comment : Bytes) :
    Inert (35 :: comment) ↔ ∀ word ∈ words (35 :: comment), word.head? = some 35 := by
  constructor
  · intro hinert word hword
    by_contra hhead
    have hskip : skipped word = false := by
      simpa using mt (skipped_iff (ne_nil_of_mem_wordsBy hword)).mp hhead
    -- a file with nothing in it, where no library can be opened
    have h := hinert (fun _ ↦ none) (fun _ _ ↦ none) (lit "conf") .empty [[]] 0 (by simp)
      (by simp) (by simp)
    have hconf : lit "conf" ≠ [] := by decide
    rw [outcome_load _ _ hconf, outcome_load _ _ hconf, words_textOf, words_textOf] at h
    have hfail := loadRecords_noLibraries .empty
      (show word ∈ [35 :: comment, []].flatMap words from List.mem_flatMap.mpr ⟨_, by simp, hword⟩)
      hskip
    have hone := congrArg Prod.fst (Option.some.inj h)
    rw [List.insertIdx_zero, hfail] at hone
    exact absurd hone (by simp [recordsOf, loadRecords])
  · intro hwords dlopen dlsym conf slot lines i hne hlines hi
    by_cases hconf : conf = []
    · rw [hconf, load_nil, load_nil]
    · have hnil : recordsOf dlopen dlsym (words (35 :: comment)) = [] :=
        recordsOf_eq_nil _ _ fun w hw ↦
          (skipped_iff (ne_nil_of_mem_wordsBy hw)).mpr (hwords w hw)
      rw [outcome_load _ _ hconf, outcome_load _ _ hconf, words_textOf, words_textOf,
        flatMap_insertIdx words hi, recordsOf_append, recordsOf_append, hnil, List.append_nil,
        ← recordsOf_append, ← List.flatMap_append, List.take_append_drop]

/-- A comment with a space in it, in front of an empty file. -/
theorem comment_not_inert :
    outcome (load (.const (fun _ ↦ none) fun _ _ ↦ none) (lit "conf")
        (some (.ofText (textOf [lit "# my comment", []]))) .empty) = some (false, .empty) ∧
      outcome (load (.const (fun _ ↦ none) fun _ _ ↦ none) (lit "conf")
        (some (.ofText (textOf [[]]))) .empty) = some (true, .empty) ∧
      ¬Inert (lit "# my comment") := by
  have hconf : lit "conf" ≠ [] := by decide
  have hfails : outcome (load (.const (fun _ ↦ none) fun _ _ ↦ none) (lit "conf")
      (some (.ofText (textOf [lit "# my comment", []]))) .empty) = some (false, .empty) := by
    rw [outcome_load _ _ hconf, recordsOf, recordOfWord_noLibraries]
    rfl
  have hloads : outcome (load (.const (fun _ ↦ none) fun _ _ ↦ none) (lit "conf")
      (some (.ofText (textOf [[]]))) .empty) = some (true, .empty) := by
    rw [outcome_load _ _ hconf]
    rfl
  refine ⟨hfails, hloads, fun hinert ↦ ?_⟩
  have h := hinert (fun _ ↦ none) (fun _ _ ↦ none) (lit "conf") .empty [[]] 0 (by simp) (by simp)
    (by simp)
  rw [List.insertIdx_zero, hfails, hloads] at h
  exact absurd (congrArg Prod.fst (Option.some.inj h)) (by simp)

end ImgPredictor
