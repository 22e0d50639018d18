import ImgPredictor.PluginSlot.Comments

/-!
# What a plugin configuration means

A configuration file is a stream of words.  Apart from those that begin with `#`, each word stands
for a record: its fields are separated by `|`, and name the plugin, its library, the two handlers in
it, two settings that may be empty, and possibly a flag.

* `Accepted` says which words make a record, and `IsRecord` which record a word makes: it is made of
  the parts of the word, which are its fields as long as the size of the word fits an `int`.
* `TableOf` says what a table is when it was made from a list of words: under each name stands the
  record of the first word with that name.
* `load_meaning` says that this is what `load` does with a file, for every text of such words.

None of the three mentions the loop, the splitting or the insertions.
-/

set_option autoImplicit false

namespace ImgPredictor

open Bytes Lists

/-! ## Words and their records -/

/-- The parts of a word: what stands between its bars. -/
def partsOf (line : Bytes) : List Bytes := line.splitOn 124

/-- The `i`-th part of a word, empty when there is none. -/
def partAt (line : Bytes) (i : ℕ) : Bytes := (partsOf line).getD i []

/-- The size of the word with a separator behind it fits an `int`. -/
def FitsInt (line : Bytes) : Prop := line.length + 1 < 2 ^ 31

/-- The words of a text that stand for a record. -/
def recordLines (text : Bytes) : List Bytes :=
  (words text).filter fun line ↦ line.head? != some 35

section

variable (dlopen : Bytes → Option Handle) (dlsym : Handle → Bytes → Option Sym)

/-- The word makes a record. -/
structure Accepted (line : Bytes) : Prop where
  /-- It has six parts. -/
  enough : 6 ≤ (partsOf line).length
  /-- None of its parts is empty, but for the fifth and sixth. -/
  filled : ∀ i, (partsOf line)[i]? = some [] → i = 4 ∨ i = 5
  /-- The library opens, and has the two symbols. -/
  resolves : ∃ handle, dlopen (cstr (partAt line 1) 0) = some handle ∧
    (dlsym handle (cstr (partAt line 2) 0)).isSome = true ∧
    (dlsym handle (cstr (partAt line 3) 0)).isSome = true

/-- The word makes the record `pit`. -/
structure IsRecord (line : Bytes) (pit : PluginInfo) : Prop where
  /-- The first part is the name. -/
  name : pit.name = partAt line 0
  /-- The second is the library. -/
  dlhandler : dlopen (cstr (partAt line 1) 0) = some pit.dlhandler
  /-- The third is the init handler. -/
  initHandler : dlsym pit.dlhandler (cstr (partAt line 2) 0) = some pit.initHandler
  /-- The fourth is the process handler. -/
  processHandler : dlsym pit.dlhandler (cstr (partAt line 3) 0) = some pit.processHandler
  /-- The fifth is the plugin's own configuration. -/
  conf : pit.conf = partAt line 4
  /-- The sixth is the model directory. -/
  modelDir : pit.modelDir = partAt line 5
  /-- The seventh, if there is one, is the flag. -/
  hasExtIn : pit.hasExtIn = true ↔ (partsOf line)[6]? = some (lit "true")

/-- The table made from a list of words: each name has the record of the first word with that name,
and no other name has any. -/
def TableOf (lines : List Bytes) (slot : PluginSlot PluginInfo) : Prop :=
  ∀ name, match lines.find? fun line ↦ partAt line 0 == name with
    | none => slot.getPluginInfo name = none
    | some line => ∃ pit, slot.getPluginInfo name = some pit ∧ IsRecord dlopen dlsym line pit

/-! ## The record of a word -/

theorem missingField_iff (vecInfo : List Bytes) :
    missingField vecInfo = true ↔ ∃ i : ℕ, vecInfo[i]? = some [] ∧ ¬(i = 4 ∨ i = 5) := by
  rw [missingField, List.any_eq_true]
  constructor
  · rintro ⟨⟨field, i⟩, hmem, hi⟩
    simp only [Bool.and_eq_true, List.isEmpty_iff, bne_iff_ne] at hi
    obtain ⟨⟨rfl, h4⟩, h5⟩ := hi
    exact ⟨i, List.mem_zipIdx_iff_getElem?.mp hmem, not_or.mpr ⟨h4, h5⟩⟩
  · rintro ⟨i, hi, hne⟩
    refine ⟨([], i), List.mem_zipIdx_iff_getElem?.mpr hi, ?_⟩
    simpa using hne

/-- `split` cuts a word into its parts, if it fits. -/
theorem recordOfWord_of_fits {line : Bytes} (h : FitsInt line) :
    recordOfWord dlopen dlsym line = recordOf dlopen dlsym (partsOf line) := by
  have hfields : fieldsOf line = partsOf line := if_pos h
  rw [recordOfWord_eq, hfields]

/-- A word that makes a record is cut into its parts. -/
theorem recordOf_partsOf {line : Bytes} (h : (recordOfWord dlopen dlsym line).isSome = true) :
    recordOfWord dlopen dlsym line = recordOf dlopen dlsym (partsOf line) := by
  rw [recordOfWord_eq] at h ⊢
  rcases fieldsOf_eq_or line with hparts | hnil
  · rw [hparts]
    rfl
  · rw [hnil, recordOf_eq, if_pos (.inl (by decide))] at h
    exact absurd h (by simp)

/-- **The record a word makes**, when it makes one. -/
theorem isRecord_of_recordOfWord {line : Bytes} {pit : PluginInfo}
    (h : recordOfWord dlopen dlsym line = some pit) : IsRecord dlopen dlsym line pit := by
  rw [recordOf_partsOf dlopen dlsym (by simp [h]), recordOf_eq] at h
  split at h
  · exact absurd h (by simp)
  · simp only [Option.bind_eq_some_iff, Option.map_eq_some_iff] at h
    obtain ⟨handle, hopen, initHandler, hinit, processHandler, hprocess, rfl⟩ := h
    refine ⟨rfl, hopen, hinit, hprocess, rfl, rfl, ?_⟩
    simp only [Bool.and_eq_true, decide_eq_true_eq, beq_iff_eq]
    rw [List.getElem?_eq_some_iff]
    constructor
    · rintro ⟨hlen, hflag⟩
      exact ⟨hlen, by simpa [List.getD_eq_getElem?_getD, hlen] using hflag⟩
    · rintro ⟨hlen, hflag⟩
      exact ⟨hlen, by simpa [List.getD_eq_getElem?_getD, hlen] using hflag⟩

/-- The parts of a word make a record exactly if the word is accepted. -/
theorem accepted_iff_recordOf (line : Bytes) :
    Accepted dlopen dlsym line ↔ (recordOf dlopen dlsym (partsOf line)).isSome = true := by
  rw [recordOf_eq]
  constructor
  · rintro ⟨henough, hfilled, handle, hopen, hinit, hprocess⟩
    have hmissing : ¬((partsOf line).length < 6 ∨ missingField (partsOf line) = true) := by
      rw [missingField_iff]
      rintro (h | ⟨i, hi, hne⟩)
      · omega
      · exact hne (hfilled i hi)
    obtain ⟨initHandler, hinit⟩ := Option.isSome_iff_exists.mp hinit
    rw [if_neg hmissing]
    simp only [partAt] at hopen hinit hprocess
    simp only [hopen, hinit, Option.bind_some, Option.isSome_map, hprocess]
  · intro h
    split at h
    · exact absurd h (by simp)
    · rename_i hbad
      rw [not_or, missingField_iff] at hbad
      obtain ⟨pit, hpit⟩ := Option.isSome_iff_exists.mp h
      simp only [Option.bind_eq_some_iff, Option.map_eq_some_iff] at hpit
      obtain ⟨handle, hopen, initHandler, hinit, processHandler, hprocess, -⟩ := hpit
      refine ⟨by omega, fun i hi ↦ ?_, handle, hopen, ?_, ?_⟩
      · by_contra hne
        exact hbad.2 ⟨i, hi, hne⟩
      · exact Option.isSome_iff_exists.mpr ⟨_, hinit⟩
      · exact Option.isSome_iff_exists.mpr ⟨_, hprocess⟩

/-- **Which words make a record.** -/
theorem accepted_iff {line : Bytes} (hfits : FitsInt line) :
    Accepted dlopen dlsym line ↔ (recordOfWord dlopen dlsym line).isSome = true := by
  rw [accepted_iff_recordOf, recordOfWord_of_fits dlopen dlsym hfits]

/-- The name of a record is not empty. -/
theorem name_ne_nil {line : Bytes} {pit : PluginInfo}
    (h : recordOfWord dlopen dlsym line = some pit) : pit.name ≠ [] := by
  have hsome : (recordOfWord dlopen dlsym line).isSome = true := by simp [h]
  have hacc : Accepted dlopen dlsym line :=
    (accepted_iff_recordOf dlopen dlsym line).mpr (recordOf_partsOf dlopen dlsym hsome ▸ hsome)
  have hlen : 0 < (partsOf line).length := by have := hacc.enough; omega
  rw [(isRecord_of_recordOfWord dlopen dlsym h).name, partAt, List.getD_eq_getElem?_getD]
  intro hempty
  -- an empty first part is one of those that may not be
  rcases hacc.filled 0 (by simpa [hlen] using hempty) with h0 | h0 <;> omega

/-! ## The table -/

/-- A load succeeds when each of its words makes a record. -/
theorem loadRecords_fst (slot : PluginSlot PluginInfo) (records : List (Option PluginInfo)) :
    (loadRecords slot records).1 = true ↔ ∀ r ∈ records, r.isSome = true := by
  induction records generalizing slot with
  | nil => simp [loadRecords]
  | cons r records ih =>
    cases r with
    | none => simp [loadRecords]
    | some pit => simpa [loadRecords] using ih _

/-- **The table of a load that succeeds**: what was there stays, and then the first record of each
name counts. -/
theorem getPluginInfo_loadRecords (slot : PluginSlot PluginInfo) {pits : List PluginInfo}
    (hnames : ∀ pit ∈ pits, pit.name ≠ []) (name : Bytes) :
    (loadRecords slot (pits.map some)).2.getPluginInfo name
      = (slot.getPluginInfo name).or (pits.find? fun pit ↦ pit.name == name) := by
  induction pits generalizing slot with
  | nil => simp [loadRecords]
  | cons pit pits ih =>
    rw [List.map_cons, loadRecords, ih _ fun p hp ↦ hnames p (List.mem_cons_of_mem _ hp),
      PluginSlot.getPluginInfo_insertPlugin (hnames pit (by simp)), Option.or_assoc,
      List.find?_cons]
    by_cases hname : pit.name = name
    · simp [hname]
    · rw [beq_false_of_ne hname, if_neg hname, Option.none_or]

theorem recordsOf_words (text : Bytes) :
    recordsOf dlopen dlsym (words text)
      = (recordLines text).map (recordOfWord dlopen dlsym) := by
  rw [recordsOf, recordLines]
  congr 1
  refine List.filter_congr fun line hline ↦ ?_
  have hne := ne_nil_of_mem_wordsBy hline
  rw [Bool.eq_iff_iff, Bool.not_eq_true', ← Bool.not_eq_true, skipped_iff hne, bne_iff_ne]

/-- Words that all make records make the table of those words. -/
theorem tableOf_loadRecords {lines : List Bytes}
    (h : ∀ line ∈ lines, (recordOfWord dlopen dlsym line).isSome = true) :
    TableOf dlopen dlsym lines
      (loadRecords .empty (lines.map (recordOfWord dlopen dlsym))).2 := by
  -- the records of the words, word by word
  obtain ⟨pits, hpits⟩ := exists_forall₂ fun line hline ↦ Option.isSome_iff_exists.mp (h line hline)
  have hmap : lines.map (recordOfWord dlopen dlsym) = pits.map some :=
    map_eq_map_iff_forall₂.mpr hpits
  have hnames : ∀ pit ∈ pits, pit.name ≠ [] := by
    intro pit hpit
    have hmem : some pit ∈ lines.map (recordOfWord dlopen dlsym) := by simp [hmap, hpit]
    obtain ⟨line, -, hline⟩ := List.mem_map.mp hmem
    exact name_ne_nil dlopen dlsym hline
  intro name
  rw [hmap, getPluginInfo_loadRecords _ hnames, PluginSlot.getPluginInfo_empty, Option.none_or]
  clear h hmap hnames
  induction hpits with
  | nil => rfl
  | @cons line pit lines pits hpit _ ih =>
    have hrec := isRecord_of_recordOfWord dlopen dlsym hpit
    rw [List.find?_cons, List.find?_cons, hrec.name]
    cases partAt line 0 == name with
    | true => exact ⟨pit, rfl, hrec⟩
    | false => exact ih

/-- **A configuration is loaded when all its words make records, and then the table is that of its
words**, whatever white space is between and behind them. -/
theorem load_meaning {conf : Bytes} (hconf : conf ≠ []) {text : Bytes}
    (hfits : ∀ line ∈ recordLines text, FitsInt line) :
    ∃ ok st, load (.const dlopen dlsym) conf (some (.ofText text)) .empty = some (ok, st) ∧
      (ok = true ↔ ∀ line ∈ recordLines text, Accepted dlopen dlsym line) ∧
      (ok = true → TableOf dlopen dlsym (recordLines text) st.slot) := by
  have hload := outcome_load dlopen dlsym hconf text .empty
  obtain ⟨⟨ok, st⟩, hst, heq⟩ := Option.map_eq_some_iff.mp hload
  rw [recordsOf_words] at heq
  have hok : ok = (loadRecords .empty _).1 := congrArg Prod.fst heq
  have hslot : st.slot = (loadRecords .empty _).2 := congrArg Prod.snd heq
  have hall : ok = true ↔
      ∀ line ∈ recordLines text, (recordOfWord dlopen dlsym line).isSome = true := by
    rw [hok, loadRecords_fst]
    simp only [List.mem_map, forall_exists_index, and_imp, forall_apply_eq_imp_iff₂]
  refine ⟨ok, st, hst, ?_, fun h ↦ ?_⟩
  · rw [hall]
    exact forall₂_congr fun line hline ↦ (accepted_iff dlopen dlsym (hfits line hline)).symm
  · rw [hslot]
    exact tableOf_loadRecords dlopen dlsym (hall.mp h)

end

/-- Two plugins of one name, and white space behind the last word. -/
def repeatedName : Bytes := lit "face|a.so|init|run|c|m|true\nface|b.so|init|run|d|\n"

theorem recordLines_repeatedName : recordLines repeatedName
    = [lit "face|a.so|init|run|c|m|true", lit "face|b.so|init|run|d|"] := by
  decide +kernel

/-- Both are accepted, and the first one is the one that is found, although the last word is seen
twice. -/
theorem load_meaning_repeated :
    ∃ st pit, load (.const (fun _ ↦ some 1) fun _ _ ↦ some 2) (lit "conf")
        (some (.ofText repeatedName)) .empty = some (true, st) ∧
      st.slot.getPluginInfo (lit "face") = some pit ∧ pit.conf = lit "c" ∧
        pit.hasExtIn = true := by
  have hfits : ∀ line ∈ recordLines repeatedName, FitsInt line := by
    rw [recordLines_repeatedName]
    simp [FitsInt, lit]
  obtain ⟨ok, st, hload, hok, htable⟩ :=
    load_meaning (fun _ ↦ some 1) (fun _ _ ↦ some 2) (show lit "conf" ≠ [] by decide) hfits
  have haccepted : ∀ line ∈ recordLines repeatedName,
      Accepted (fun _ ↦ some 1) (fun _ _ ↦ some 2) line := by
    have hrecords : ∀ line ∈ recordLines repeatedName,
        (recordOf (fun _ ↦ some 1) (fun _ _ ↦ some 2) (partsOf line)).isSome = true := by
      rw [recordLines_repeatedName]
      decide +kernel
    exact fun line hline ↦ (accepted_iff_recordOf _ _ line).mpr (hrecords line hline)
  obtain rfl := hok.mpr haccepted
  have hface := htable rfl (lit "face")
  rw [recordLines_repeatedName] at hface
  obtain ⟨pit, hpit, hrecord⟩ := hface
  refine ⟨st, pit, hload, hpit, hrecord.conf.trans (by decide +kernel), ?_⟩
  exact hrecord.hasExtIn.mpr (by decide +kernel)

/-- A word of `n` bytes more than the settings need. -/
def paddedWord (n : ℕ) : Bytes := lit "a|lib|init|run|c|" ++ List.replicate n 120

theorem partsOf_paddedWord (n : ℕ) : partsOf (paddedWord n)
    = [lit "a", lit "lib", lit "init", lit "run", lit "c", List.replicate n 120] := by
  have hjoined : paddedWord n = [124].intercalate
      [lit "a", lit "lib", lit "init", lit "run", lit "c", List.replicate n 120] := by
    simp [paddedWord, lit, List.intercalate, List.intersperse]
  rw [partsOf, hjoined, List.splitOn_intercalate 124 _ (by simp)]
  intro part hpart hbar
  simp only [List.mem_cons, List.not_mem_nil, or_false] at hpart
  rcases hpart with rfl | rfl | rfl | rfl | rfl | rfl
  · exact absurd hbar (by decide)
  · exact absurd hbar (by decide)
  · exact absurd hbar (by decide)
  · exact absurd hbar (by decide)
  · exact absurd hbar (by decide)
  · exact absurd (List.eq_of_mem_replicate hbar) (by decide)

theorem recordLines_paddedWord (n : ℕ) : recordLines (paddedWord n) = [paddedWord n] := by
  have hword : ∀ b ∈ paddedWord n, isSpace b = false := by
    intro b hb
    rcases List.mem_append.mp hb with hb | hb
    · have hletters : (lit "a|lib|init|run|c|").all (fun b ↦ !isSpace b) = true := by decide +kernel
      simpa using List.all_eq_true.mp hletters b hb
    · rw [List.eq_of_mem_replicate hb]
      decide
  rw [recordLines, words, wordsBy_eq_singleton (by simp [paddedWord, lit]) hword]
  rfl

/-- **A word that is too long**: it has six good parts, and the load finds no fields in it. -/
theorem load_paddedWord :
    ∃ text st, load (.const (fun _ ↦ some 1) fun _ _ ↦ some 2) (lit "conf")
        (some (.ofText text)) .empty = some (false, st) ∧
      ∀ line ∈ recordLines text, Accepted (fun _ ↦ some 1) (fun _ _ ↦ some 2) line := by
  have hlength : (paddedWord (2 ^ 31)).length = 17 + 2 ^ 31 := by
    rw [paddedWord, List.length_append, List.length_replicate]
    rfl
  have hload := outcome_load (fun _ ↦ some 1) (fun _ _ ↦ some 2)
    (show lit "conf" ≠ [] by decide) (paddedWord (2 ^ 31)) .empty
  have hrecord : recordOfWord (fun _ ↦ some 1) (fun _ _ ↦ some 2) (paddedWord (2 ^ 31)) = none := by
    rw [recordOfWord_eq, fieldsOf, if_neg (by omega), recordOf_eq, if_pos (.inl (by decide))]
  obtain ⟨⟨ok, st⟩, hst, heq⟩ := Option.map_eq_some_iff.mp hload
  rw [recordsOf_words, recordLines_paddedWord, List.map_singleton, hrecord] at heq
  obtain rfl : ok = false := congrArg Prod.fst heq
  refine ⟨_, st, hst, fun line hline ↦ ?_⟩
  rw [recordLines_paddedWord, List.mem_singleton] at hline
  subst hline
  rw [accepted_iff_recordOf, partsOf_paddedWord]
  rfl

end ImgPredictor
