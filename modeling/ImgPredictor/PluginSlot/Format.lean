import Mathlib.Data.List.Perm.Basic
import ImgPredictor.PluginSlot.Config

/-!
# The configuration as a format

What a configuration file says is a list of plugins, each a `PluginSpec`: the texts to be looked
up and handed on, and the flag.  `specsOf` reads such a list off a text, and `render` writes one, a
line for each plugin.

* `format_roundTrip`: **what is written is read back**, and for every text of words that fit an
  `int` a load does what the list it reads says, whatever the libraries have and whatever is in the
  table. Where no list can be read, every load fails.
* `load_joined` is about files one after the other, the same file again, and files in another order.
-/

set_option autoImplicit false

namespace ImgPredictor

open Bytes Lists

/-! ## Plugins and their lines -/

/-- What a configuration says of one plugin. -/
structure PluginSpec where
  /-- Its name. -/
  name : Bytes
  /-- Its library. -/
  library : Bytes
  /-- The symbol of its init handler. -/
  initHandler : Bytes
  /-- The symbol of its process handler. -/
  processHandler : Bytes
  /-- Its configuration. -/
  conf : Bytes
  /-- Its model directory. -/
  modelDir : Bytes
  /-- Does it take an extension parameter? -/
  hasExtIn : Bool
  /-- No text has a `|` or white space in it. -/
  clean : ∀ field ∈ [name, library, initHandler, processHandler, conf, modelDir], ∀ b ∈ field,
    b ≠ 124 ∧ isSpace b = false
  /-- The first four are not empty. -/
  filled : ∀ field ∈ [name, library, initHandler, processHandler], field ≠ []
  /-- The line is no comment. -/
  notComment : name.head? ≠ some 35

/-- The fields of a plugin's line. -/
def PluginSpec.fields (spec : PluginSpec) : List Bytes :=
  [spec.name, spec.library, spec.initHandler, spec.processHandler, spec.conf, spec.modelDir] ++
    if spec.hasExtIn then [lit "true"] else []

/-- The line of a plugin. -/
def PluginSpec.line (spec : PluginSpec) : Bytes := [124].intercalate spec.fields

/-- The file for a list of plugins. -/
def render (specs : List PluginSpec) : Bytes := textOf (specs.map PluginSpec.line)

theorem PluginSpec.clean_fields (spec : PluginSpec) :
    ∀ field ∈ spec.fields, ∀ b ∈ field, b ≠ 124 ∧ isSpace b = false := by
  intro field hfield
  rw [fields, List.mem_append] at hfield
  rcases hfield with hfield | hfield
  · exact spec.clean field hfield
  · split at hfield
    · obtain rfl := List.mem_singleton.mp hfield
      decide +kernel
    · exact absurd hfield List.not_mem_nil

/-- The fields of the line are those it was made of. -/
theorem PluginSpec.partsOf_line (spec : PluginSpec) : partsOf spec.line = spec.fields := by
  refine List.splitOn_intercalate 124 (fun field hfield hmem ↦ ?_) (by simp [fields])
  exact (spec.clean_fields field hfield 124 hmem).1 rfl

/-- A line with a plugin on it starts with the plugin's name. -/
theorem head?_line {line : Bytes} (hname : partAt line 0 ≠ []) :
    line.head? = (partAt line 0).head? := by
  have hline : [124].intercalate (partsOf line) = line := List.intercalate_splitOn 124
  rw [partAt] at hname ⊢
  cases hfields : partsOf line with
  | nil => exact absurd hfields (List.splitOn_ne_nil 124 line)
  | cons name fields =>
    rw [hfields] at hline hname
    cases fields with
    | nil =>
      rw [List.intercalate_singleton] at hline
      rw [hline]
      rfl
    | cons field fields =>
      rw [← hline, List.intercalate_cons_cons, List.append_assoc]
      exact List.head?_append_of_ne_nil _ hname

/-- The bytes of a field are bytes of the line, and no `|`. -/
theorem mem_partsOf {line field : Bytes} (hfield : field ∈ partsOf line) {b : UInt8}
    (hb : b ∈ field) : b ≠ 124 ∧ b ∈ line := by
  rw [partsOf] at hfield
  induction line using Lists.separated_induction (124 : UInt8) with
  | piece a ha =>
    rw [List.splitOn_eq_singleton ha, List.mem_singleton] at hfield
    subst hfield
    exact ⟨fun h ↦ ha (h ▸ hb), hb⟩
  | more a t ha ih =>
    rw [List.splitOn_append_cons_self_of_not_mem ha, List.mem_cons] at hfield
    rcases hfield with rfl | hfield
    · exact ⟨fun h ↦ ha (h ▸ hb), List.mem_append_left _ hb⟩
    · obtain ⟨hbar, hmem⟩ := ih hfield
      exact ⟨hbar, List.mem_append_right _ (List.mem_cons_of_mem _ hmem)⟩

theorem mem_partAt {line : Bytes} {i : ℕ} {b : UInt8} (hb : b ∈ partAt line i) :
    b ≠ 124 ∧ b ∈ line := by
  rw [partAt, List.getD_eq_getElem?_getD] at hb
  cases hfield : (partsOf line)[i]? with
  | none =>
    rw [hfield] at hb
    exact absurd hb List.not_mem_nil
  | some field =>
    rw [hfield] at hb
    exact mem_partsOf (List.mem_of_getElem? hfield) hb

/-! ## Reading -/

/-- The line has a plugin on it. -/
structure HasSpec (line : Bytes) : Prop where
  /-- It has six fields. -/
  enough : 6 ≤ (partsOf line).length
  /-- None of its fields is empty, but for the fifth and sixth. -/
  complete : missingField (partsOf line) = false
  /-- It is one word. -/
  word : ∀ b ∈ line, isSpace b = false
  /-- It is no comment. -/
  notComment : line.head? ≠ some 35

theorem hasSpec_iff {line : Bytes} :
    (6 ≤ (partsOf line).length ∧ missingField (partsOf line) = false ∧
      line.any isSpace = false ∧ line.head? ≠ some 35) ↔ HasSpec line :=
  ⟨fun h ↦ ⟨h.1, h.2.1, by simpa using h.2.2.1, h.2.2.2⟩,
    fun h ↦ ⟨h.enough, h.complete, by simpa using h.word, h.notComment⟩⟩

instance (line : Bytes) : Decidable (HasSpec line) := decidable_of_iff _ hasSpec_iff

namespace HasSpec

variable {line : Bytes} (h : HasSpec line)
include h

theorem clean : ∀ field ∈ [partAt line 0, partAt line 1, partAt line 2, partAt line 3,
    partAt line 4, partAt line 5], ∀ b ∈ field, b ≠ 124 ∧ isSpace b = false := by
  have hfield : ∀ i, ∀ b ∈ partAt line i, b ≠ 124 ∧ isSpace b = false := by
    intro i b hb
    obtain ⟨hbar, hmem⟩ := mem_partAt hb
    exact ⟨hbar, h.word b hmem⟩
  simpa using ⟨hfield 0, hfield 1, hfield 2, hfield 3, hfield 4, hfield 5⟩

theorem partAt_ne_nil {i : ℕ} (hi : i < 4) : partAt line i ≠ [] := by
  intro hnil
  have hlength : i < (partsOf line).length := Nat.lt_of_lt_of_le (by omega) h.enough
  have hmissing := mt (missingField_iff (partsOf line)).mpr (by simp [h.complete])
  refine hmissing ⟨i, ?_, by omega⟩
  rw [partAt, List.getD_eq_getElem?_getD, List.getElem?_eq_getElem hlength] at hnil
  rw [List.getElem?_eq_getElem hlength]
  exact congrArg some hnil

theorem filled : ∀ field ∈ [partAt line 0, partAt line 1, partAt line 2, partAt line 3],
    field ≠ [] := by
  have hfield : ∀ i < 4, partAt line i ≠ [] := fun _ ↦ h.partAt_ne_nil
  simpa using ⟨hfield 0 (by omega), hfield 1 (by omega), hfield 2 (by omega), hfield 3 (by omega)⟩

theorem head?_name : (partAt line 0).head? ≠ some 35 :=
  head?_line (h.partAt_ne_nil (by omega)) ▸ h.notComment

end HasSpec

/-- The plugin on a line. -/
def specOf (line : Bytes) : Option PluginSpec :=
  if h : HasSpec line then
    some {
      name := partAt line 0, library := partAt line 1, initHandler := partAt line 2
      processHandler := partAt line 3, conf := partAt line 4, modelDir := partAt line 5
      hasExtIn := decide ((partsOf line)[6]? = some (lit "true"))
      clean := h.clean, filled := h.filled, notComment := h.head?_name }
  else none

/-- The plugins of a file, if it says nothing else. -/
def specsOf (text : Bytes) : Option (List PluginSpec) := (recordLines text).mapM specOf

/-! ## What is written is read back -/

theorem PluginSpec.partAt_line (spec : PluginSpec) (i : ℕ) :
    partAt spec.line i = spec.fields.getD i [] := by
  rw [partAt, spec.partsOf_line]

theorem PluginSpec.hasSpec_line (spec : PluginSpec) : HasSpec spec.line where
  enough := by
    rw [spec.partsOf_line, fields, List.length_append]
    exact Nat.le_add_right _ _
  complete := by
    have hfilled := spec.filled
    simp only [List.forall_mem_cons] at hfilled
    rw [spec.partsOf_line, fields, missingField]
    cases spec.hasExtIn <;> simp [hfilled, lit]
  word b hb := by
    rcases mem_intercalate hb with rfl | ⟨field, hfield, hb⟩
    · decide
    · exact (spec.clean_fields field hfield b hb).2
  notComment := by
    have hname : partAt spec.line 0 = spec.name := spec.partAt_line 0
    rw [head?_line (hname ▸ spec.filled _ List.mem_cons_self), hname]
    exact spec.notComment

theorem PluginSpec.line_ne_nil (spec : PluginSpec) : spec.line ≠ [] := by
  intro hnil
  have henough := spec.hasSpec_line.enough
  rw [hnil] at henough
  exact absurd henough (by decide)

theorem PluginSpec.specOf_line (spec : PluginSpec) : specOf spec.line = some spec := by
  rw [specOf, dif_pos spec.hasSpec_line]
  have hflag : decide ((partsOf spec.line)[6]? = some (lit "true")) = spec.hasExtIn := by
    rw [spec.partsOf_line, fields]
    cases spec.hasExtIn <;> rfl
  simp only [spec.partAt_line, hflag]
  rfl

theorem recordLines_render (specs : List PluginSpec) :
    recordLines (render specs) = specs.map PluginSpec.line := by
  have hwords : words (render specs) = specs.map PluginSpec.line := by
    rw [render, words_textOf, List.flatMap_map]
    have hword : ∀ spec : PluginSpec, words spec.line = [spec.line] := fun spec ↦
      wordsBy_eq_singleton spec.line_ne_nil spec.hasSpec_line.word
    simp only [hword]
    exact List.map_eq_flatMap.symm
  rw [recordLines, hwords, List.filter_eq_self]
  intro line hline
  obtain ⟨spec, -, rfl⟩ := List.mem_map.mp hline
  simpa using spec.hasSpec_line.notComment

theorem specsOf_render (specs : List PluginSpec) : specsOf (render specs) = some specs := by
  rw [specsOf, mapM_eq_some_iff, recordLines_render, List.map_map]
  exact List.map_congr_left fun spec _ ↦ spec.specOf_line

/-! ## What a load does with it -/

section

variable (dlopen : Bytes → Option Handle) (dlsym : Handle → Bytes → Option Sym)

/-- The record of a plugin, if its library opens and has the two symbols. -/
def PluginSpec.resolve (spec : PluginSpec) : Option PluginInfo :=
  (dlopen (cstr spec.library 0)).bind fun handle ↦
    (dlsym handle (cstr spec.initHandler 0)).bind fun initHandler ↦
      (dlsym handle (cstr spec.processHandler 0)).map fun processHandler ↦
        { name := spec.name, dlhandler := handle, initHandler, processHandler,
          conf := spec.conf, modelDir := spec.modelDir, hasExtIn := spec.hasExtIn }

/-- What a list of plugins does to a table: their records are put in, up to the first plugin that
has none. -/
def install (slot : PluginSlot PluginInfo) (specs : List PluginSpec) :
    Bool × PluginSlot PluginInfo :=
  loadRecords slot (specs.map (PluginSpec.resolve dlopen dlsym))

/-- The flag, as it is looked up. -/
theorem flag_eq (fields : List Bytes) :
    (decide (6 < fields.length) && fields.getD 6 [] == lit "true")
      = decide (fields[6]? = some (lit "true")) := by
  rw [List.getD_eq_getElem?_getD]
  by_cases hlength : 6 < fields.length
  · rw [List.getElem?_eq_getElem hlength, Option.getD_some, decide_eq_true hlength,
      Bool.true_and]
    simp only [Option.some.injEq]
    rw [Bool.eq_iff_iff, beq_iff_eq, decide_eq_true_iff]
  · rw [List.getElem?_eq_none (by omega)]
    simp [hlength]

/-- **The record of the parts of a word is the record of its plugin.** -/
theorem recordOf_partsOf_eq_bind {line : Bytes} (hword : ∀ b ∈ line, isSpace b = false)
    (hcomment : line.head? ≠ some 35) :
    recordOf dlopen dlsym (partsOf line)
      = (specOf line).bind (PluginSpec.resolve dlopen dlsym) := by
  rw [recordOf_eq, specOf]
  by_cases h : HasSpec line
  · rw [dif_pos h, if_neg (by simp [h.complete, h.enough]), Option.bind_some]
    simp only [flag_eq]
    rfl
  · rw [dif_neg h, Option.bind_none, if_pos]
    by_contra hfields
    rw [not_or, Bool.not_eq_true, Nat.not_lt] at hfields
    exact h ⟨hfields.1, hfields.2, hword, hcomment⟩

/-- The lines of a text, once it is cut into words that fit. -/
theorem recordOfWord_of_mem {text line : Bytes} (hline : line ∈ recordLines text)
    (hfits : FitsInt line) :
    recordOfWord dlopen dlsym line = (specOf line).bind (PluginSpec.resolve dlopen dlsym) := by
  obtain ⟨hword, hcomment⟩ := List.mem_filter.mp hline
  rw [recordOfWord_of_fits dlopen dlsym hfits]
  exact recordOf_partsOf_eq_bind dlopen dlsym (notSeparator_of_mem_wordsBy hword)
    (by simpa using hcomment)

/-- The line of a plugin, if it makes a record at all. -/
theorem PluginSpec.recordOfWord_line {spec : PluginSpec}
    (h : (recordOfWord dlopen dlsym spec.line).isSome = true) :
    recordOfWord dlopen dlsym spec.line = spec.resolve dlopen dlsym := by
  rw [recordOf_partsOf dlopen dlsym h, recordOf_partsOf_eq_bind dlopen dlsym
    spec.hasSpec_line.word spec.hasSpec_line.notComment, spec.specOf_line, Option.bind_some]

/-- A text that lists plugins makes their records. -/
theorem recordsOf_of_specsOf {text : Bytes} (hfits : ∀ line ∈ recordLines text, FitsInt line)
    {specs : List PluginSpec} (h : specsOf text = some specs) :
    recordsOf dlopen dlsym (words text) = specs.map (PluginSpec.resolve dlopen dlsym) := by
  rw [specsOf, mapM_eq_some_iff] at h
  have hrecords : (recordLines text).map (recordOfWord dlopen dlsym)
      = ((recordLines text).map specOf).map fun spec ↦
        spec.bind (PluginSpec.resolve dlopen dlsym) := by
    rw [List.map_map]
    exact List.map_congr_left fun line hline ↦
      recordOfWord_of_mem dlopen dlsym hline (hfits line hline)
  rw [recordsOf_words, hrecords, h, List.map_map]
  rfl

theorem recordsOf_render (specs : List PluginSpec) :
    recordsOf dlopen dlsym (words (render specs))
      = specs.map fun spec ↦ recordOfWord dlopen dlsym spec.line := by
  rw [recordsOf_words, recordLines_render, List.map_map, Function.comp_def]

/-- If a load of a written list succeeds, it puts in the records of the plugins. -/
theorem install_of_render {slot slot₁ : PluginSlot PluginInfo} {specs : List PluginSpec}
    (h : loadRecords slot (recordsOf dlopen dlsym (words (render specs))) = (true, slot₁)) :
    (∀ spec ∈ specs, (recordOfWord dlopen dlsym spec.line).isSome = true) ∧
      install dlopen dlsym slot specs = (true, slot₁) := by
  rw [recordsOf_render] at h
  have hsome : ∀ spec ∈ specs, (recordOfWord dlopen dlsym spec.line).isSome = true := by
    intro spec hspec
    exact (loadRecords_fst slot _).mp (congrArg Prod.fst h) _
      (List.mem_map.mpr ⟨spec, hspec, rfl⟩)
  refine ⟨hsome, ?_⟩
  rw [install, ← h]
  exact congrArg (loadRecords slot) (List.map_congr_left fun spec hspec ↦
    (spec.recordOfWord_line dlopen dlsym (hsome spec hspec)).symm)

/-- And the other way round. -/
theorem render_of_install {slot : PluginSlot PluginInfo} {specs : List PluginSpec}
    (h : ∀ spec ∈ specs, (recordOfWord dlopen dlsym spec.line).isSome = true) :
    loadRecords slot (recordsOf dlopen dlsym (words (render specs)))
      = install dlopen dlsym slot specs := by
  rw [recordsOf_render, install]
  exact congrArg (loadRecords slot) (List.map_congr_left fun spec hspec ↦
    spec.recordOfWord_line dlopen dlsym (h spec hspec))

/-- A text whose words all make records lists plugins, and their records are those. -/
theorem exists_specsOf {text : Bytes}
    (h : ∀ r ∈ recordsOf dlopen dlsym (words text), r.isSome = true) :
    ∃ specs, specsOf text = some specs ∧
      recordsOf dlopen dlsym (words text) = specs.map (PluginSpec.resolve dlopen dlsym) := by
  rw [recordsOf_words] at h ⊢
  have hrecord : ∀ line ∈ recordLines text, ∃ spec, specOf line = some spec ∧
      recordOfWord dlopen dlsym line = spec.resolve dlopen dlsym := by
    intro line hline
    obtain ⟨hword, hcomment⟩ := List.mem_filter.mp hline
    have hsome := h _ (List.mem_map_of_mem hline)
    have hbind := (recordOf_partsOf dlopen dlsym hsome).trans (recordOf_partsOf_eq_bind dlopen dlsym
      (notSeparator_of_mem_wordsBy hword) (by simpa using hcomment))
    rw [hbind] at hsome
    cases hspec : specOf line with
    | none => exact absurd hsome (by simp [hspec])
    | some spec => exact ⟨spec, rfl, by rw [hbind, hspec, Option.bind_some]⟩
  obtain ⟨specs, hspecs⟩ := exists_forall₂ hrecord
  refine ⟨specs, ?_, map_eq_map_iff_forall₂.mpr (hspecs.imp fun _ _ h ↦ h.2)⟩
  rw [specsOf, mapM_eq_some_iff]
  exact map_eq_map_iff_forall₂.mpr (hspecs.imp fun _ _ h ↦ h.1)

/-- In a text that does not, a word makes no record. -/
theorem none_mem_recordsOf {text : Bytes} (hfits : ∀ line ∈ recordLines text, FitsInt line)
    (h : specsOf text = none) :
    none ∈ recordsOf dlopen dlsym (words text) := by
  rw [recordsOf_words]
  by_contra hnone
  have hsome : ∀ line ∈ recordLines text, ∃ spec, specOf line = some spec := by
    intro line hline
    rw [← Option.isSome_iff_exists, Option.isSome_iff_ne_none]
    intro hspec
    refine hnone (List.mem_map.mpr ⟨line, hline, ?_⟩)
    rw [recordOfWord_of_mem dlopen dlsym hline (hfits line hline), hspec, Option.bind_none]
  obtain ⟨specs, hspecs⟩ := exists_forall₂ hsome
  have hread : specsOf text = some specs := by
    rw [specsOf, mapM_eq_some_iff]
    exact map_eq_map_iff_forall₂.mpr hspecs
  exact absurd (h ▸ hread) (by simp)

end

/-- **The format.**  A list of plugins that is written is read back; what is read off a text whose
words fit is what a load of it does, in any table and with any libraries, and with some libraries it
succeeds; and where nothing can be read, no load succeeds. -/
theorem format_roundTrip :
    (∀ specs, specsOf (render specs) = some specs) ∧
      ∀ (text conf : Bytes), conf ≠ [] → (∀ line ∈ recordLines text, FitsInt line) →
        (∀ specs, specsOf text = some specs →
          (∀ dlopen dlsym slot, outcome (load (.const dlopen dlsym) conf (some (.ofText text)) slot)
            = some (install dlopen dlsym slot specs)) ∧
          ∃ dlopen dlsym, ∀ slot, (install dlopen dlsym slot specs).1 = true) ∧
        (specsOf text = none → ∀ dlopen dlsym slot, ∃ slot',
          outcome (load (.const dlopen dlsym) conf (some (.ofText text)) slot)
            = some (false, slot')) := by
  refine ⟨specsOf_render, fun text conf hconf hfits ↦ ⟨fun specs h ↦ ⟨?_, ?_⟩, ?_⟩⟩
  · intro dlopen dlsym slot
    rw [outcome_load dlopen dlsym hconf, recordsOf_of_specsOf dlopen dlsym hfits h, install]
  · refine ⟨fun _ ↦ some 1, fun _ _ ↦ some 2, fun slot ↦ (loadRecords_fst slot _).mpr ?_⟩
    intro r hr
    obtain ⟨spec, -, rfl⟩ := List.mem_map.mp hr
    rfl
  · intro h dlopen dlsym slot
    refine ⟨(loadRecords slot (recordsOf dlopen dlsym (words text))).2, ?_⟩
    rw [outcome_load dlopen dlsym hconf]
    refine congrArg some (Prod.ext ?_ rfl)
    rw [← Bool.not_eq_true, loadRecords_fst]
    intro hall
    exact absurd (hall none (none_mem_recordsOf dlopen dlsym hfits h)) (by simp)

/-- Two plugins, and a comment. -/
def commentedPlugins : Bytes := lit "face|a.so|init|run|c|m|true\n#none\n\tpoem|b.so|init|run||\n"

theorem fits_commentedPlugins : ∀ line ∈ recordLines commentedPlugins, FitsInt line := by
  have hshort : (recordLines commentedPlugins).all (fun line ↦ line.length < 100) = true := by
    decide +kernel
  intro line hline
  have := of_decide_eq_true (List.all_eq_true.mp hshort line hline)
  rw [FitsInt]
  omega

theorem format_roundTrip_commented : ∃ specs, specsOf commentedPlugins = some specs ∧
    specs.map PluginSpec.name = [lit "face", lit "poem"] ∧
    outcome (load (.const (fun _ ↦ some 1) fun _ _ ↦ some 2) (lit "conf")
      (some (.ofText commentedPlugins)) .empty)
        = some (install (fun _ ↦ some 1) (fun _ _ ↦ some 2) .empty specs) := by
  have hnames : (specsOf commentedPlugins).map (List.map PluginSpec.name)
      = some [lit "face", lit "poem"] := by decide +kernel
  obtain ⟨specs, hspecs, hnames⟩ := Option.map_eq_some_iff.mp hnames
  exact ⟨specs, hspecs, hnames,
    ((format_roundTrip.2 commentedPlugins (lit "conf") (by decide) fits_commentedPlugins).1
      specs hspecs).1 _ _ _⟩

/-! ## Files after one another -/

section

variable {dlopen : Bytes → Option Handle} {dlsym : Handle → Bytes → Option Sym}

theorem loadRecords_append (slot : PluginSlot PluginInfo) (rs rs' : List (Option PluginInfo)) :
    loadRecords slot (rs ++ rs')
      = if (loadRecords slot rs).1 then loadRecords (loadRecords slot rs).2 rs'
        else loadRecords slot rs := by
  induction rs generalizing slot with
  | nil => rfl
  | cons r rs ih =>
    cases r with
    | none => rfl
    | some pit => exact ih _

/-- Two tables are equal if they have the same records. -/
theorem PluginSlot.ext_getPluginInfo {slot slot' : PluginSlot PluginInfo}
    (h : ∀ name, slot.getPluginInfo name = slot'.getPluginInfo name) : slot = slot' := by
  cases slot
  cases slot'
  exact congrArg PluginSlot.mk (Std.ExtTreeMap.ext_getElem? h)

/-- A load takes nothing out of the table. -/
theorem loadRecords_keeps {slot : PluginSlot PluginInfo} {name : Bytes} {p : PluginInfo}
    (h : slot.getPluginInfo name = some p) (rs : List (Option PluginInfo)) :
    (loadRecords slot rs).2.getPluginInfo name = some p := by
  induction rs generalizing slot with
  | nil => exact h
  | cons r rs ih =>
    cases r with
    | none => exact h
    | some pit =>
      refine ih ?_
      by_cases hname : pit.name = []
      · rw [hname]
        exact h
      · rw [PluginSlot.getPluginInfo_insertPlugin hname, h, Option.some_or]

/-- Records whose names are taken change nothing. -/
theorem loadRecords_of_taken {slot : PluginSlot PluginInfo} {rs : List (Option PluginInfo)}
    (h : ∀ r ∈ rs, ∃ pit, r = some pit ∧ (slot.getPluginInfo pit.name).isSome = true) :
    loadRecords slot rs = (true, slot) := by
  induction rs with
  | nil => rfl
  | cons r rs ih =>
    rw [List.forall_mem_cons] at h
    obtain ⟨⟨pit, rfl, htaken⟩, hrest⟩ := h
    obtain ⟨p, hp⟩ := Option.isSome_iff_exists.mp htaken
    rw [loadRecords, PluginSlot.insertPlugin_of_mem hp]
    exact ih hrest

/-- After a load that succeeds, the names of its records are taken. -/
theorem taken_of_loadRecords {slot slot₁ : PluginSlot PluginInfo} {rs : List (Option PluginInfo)}
    (hnames : ∀ pit, some pit ∈ rs → pit.name ≠ []) (h : loadRecords slot rs = (true, slot₁)) :
    ∀ r ∈ rs, ∃ pit, r = some pit ∧ (slot₁.getPluginInfo pit.name).isSome = true := by
  induction rs generalizing slot with
  | nil => exact fun _ hmem ↦ absurd hmem List.not_mem_nil
  | cons r rs ih =>
    cases r with
    | none => exact absurd (congrArg Prod.fst h) Bool.false_ne_true
    | some pit =>
      rw [loadRecords] at h
      have hpit : pit.name ≠ [] := hnames pit List.mem_cons_self
      rw [List.forall_mem_cons]
      refine ⟨⟨pit, rfl, ?_⟩, ih (fun p hp ↦ hnames p (List.mem_cons_of_mem _ hp)) h⟩
      obtain ⟨p, hp⟩ := Option.isSome_iff_exists.mp
        (PluginSlot.getPluginInfo_insertPlugin_self hpit slot pit)
      have hkept := loadRecords_keeps hp rs
      rw [h] at hkept
      rw [hkept]
      rfl

/-- The record of a plugin has its name. -/
theorem name_of_resolve {spec : PluginSpec} {pit : PluginInfo}
    (h : spec.resolve dlopen dlsym = some pit) : pit.name = spec.name := by
  obtain ⟨handle, -, h⟩ := Option.bind_eq_some_iff.mp h
  obtain ⟨initHandler, -, h⟩ := Option.bind_eq_some_iff.mp h
  obtain ⟨processHandler, -, rfl⟩ := Option.map_eq_some_iff.mp h
  rfl

theorem name_ne_nil_of_mem {text : Bytes} {pit : PluginInfo}
    (h : some pit ∈ recordsOf dlopen dlsym (words text)) : pit.name ≠ [] := by
  obtain ⟨line, -, hline⟩ := List.mem_map.mp h
  exact name_ne_nil dlopen dlsym hline

/-- Among plugins of different names, the order does not matter for what is found. -/
theorem find?_perm {pits pits' : List PluginInfo} (h : pits.Perm pits')
    (hnodup : (pits.map PluginInfo.name).Nodup) (name : Bytes) :
    (pits.find? fun pit ↦ pit.name == name) = pits'.find? fun pit ↦ pit.name == name := by
  induction h with
  | nil => rfl
  | cons pit _ ih =>
    rw [List.find?_cons, List.find?_cons, ih (List.nodup_cons.mp hnodup).2]
  | swap pit pit' pits =>
    rw [List.map_cons, List.map_cons, List.nodup_cons, List.mem_cons, not_or] at hnodup
    simp only [List.find?_cons]
    cases hpit : pit.name == name with
    | false => rfl
    | true =>
      have hne : (pit'.name == name) = false := by
        rw [beq_eq_false_iff_ne, ← beq_iff_eq.mp hpit]
        exact hnodup.1.1
      rw [hne]
  | trans h _ ih ih' => exact (ih hnodup).trans (ih' ((h.map _).nodup_iff.mp hnodup))

/-- The records of a list of plugins that is put in. -/
theorem exists_resolved {specs : List PluginSpec} {slot : PluginSlot PluginInfo}
    (h : (install dlopen dlsym slot specs).1 = true) :
    ∃ pits : List PluginInfo, specs.map (PluginSpec.resolve dlopen dlsym) = pits.map some ∧
      specs.map PluginSpec.name = pits.map PluginInfo.name := by
  have hall := (loadRecords_fst slot _).mp h
  obtain ⟨pits, hpits⟩ := exists_forall₂ fun spec hspec ↦
    Option.isSome_iff_exists.mp (hall _ (List.mem_map_of_mem hspec))
  exact ⟨pits, map_eq_map_iff_forall₂.mpr hpits,
    map_eq_map_iff_forall₂.mpr (hpits.imp fun _ _ h ↦ (name_of_resolve h).symm)⟩

/-- Records with the names of plugins have names. -/
theorem filled_of_names {specs : List PluginSpec} {pits : List PluginInfo}
    (h : specs.map PluginSpec.name = pits.map PluginInfo.name) :
    ∀ pit ∈ pits, pit.name ≠ [] := by
  intro pit hpit
  have hmem : pit.name ∈ specs.map PluginSpec.name := h ▸ List.mem_map_of_mem hpit
  obtain ⟨spec, -, hspec⟩ := List.mem_map.mp hmem
  exact hspec ▸ spec.filled _ List.mem_cons_self

/-- **Plugins of different names may be listed in any order.** -/
theorem install_perm {specs specs' : List PluginSpec} (h : specs.Perm specs')
    (hnodup : (specs.map PluginSpec.name).Nodup) {slot slot₁ : PluginSlot PluginInfo}
    (hinstall : install dlopen dlsym slot specs = (true, slot₁)) :
    install dlopen dlsym slot specs' = (true, slot₁) := by
  have hall := (loadRecords_fst slot _).mp (congrArg Prod.fst hinstall)
  have hall' : (install dlopen dlsym slot specs').1 = true :=
    (loadRecords_fst slot _).mpr fun r hr ↦ hall r ((h.map _).mem_iff.mpr hr)
  refine Prod.ext hall' ?_
  -- the records, in one order and in the other
  obtain ⟨pits, hpits, hname⟩ := exists_resolved (congrArg Prod.fst hinstall)
  obtain ⟨pits', hpits', hname'⟩ := exists_resolved hall'
  have hperm : pits.Perm pits' := by
    have := h.map (PluginSpec.resolve dlopen dlsym)
    rwa [hpits, hpits', List.map_perm_map_iff fun _ _ h ↦ Option.some.inj h] at this
  rw [install, hpits] at hinstall
  rw [install, hpits', ← congrArg Prod.snd hinstall]
  refine PluginSlot.ext_getPluginInfo fun name ↦ ?_
  rw [getPluginInfo_loadRecords slot (filled_of_names hname),
    getPluginInfo_loadRecords slot (filled_of_names hname'), find?_perm hperm (hname ▸ hnodup)]

/-- **Files one after the other.**  A file is loaded by loading its parts; a file that has been
loaded changes nothing when it is loaded again, whatever was loaded since; and plugins of different
names may be listed in any order. -/
theorem load_joined {conf : Bytes} (hconf : conf ≠ []) :
    (∀ text text' slot,
      outcome (load (.const dlopen dlsym) conf (some (.ofText (text ++ 10 :: text'))) slot)
        = (outcome (load (.const dlopen dlsym) conf (some (.ofText text)) slot)).bind fun r ↦
          if r.1 then outcome (load (.const dlopen dlsym) conf (some (.ofText text')) r.2)
          else some r) ∧
      (∀ text text' ok slot slot₁ slot₂,
        outcome (load (.const dlopen dlsym) conf (some (.ofText text)) slot) = some (true, slot₁) →
        outcome (load (.const dlopen dlsym) conf (some (.ofText text')) slot₁) = some (ok, slot₂) →
        outcome (load (.const dlopen dlsym) conf (some (.ofText text)) slot₂)
          = some (true, slot₂)) ∧
      ∀ specs specs' slot slot₁, specs.Perm specs' → (specs.map PluginSpec.name).Nodup →
        outcome (load (.const dlopen dlsym) conf (some (.ofText (render specs))) slot)
          = some (true, slot₁) →
        outcome (load (.const dlopen dlsym) conf (some (.ofText (render specs'))) slot)
          = some (true, slot₁) := by
  simp only [outcome_load dlopen dlsym hconf, Option.bind_some, Option.some.injEq]
  refine ⟨fun text text' slot ↦ ?_, fun text text' ok slot slot₁ slot₂ h h' ↦ ?_,
    fun specs specs' slot slot₁ hperm hnodup h ↦ ?_⟩
  · rw [words, wordsBy_append_cons text text' (by decide), recordsOf_append, loadRecords_append]
    split <;> rfl
  · refine loadRecords_of_taken fun r hr ↦ ?_
    obtain ⟨pit, rfl, htaken⟩ := taken_of_loadRecords (fun _ ↦ name_ne_nil_of_mem) h r hr
    obtain ⟨p, hp⟩ := Option.isSome_iff_exists.mp htaken
    have hkept := loadRecords_keeps hp (recordsOf dlopen dlsym (words text'))
    rw [h'] at hkept
    exact ⟨pit, rfl, by rw [hkept]; rfl⟩
  · obtain ⟨hsome, hinstall⟩ := install_of_render dlopen dlsym h
    rw [render_of_install dlopen dlsym fun spec hspec ↦ hsome spec (hperm.mem_iff.mpr hspec)]
    exact install_perm hperm hnodup hinstall

end

/-- The two plugins, and their file again. -/
theorem load_joined_commented :
    outcome (load (.const (fun _ ↦ some 1) fun _ _ ↦ some 2) (lit "conf")
        (some (.ofText (commentedPlugins ++ 10 :: commentedPlugins))) .empty)
      = (outcome (load (.const (fun _ ↦ some 1) fun _ _ ↦ some 2) (lit "conf")
        (some (.ofText commentedPlugins)) .empty)).bind fun r ↦
          if r.1 then outcome (load (.const (fun _ ↦ some 1) fun _ _ ↦ some 2) (lit "conf")
            (some (.ofText commentedPlugins)) r.2)
          else some r :=
  (load_joined (by decide)).1 _ _ _

end ImgPredictor
