import ImgPredictor.PluginSlot.Table
import ImgPredictor.PluginSlot.Split

/-!
# `PluginSlot::load`

The configuration file is read with `file >> line` under a loop on `file.eof()`.  An extraction
that finds nothing but white space before the end of the file sets `eof` and leaves `line` as it
was, so when the file ends in white space its last word is processed a second time.

* `IStream.extract` is the extraction, with the stream's state bits; a stream whose reads fail
  without reaching the end of the file (a directory that was opened) is `broken`.
* `loadLine` is the body of the loop for a word that is neither empty nor a comment.
* `loadLoop` is the loop, run with a bound on its iterations, and `load` the whole function.
  Every `Option` here is `none` where the code does not return.
* `recordOutcome` is what becomes of a record, and `loadTurn_of_record` what that does to the load.

What `dlopen` and `dlsym` return is given by a `DynLib`, as a function of how many libraries the
load has opened so far; `DynLib.const` is the case where they depend on their arguments alone.
-/

set_option autoImplicit false

namespace ImgPredictor

open Bytes

/-- The outcomes of `dlopen` and `dlsym`, `none` for NULL. -/
structure DynLib where
  /-- `dlopen(path, RTLD_LAZY)` -/
  dlopen : ℕ → Bytes → Option Handle
  /-- `dlsym(handle, name)`, the look-up of the init handler and that of the process handler. -/
  dlsym : ℕ → Bool → Handle → Bytes → Option Sym

/-- Libraries whose look-ups are functions of their arguments. -/
def DynLib.const (dlopen : Bytes → Option Handle) (dlsym : Handle → Bytes → Option Sym) : DynLib :=
  ⟨fun _ ↦ dlopen, fun _ _ ↦ dlsym⟩

/-- What a load works on: the table, and the handles opened and closed so far. -/
structure LoadState where
  /-- The slot being filled. -/
  slot : PluginSlot PluginInfo
  /-- The handles `dlopen` returned, in order. -/
  opened : List Handle
  /-- The handles the destructor of a deleted record closed, in order. -/
  closed : List Handle

/-- Is the necessary field `i` empty?  The fifth and sixth may be. -/
def missingField (vecInfo : List Bytes) : Bool :=
  vecInfo.zipIdx.any fun f ↦ f.1.isEmpty && f.2 != 4 && f.2 != 5

/-- The body of the loop after the split: `true` to go on, `false` for `return false`. -/
def loadRecord (dl : DynLib) (vecInfo : List Bytes) (st : LoadState) : Bool × LoadState :=
  if vecInfo.length < 6 then (false, st)
  else if missingField vecInfo then (false, st)
  else
    let k := st.opened.length
    let field (i : ℕ) : Bytes := vecInfo.getD i []
    match dl.dlopen k (cstr (field 1) 0) with
    | none => (false, st)
    | some handle =>
      let st := { st with opened := st.opened ++ [handle] }
      let deleted := { st with closed := st.closed ++ [handle] }
      match dl.dlsym k false handle (cstr (field 2) 0) with
      | none => (false, deleted)
      | some initHandler =>
        match dl.dlsym k true handle (cstr (field 3) 0) with
        | none => (false, deleted)
        | some processHandler =>
          let pit : PluginInfo :=
            { name := field 0, dlhandler := handle, initHandler, processHandler,
              conf := field 4, modelDir := field 5,
              hasExtIn := decide (6 < vecInfo.length) && field 6 == lit "true" }
          (true, { st with slot := (st.slot.insertPlugin pit.name (some pit)).2 })

/-- The body of the loop for a word that is neither empty nor a comment. -/
def loadLine (dl : DynLib) (line : Bytes) (st : LoadState) : Option (Bool × LoadState) :=
  (split line (lit "|")).map fun vecInfo ↦ loadRecord dl vecInfo st

/-- An input stream: what is left to read and the state bits. -/
structure IStream where
  /-- The bytes left. -/
  rest : Bytes
  /-- `eofbit` -/
  eof : Bool := false
  /-- `failbit` or `badbit` -/
  fail : Bool := false
  /-- Whether reading past `rest` is an error rather than the end of the file. -/
  broken : Bool := false

/-- The state of a stream that has nothing left. -/
def IStream.exhausted (file : IStream) (fail : Bool) : IStream :=
  { file with rest := [], eof := !file.broken, fail := fail || file.broken }

/-- `file >> line` -/
def IStream.extract (file : IStream) (line : Bytes) : IStream × Bytes :=
  if file.eof || file.fail then ({ file with fail := true }, line)
  else
    let r := file.rest.dropWhile isSpace
    if r.isEmpty then (file.exhausted true, line)
    else
      let after := r.dropWhile fun b ↦ !isSpace b
      (if after.isEmpty then file.exhausted false else { file with rest := after },
        r.takeWhile fun b ↦ !isSpace b)

/-- `line.empty() || line.c_str()[0] == '#'` -/
def skipped (line : Bytes) : Bool := line.isEmpty || line.headD 0 == 35

/-- A turn of the loop once the word is extracted; `next` goes on with the loop. -/
def loadTurn (dl : DynLib) (line : Bytes) (st : LoadState)
    (next : LoadState → Option (Bool × LoadState)) : Option (Bool × LoadState) :=
  if skipped line then next st
  else match loadLine dl line st with
    | none => none
    | some (false, st) => some (false, st)
    | some (true, st) => next st

/-- `while (!file.eof())` -/
def loadLoop (dl : DynLib) : ℕ → IStream → Bytes → LoadState → Option (Bool × LoadState)
  | 0, _, _, _ => none
  | fuel + 1, file, line, st =>
    if file.eof then some (true, st)
    else
      let (file, line) := file.extract line
      loadTurn dl line st (loadLoop dl fuel file line)

/-- `PluginSlot::load`; `file` is the stream `file.open` gave, `none` when it failed. -/
def load (dl : DynLib) (conf : Bytes) (file : Option IStream) (slot : PluginSlot PluginInfo) :
    Option (Bool × LoadState) :=
  if conf.isEmpty then some (false, ⟨slot, [], []⟩)
  else match file with
    | none => some (false, ⟨slot, [], []⟩)
    | some file => loadLoop dl (file.rest.length + 2) file [] ⟨slot, [], []⟩

/-- Without a file name there is no load. -/
theorem load_nil (dl : DynLib) (file : Option IStream) (slot : PluginSlot PluginInfo) :
    load dl [] file slot = some (false, ⟨slot, [], []⟩) := rfl

/-! ## What becomes of a record -/

/-- How the loading of a record turns out. -/
inductive RecordOutcome where
  /-- No library is opened for it. -/
  | rejected
  /-- A symbol is missing from its library, which is closed again. -/
  | released (handle : Handle)
  /-- It is loaded. -/
  | loaded (pit : PluginInfo)

/-- What becomes of the record of these fields, when `k` libraries have been opened before. -/
def recordOutcome (dl : DynLib) (k : ℕ) (vecInfo : List Bytes) : RecordOutcome :=
  if vecInfo.length < 6 ∨ missingField vecInfo = true then .rejected
  else match dl.dlopen k (cstr (vecInfo.getD 1 []) 0) with
    | none => .rejected
    | some handle => match dl.dlsym k false handle (cstr (vecInfo.getD 2 []) 0) with
      | none => .released handle
      | some initHandler => match dl.dlsym k true handle (cstr (vecInfo.getD 3 []) 0) with
        | none => .released handle
        | some processHandler => .loaded
          { name := vecInfo.getD 0 [], dlhandler := handle, initHandler, processHandler,
            conf := vecInfo.getD 4 [], modelDir := vecInfo.getD 5 [],
            hasExtIn := decide (6 < vecInfo.length) && vecInfo.getD 6 [] == lit "true" }

/-- The state once a record is loaded. -/
def LoadState.withRecord (st : LoadState) (pit : PluginInfo) : LoadState :=
  { st with slot := (st.slot.insertPlugin pit.name (some pit)).2
            opened := st.opened ++ [pit.dlhandler] }

/-- **What a record does to a load**, in each of the three cases. -/
theorem loadRecord_eq (dl : DynLib) (vecInfo : List Bytes) (st : LoadState) :
    loadRecord dl vecInfo st = match recordOutcome dl st.opened.length vecInfo with
      | .rejected => (false, st)
      | .released handle =>
        (false, { st with opened := st.opened ++ [handle], closed := st.closed ++ [handle] })
      | .loaded pit => (true, st.withRecord pit) := by
  rw [loadRecord, recordOutcome]
  by_cases hlen : vecInfo.length < 6
  · rw [if_pos hlen, if_pos (.inl hlen)]
  · by_cases hmissing : missingField vecInfo = true
    · rw [if_neg hlen, if_pos hmissing, if_pos (.inr hmissing)]
    · rw [if_neg hlen, if_neg hmissing, if_neg (not_or.mpr ⟨hlen, hmissing⟩)]
      dsimp only
      rcases dl.dlopen st.opened.length (cstr (vecInfo.getD 1 []) 0) with _ | handle
      · rfl
      · dsimp only
        rcases dl.dlsym st.opened.length false handle (cstr (vecInfo.getD 2 []) 0) with _ | i
        · rfl
        · dsimp only
          rcases dl.dlsym st.opened.length true handle (cstr (vecInfo.getD 3 []) 0) with _ | p
          · rfl
          · rfl

/-- A turn on a record: the separator has one byte, so the splitting returns. -/
theorem loadTurn_of_record (dl : DynLib) {line : Bytes} (hskip : skipped line = false)
    (st : LoadState) (next : LoadState → Option (Bool × LoadState)) :
    loadTurn dl line st next = match recordOutcome dl st.opened.length (fieldsOf line) with
      | .rejected => some (false, st)
      | .released handle =>
        some (false, { st with opened := st.opened ++ [handle], closed := st.closed ++ [handle] })
      | .loaded pit => next (st.withRecord pit) := by
  rw [loadTurn, if_neg (by simp [hskip]), loadLine, split_bar, Option.map_some, loadRecord_eq]
  rcases recordOutcome dl st.opened.length (fieldsOf line) with _ | _ | _ <;> rfl

/-- A word that is skipped takes a turn and does nothing. -/
theorem loadTurn_of_skipped (dl : DynLib) {line : Bytes} (hskip : skipped line = true)
    (st : LoadState) (next : LoadState → Option (Bool × LoadState)) :
    loadTurn dl line st next = next st := if_pos hskip

end ImgPredictor
