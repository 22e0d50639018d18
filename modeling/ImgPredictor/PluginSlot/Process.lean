import ImgPredictor.PluginSlot.Table
import ImgPredictor.PluginSlot.UrlDecode

/-!
# `run_process_by_name`

Looks the plugin up and calls its process handler, decoding the extension parameter first when the
record asks for one.  A handler is a function of what it is given: the image list, the result
string it is handed by reference, and the C string of its variadic argument when there is one.
-/

set_option autoImplicit false

namespace ImgPredictor

open Bytes

/-- The list of `(image_local_path, image_url)` pairs. -/
abbrev ImageList := List (Bytes × Bytes)

/-- What the process handler at an address does: its return code, and what it leaves in
`res_json`. -/
abbrev ProcessHandlers := Sym → ImageList → Bytes → Option Bytes → ℤ × Bytes

/-- What a call of `run_process_by_name` did. -/
structure ProcessResult where
  /-- The return code. -/
  rc : ℤ
  /-- `res_json` afterwards. -/
  resJson : Bytes
  /-- The handler called and its variadic argument, if it came to that. -/
  invoked : Option (Sym × Option Bytes)

namespace PluginSlot

/-- The call of a record's handler that `run_process_by_name` ends in. -/
def callHandler (handlers : ProcessHandlers) (pit : PluginInfo) (imgNameVec : ImageList)
    (resJson : Bytes) (ext : Option Bytes) : ProcessResult :=
  let r := handlers pit.processHandler imgNameVec resJson ext
  ⟨r.1, r.2, some (pit.processHandler, ext)⟩

/-- `run_process_by_name`, with this for its `url_decode`. -/
def runProcessDecoding (slot : PluginSlot PluginInfo) (decode : Bytes → Bytes)
    (handlers : ProcessHandlers) (pluginName : Bytes) (imgNameVec : ImageList)
    (extPara resJson : Bytes) : ProcessResult :=
  match slot.getPluginInfo pluginName with
  | none => ⟨1, resJson, none⟩
  | some pit =>
    if pit.hasExtIn then
      if extPara.isEmpty then ⟨1, resJson, none⟩
      else
        let deExtPara := decode extPara
        if deExtPara.isEmpty then ⟨1, resJson, none⟩
        -- the handler sees `de_ext_para.c_str()`
        else callHandler handlers pit imgNameVec resJson (some (cstr deExtPara 0))
    else callHandler handlers pit imgNameVec resJson none

/-- `run_process_by_name` -/
def runProcessByName (slot : PluginSlot PluginInfo) (handlers : ProcessHandlers) (ii₀ : ℤ)
    (pluginName : Bytes) (imgNameVec : ImageList) (extPara resJson : Bytes) : ProcessResult :=
  slot.runProcessDecoding (urlDecodeAny ii₀) handlers pluginName imgNameVec extPara resJson

/-- **A handler is called unless nothing comes out** of the decoder. -/
theorem runProcessDecoding_of_ext {slot : PluginSlot PluginInfo} {name : Bytes} {pit : PluginInfo}
    (hpit : slot.getPluginInfo name = some pit) (hflag : pit.hasExtIn = true)
    (decode : Bytes → Bytes) (handlers : ProcessHandlers) (images : ImageList) {extPara : Bytes}
    (hext : extPara ≠ []) (resJson : Bytes) :
    slot.runProcessDecoding decode handlers name images extPara resJson
      = if (decode extPara).isEmpty then ⟨1, resJson, none⟩
        else callHandler handlers pit images resJson (some (cstr (decode extPara) 0)) := by
  have hempty : extPara.isEmpty = false := by simpa using hext
  rw [runProcessDecoding, hpit]
  simp only [hflag, if_true, hempty, Bool.false_eq_true, if_false]

/-- A plugin that does not ask for the parameter is called without it. -/
theorem runProcessDecoding_of_plain {slot : PluginSlot PluginInfo} {name : Bytes} {pit : PluginInfo}
    (hpit : slot.getPluginInfo name = some pit) (hflag : pit.hasExtIn = false)
    (decode : Bytes → Bytes) (handlers : ProcessHandlers) (images : ImageList)
    (extPara resJson : Bytes) :
    slot.runProcessDecoding decode handlers name images extPara resJson
      = callHandler handlers pit images resJson none := by
  rw [runProcessDecoding, hpit]
  simp only [hflag, Bool.false_eq_true, if_false]

/-- Without a plugin of that name nothing is called. -/
theorem runProcessDecoding_of_none {slot : PluginSlot PluginInfo} {name : Bytes}
    (hnone : slot.getPluginInfo name = none) (decode : Bytes → Bytes) (handlers : ProcessHandlers)
    (images : ImageList) (extPara resJson : Bytes) :
    slot.runProcessDecoding decode handlers name images extPara resJson = ⟨1, resJson, none⟩ := by
  rw [runProcessDecoding, hnone]

end PluginSlot

/-- A plugin that asks for the parameter. -/
def poem : PluginInfo := ⟨lit "poem", 1, 2, 3, [], [], true⟩

/-- The table whose only plugin it is. -/
def poemSlot : PluginSlot PluginInfo := (PluginSlot.empty.insertPlugin poem.name (some poem)).2

theorem poemSlot_getPluginInfo : poemSlot.getPluginInfo (lit "poem") = some poem := by
  rw [poemSlot, PluginSlot.getPluginInfo_insertPlugin (by decide), PluginSlot.getPluginInfo_empty]
  rfl

end ImgPredictor
