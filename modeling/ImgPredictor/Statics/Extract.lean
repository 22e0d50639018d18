import ImgPredictor.Lib.Chain
import ImgPredictor.Statics.Log

/-!
# Reading a line back

The server ends the message it logs with the answer, and nginx puts the context of the request after
it: a line is a row of texts with delimiters between them.  The pattern of `log_statics` is a chain
of greedy wildcards, so it looks for the delimiters from the right (`captures_chain_iff`).  The
request, the host and the referrer are what the client sent.  If they have a delimiter in them, it
is taken for the one the server wrote.

`extracted_iff` says for which lines that makes no difference.
-/

set_option autoImplicit false

namespace ImgPredictor

open Bytes Regex

/-! ## The line -/

/-- Before the answer; the server writes this one. -/
def resJsonDelim : Bytes := lit ", res_json:"

/-- Before the address of the client; this one and the others are nginx's. -/
def clientDelim : Bytes := lit ", client:"

/-- Before the name of the server. -/
def serverDelim : Bytes := lit ", server:"

/-- Before the request line. -/
def requestDelim : Bytes := lit ", request:"

/-- Before the host. -/
def hostDelim : Bytes := lit ", host:"

/-- The delimiters of the pattern. -/
def delimiters : List Bytes := [resJsonDelim, clientDelim, serverDelim, requestDelim, hostDelim]

/-- A blank, and the text in quotation marks. -/
def quote (text : Bytes) : Bytes := [32, 34] ++ text ++ [34]

/-- What goes into a line of the log. -/
structure LogLine where
  /-- The first word of the date. -/
  day : Bytes
  /-- The second word. -/
  time : Bytes
  /-- What else there is before the answer, such as `[error]`. -/
  context : Bytes
  /-- `res_json` -/
  resJson : Bytes
  /-- The address of the client. -/
  client : Bytes
  /-- The name of the server. -/
  server : Bytes
  /-- The request line. -/
  request : Bytes
  /-- The host. -/
  host : Bytes
  /-- The referrer, if the client sent one. -/
  referrer : Option Bytes
  /-- The date is made of words. -/
  words : ∀ word ∈ [day, time], word ≠ [] ∧ ∀ b ∈ word, isSpace b = false
  /-- The texts have no newlines. -/
  oneLine : ∀ text ∈ [context, resJson, client, server, request, host] ++ referrer.toList,
    10 ∉ text
  /-- The texts that are not the client's have no delimiters. -/
  own : ∀ text ∈ [resJson, client, server], ∀ d ∈ delimiters, ¬ d <:+: text

namespace LogLine

/-- The date. -/
def date (l : LogLine) : Bytes := l.day ++ [32] ++ l.time

/-- The date, and what else there is before the answer. -/
def start (l : LogLine) : Bytes := l.date ++ [32] ++ l.context

/-- The host, and the referrer. -/
def tail (l : LogLine) : Bytes :=
  match l.referrer with
  | none => quote l.host
  | some referrer => quote l.host ++ lit ", referrer:" ++ quote referrer

/-- The line. -/
def text (l : LogLine) : Bytes :=
  l.start ++ resJsonDelim ++ l.resJson ++ clientDelim ++ ([32] ++ l.client) ++
    serverDelim ++ ([32] ++ l.server) ++ requestDelim ++ quote l.request ++ hostDelim ++ l.tail

end LogLine

/-- The script takes from the line the date, the answer and the request that went into it. -/
def Extracted (l : LogLine) (line : Bytes) : Prop :=
  ∃ h, linePat.first line = some h ∧ dateOf (group h 1) = l.date ∧ group h 2 = l.resJson ∧
    group h 5 = quote l.request

/-- The text has no address and name of a server in it, or the last ones come right after the same
answer. -/
def KeepsAnswer (l : LogLine) (text : Bytes) : Prop :=
  (∀ u v z, text = u ++ clientDelim ++ v ++ serverDelim ++ z → v = [] ∨ z = []) ∨
    ∃ u v z, text = u ++ resJsonDelim ++ l.resJson ++ clientDelim ++ v ++ serverDelim ++ z ∧
      v ≠ [] ∧ z ≠ [] ∧ LastIn clientDelim v ∧ LastIn serverDelim z

/-- There is an answer, and the client sent no delimiters that would be taken for those of the
request and the host; or else it sent, before the last of them, what the server wrote. -/
structure Recoverable (l : LogLine) : Prop where
  /-- The answer is not empty. -/
  answer : l.resJson ≠ []
  /-- There is no `, request:` in the request line. -/
  request : ¬ requestDelim <:+: l.request
  /-- There is no `, host:` in the host and the referrer, or the same request stands before the last
  one. -/
  tail : (¬ hostDelim <:+: l.host ∧ ∀ text ∈ l.referrer, ¬ hostDelim <:+: text) ∨
    ∃ x y, l.tail = x ++ requestDelim ++ quote l.request ++ hostDelim ++ y ∧ ¬ hostDelim <:+: y ∧
      KeepsAnswer l (quote l.request ++ hostDelim ++ x)

/-! ## The delimiters -/

theorem requestDelim_mem : requestDelim ∈ delimiters := by decide

theorem hostDelim_mem : hostDelim ∈ delimiters := by decide

theorem begins_of_mem {d : Bytes} (hd : d ∈ delimiters) : Begins 44 d := by
  have hform : ∀ d ∈ delimiters, d = 44 :: d.tail ∧ 44 ∉ d.tail := by decide
  obtain ⟨h₁, h₂⟩ := hform d hd
  exact ⟨d.tail, h₁, h₂⟩

/-- No delimiter begins with another one. -/
theorem append_ne {d d' : Bytes} (hd : d ∈ lit ", referrer:" :: delimiters)
    (hd' : d' ∈ lit ", referrer:" :: delimiters) (hne : d ≠ d') (y y' : Bytes) :
    d ++ y ≠ d' ++ y' := by
  have hstarts : ∀ d ∈ lit ", referrer:" :: delimiters, ∀ d' ∈ lit ", referrer:" :: delimiters,
      d <+: d' → d = d' := by decide
  intro heq
  rcases List.prefix_or_prefix_of_prefix (heq ▸ List.prefix_append d y)
    (List.prefix_append d' y') with h | h
  · exact hne (hstarts d hd d' hd' h)
  · exact hne (hstarts d' hd' d hd h).symm

/-- The quotation marks have no part in a delimiter. -/
theorem infix_quote_iff {d : Bytes} (hd : d ∈ delimiters) (text : Bytes) :
    d <:+: quote text ↔ d <:+: text := by
  have hform : ∀ d ∈ delimiters, 34 ∉ d ∧ ¬ d <:+: [32] ∧ ¬ d <:+: [] := by decide
  obtain ⟨hquote, hblank, hnil⟩ := hform d hd
  have htext : quote text = [32] ++ 34 :: (text ++ 34 :: []) := by simp [quote]
  rw [htext, infix_append_cons_iff hquote, infix_append_cons_iff hquote]
  simp only [hblank, hnil, false_or, or_false]

theorem lastIn_quote_iff {d : Bytes} (hd : d ∈ delimiters) (text : Bytes) :
    LastIn d (quote text) ↔ ¬ d <:+: text := by
  have hform : ∀ d ∈ delimiters, 34 ∉ d := by decide
  rw [← infix_quote_iff hd, quote]
  exact lastIn_concat_iff (begins_of_mem hd) (hform d hd)

/-- The context ends in a quotation mark. -/
theorem exists_tail_eq (l : LogLine) : ∃ t, l.tail = t ++ [34] := by
  rw [LogLine.tail]
  split
  · exact ⟨_, rfl⟩
  · rename_i referrer _
    exact ⟨quote l.host ++ lit ", referrer:" ++ ([32, 34] ++ referrer), by simp [quote]⟩

theorem tail_ne_nil (l : LogLine) : l.tail ≠ [] := by
  obtain ⟨t, ht⟩ := exists_tail_eq l
  simp [ht]

theorem quote_ne_nil (text : Bytes) : quote text ≠ [] := by
  simp [quote]

/-- A delimiter in the host and the referrer is in one of them. -/
theorem infix_tail_iff (l : LogLine) :
    hostDelim <:+: l.tail ↔ hostDelim <:+: l.host ∨ ∃ text ∈ l.referrer, hostDelim <:+: text := by
  rw [LogLine.tail]
  rcases hr : l.referrer with _ | referrer
  · simp [infix_quote_iff hostDelim_mem]
  · have hbegins : Begins 44 (lit ", referrer:") := ⟨lit " referrer:", rfl, by decide⟩
    show hostDelim <:+: quote l.host ++ lit ", referrer:" ++ quote referrer ↔ _
    rw [infix_append_iff hbegins (begins_of_mem hostDelim_mem)
      (append_ne (by decide) (by decide) (by decide)), infix_quote_iff hostDelim_mem,
      infix_quote_iff hostDelim_mem]
    simp

/-! ## The request -/

section Request

variable {l : LogLine} {F H h₄ h₅ : Bytes}

/-- What ends the tail is not in a delimiter. -/
theorem lastIn_hostDelim {x y : Bytes} (h : l.tail = x ++ y) (hy : y ≠ []) :
    LastIn hostDelim y ↔ ¬ hostDelim <:+: y := by
  obtain ⟨t, ht⟩ := exists_tail_eq l
  obtain ⟨y', rfl⟩ : ∃ y', y = y' ++ [34] := by
    have hlast := congrArg List.getLast? (h.symm.trans ht)
    rw [List.getLast?_append_of_ne_nil _ hy, List.getLast?_concat] at hlast
    exact List.getLast?_eq_some_iff.mp hlast
  exact lastIn_concat_iff (begins_of_mem hostDelim_mem) (by decide)

/-- A request that is found is the last one there is. -/
theorem request_of_eq (hl₄ : LastIn requestDelim h₄) (hl₅ : LastIn hostDelim h₅) (hne : h₅ ≠ [])
    (htext : H ++ requestDelim ++ h₄ ++ hostDelim ++ h₅
      = F ++ requestDelim ++ quote l.request ++ hostDelim ++ l.tail)
    (heq : h₄ = quote l.request) :
    ¬ requestDelim <:+: l.request ∧ ((¬ hostDelim <:+: l.tail ∧ H = F) ∨
      ∃ x y, l.tail = x ++ requestDelim ++ quote l.request ++ hostDelim ++ y ∧
        ¬ hostDelim <:+: y ∧ H = F ++ requestDelim ++ (quote l.request ++ hostDelim ++ x)) := by
  subst heq
  have hreq := (lastIn_quote_iff requestDelim_mem _).mp hl₄
  refine ⟨hreq, ?_⟩
  rcases hl₅.later (begins_of_mem hostDelim_mem) (tail_ne_nil l) htext with ⟨hH, rfl⟩ | ⟨k, hH, hk⟩
  · exact .inl ⟨(lastIn_hostDelim (x := []) rfl hne).mp hl₅,
      List.append_cancel_right (List.append_cancel_right hH)⟩
  · right
    have hH' : H ++ requestDelim ++ quote l.request
        = F ++ requestDelim ++ (quote l.request ++ hostDelim ++ k) := by
      rw [hH]
      simp only [List.append_assoc]
    rcases hl₄.later (begins_of_mem requestDelim_mem) (by simp [quote_ne_nil]) hH' with
      ⟨-, hself⟩ | ⟨k', rfl, hk'⟩
    · have hlen := congrArg List.length hself
      have hpos : 0 < hostDelim.length := by decide
      simp only [List.length_append] at hlen
      omega
    · obtain ⟨m, rfl, rfl⟩ := skip (begins_of_mem hostDelim_mem) (begins_of_mem requestDelim_mem)
        (append_ne (by decide) (by decide) (by decide))
        ((infix_quote_iff requestDelim_mem _).not.mpr hreq) hk'
      exact ⟨m, h₅, hk, (lastIn_hostDelim hk hne).mp hl₅, rfl⟩

/-- A request that stands before the last `, host:` is found. -/
theorem request_of_last (hl₄ : LastIn requestDelim h₄) (hl₅ : LastIn hostDelim h₅) (hne₄ : h₄ ≠ [])
    (hne₅ : h₅ ≠ []) {y : Bytes} (hy : y ≠ [])
    (htext : H ++ requestDelim ++ h₄ ++ hostDelim ++ h₅
      = F ++ requestDelim ++ quote l.request ++ hostDelim ++ y)
    (hreq : ¬ requestDelim <:+: l.request) (hhost : ¬ hostDelim <:+: y) :
    h₄ = quote l.request ∧ H = F := by
  obtain ⟨hH, -⟩ := hl₅.unique_of_absent (begins_of_mem hostDelim_mem) hhost hne₅ hy htext
  obtain ⟨rfl, rfl⟩ := hl₄.unique ((lastIn_quote_iff requestDelim_mem _).mpr hreq)
    (begins_of_mem requestDelim_mem) hne₄ (quote_ne_nil _) hH
  exact ⟨rfl, rfl⟩

/-- If the client repeated the request, that one is found. -/
theorem request_of_repeated (hl₄ : LastIn requestDelim h₄) (hl₅ : LastIn hostDelim h₅)
    (hne₄ : h₄ ≠ []) (hne₅ : h₅ ≠ [])
    (htext : H ++ requestDelim ++ h₄ ++ hostDelim ++ h₅
      = F ++ requestDelim ++ quote l.request ++ hostDelim ++ l.tail)
    (hreq : ¬ requestDelim <:+: l.request) {x y : Bytes}
    (htail : l.tail = x ++ requestDelim ++ quote l.request ++ hostDelim ++ y)
    (hy : ¬ hostDelim <:+: y) :
    h₄ = quote l.request ∧ H = F ++ requestDelim ++ (quote l.request ++ hostDelim ++ x) := by
  have hnonempty : y ≠ [] := by
    rintro rfl
    obtain ⟨t, ht⟩ := exists_tail_eq l
    have hlast := congrArg List.getLast? (htail.symm.trans ht)
    rw [List.append_nil, List.getLast?_concat, List.getLast?_append_of_ne_nil _ (by decide)]
      at hlast
    exact absurd hlast (by decide)
  refine request_of_last hl₄ hl₅ hne₄ hne₅ hnonempty ?_ hreq hy
  rw [htext, htail]
  simp only [List.append_assoc]

end Request

/-! ## The answer -/

section Answer

variable {l : LogLine} {f₀ f₂ f₃ w h₀ h₁ h₂ h₃ : Bytes}

/-- An answer that is found is the one the server wrote, or the same again. -/
theorem keepsAnswer_of_eq (hl₂ : LastIn clientDelim h₂) (hl₃ : LastIn serverDelim h₃)
    (hne₂ : h₂ ≠ []) (hne₃ : h₃ ≠ [])
    (htext : h₀ ++ resJsonDelim ++ h₁ ++ clientDelim ++ h₂ ++ serverDelim ++ h₃
      = f₀ ++ requestDelim ++ w) (heq : h₁ = l.resJson) : KeepsAnswer l w := by
  subst heq
  have hJ : ¬ requestDelim <:+: l.resJson := l.own l.resJson (by simp) _ (by decide)
  by_cases hpair : ∀ u v z, w = u ++ clientDelim ++ v ++ serverDelim ++ z → v = [] ∨ z = []
  · exact .inl hpair
  · right
    push Not at hpair
    obtain ⟨u, v, z, rfl, hv, hz⟩ := hpair
    -- the last name of a server, and the last address before it
    obtain ⟨v', hv', htext', hserver⟩ : ∃ v', v' ≠ [] ∧
        h₀ ++ resJsonDelim ++ l.resJson ++ clientDelim ++ h₂
          = f₀ ++ requestDelim ++ u ++ clientDelim ++ v' ∧
        v ++ serverDelim ++ z = v' ++ serverDelim ++ h₃ := by
      have hcut : h₀ ++ resJsonDelim ++ l.resJson ++ clientDelim ++ h₂ ++ serverDelim ++ h₃
          = f₀ ++ requestDelim ++ u ++ clientDelim ++ v ++ serverDelim ++ z := by
        rw [htext]
        simp only [List.append_assoc]
      rcases hl₃.later (begins_of_mem (by decide)) hz hcut with ⟨heq, rfl⟩ | ⟨k, heq, rfl⟩
      · exact ⟨v, hv, heq, rfl⟩
      · exact ⟨v ++ serverDelim ++ k, by simp [hv], by simpa using heq, by simp⟩
    obtain ⟨u', htext'', hclient⟩ : ∃ u',
        h₀ ++ resJsonDelim ++ l.resJson = f₀ ++ requestDelim ++ u' ∧
        u ++ clientDelim ++ v' = u' ++ clientDelim ++ h₂ := by
      rcases hl₂.later (begins_of_mem (by decide)) hv' htext' with ⟨heq, rfl⟩ | ⟨k, heq, rfl⟩
      · exact ⟨u, heq, rfl⟩
      · exact ⟨u ++ clientDelim ++ k, by simpa using heq, by simp⟩
    rcases cut (begins_of_mem (by decide)) (begins_of_mem (by decide)) htext'' with
      ⟨-, heq⟩ | ⟨k, -, rfl⟩ | ⟨k, -, heq⟩
    · exact absurd heq (append_ne (by decide) (by decide) (by decide) _ _)
    · refine ⟨k, h₂, h₃, ?_, hne₂, hne₃, hl₂, hl₃⟩
      calc u ++ clientDelim ++ v ++ serverDelim ++ z
          = u ++ clientDelim ++ (v ++ serverDelim ++ z) := by simp only [List.append_assoc]
        _ = u ++ clientDelim ++ v' ++ serverDelim ++ h₃ := by
          rw [hserver]
          simp only [List.append_assoc]
        _ = _ := by rw [hclient]
    · exact absurd ⟨k, u', heq.symm⟩ hJ

/-- The texts of the server's have no delimiters, the blank before them included. -/
theorem own_blank (l : LogLine) {d text : Bytes} (htext : text ∈ [l.resJson, l.client, l.server])
    (hd : d ∈ delimiters) : ¬ d <:+: [32] ++ text := by
  have hown := l.own text htext d hd
  obtain ⟨e, rfl, -⟩ := begins_of_mem hd
  rw [List.singleton_append, List.infix_cons_iff, List.cons_prefix_cons]
  rintro (⟨h44, -⟩ | hin)
  · exact absurd h44 (by decide)
  · exact hown hin

/-- An answer that ends where the server's does is that one. -/
theorem answer_eq {s : Bytes} (hl₁ : LastIn resJsonDelim h₁) (hne₁ : h₁ ≠ [])
    (hans : l.resJson ≠ [])
    (htext : h₀ ++ resJsonDelim ++ h₁ = s ++ resJsonDelim ++ l.resJson) :
    h₀ = s ∧ h₁ = l.resJson := by
  have hanswer : ¬ resJsonDelim <:+: l.resJson := l.own l.resJson (by simp) _ (by decide)
  exact hl₁.unique_of_absent (begins_of_mem (by decide)) hanswer hne₁ hans htext

/-- If nothing comes after the name of the server, the answer is found. -/
theorem answer_of_plain (hl₁ : LastIn resJsonDelim h₁) (hl₂ : LastIn clientDelim h₂)
    (hne₁ : h₁ ≠ []) (hne₂ : h₂ ≠ []) (hans : l.resJson ≠ [])
    (htext : h₀ ++ resJsonDelim ++ h₁ ++ clientDelim ++ h₂
      = l.start ++ resJsonDelim ++ l.resJson ++ clientDelim ++ ([32] ++ l.client)) :
    l.start <+: h₀ ∧ h₁ = l.resJson := by
  have hclient : ¬ clientDelim <:+: [32] ++ l.client := own_blank l (by simp) (by decide)
  obtain ⟨heq, -⟩ :=
    hl₂.unique_of_absent (begins_of_mem (by decide)) hclient hne₂ (by simp) htext
  obtain ⟨rfl, hanswer⟩ := answer_eq hl₁ hne₁ hans heq
  exact ⟨List.prefix_rfl, hanswer⟩

/-- If the client sent no address and name of a server, the answer is found. -/
theorem answer_of_noPair (hl₁ : LastIn resJsonDelim h₁) (hl₂ : LastIn clientDelim h₂)
    (hl₃ : LastIn serverDelim h₃) (hne₁ : h₁ ≠ []) (hne₂ : h₂ ≠ []) (hne₃ : h₃ ≠ [])
    (hans : l.resJson ≠ [])
    (htext : h₀ ++ resJsonDelim ++ h₁ ++ clientDelim ++ h₂ ++ serverDelim ++ h₃
      = l.start ++ resJsonDelim ++ l.resJson ++ clientDelim ++ ([32] ++ l.client) ++
        serverDelim ++ ([32] ++ l.server) ++ requestDelim ++ w)
    (hpair : ∀ u v z, w = u ++ clientDelim ++ v ++ serverDelim ++ z → v = [] ∨ z = []) :
    l.start <+: h₀ ∧ h₁ = l.resJson := by
  have htext' : h₀ ++ resJsonDelim ++ h₁ ++ clientDelim ++ h₂ ++ serverDelim ++ h₃
      = l.start ++ resJsonDelim ++ l.resJson ++ clientDelim ++ ([32] ++ l.client) ++
        serverDelim ++ ([32] ++ l.server ++ requestDelim ++ w) := by
    rw [htext]
    simp only [List.append_assoc]
  rcases hl₃.later (begins_of_mem (by decide)) (by simp) htext' with ⟨heq, -⟩ | ⟨k, heq, hk⟩
  · exact answer_of_plain hl₁ hl₂ hne₁ hne₂ hans heq
  · -- the name of a server that is found is one the client sent
    obtain ⟨m, rfl, rfl⟩ := skip (begins_of_mem (by decide)) (begins_of_mem (by decide))
      (append_ne (by decide) (by decide) (by decide)) (own_blank l (by simp) (by decide)) hk
    have heq' : h₀ ++ resJsonDelim ++ h₁ ++ clientDelim ++ h₂
        = l.start ++ resJsonDelim ++ l.resJson ++ clientDelim ++
          ([32] ++ l.client ++ serverDelim ++ ([32] ++ l.server ++ requestDelim ++ m)) := by
      rw [heq]
      simp only [List.append_assoc]
    rcases hl₂.later (begins_of_mem (by decide)) (by simp) heq' with ⟨hend, -⟩ | ⟨k, -, hk⟩
    · obtain ⟨rfl, hanswer⟩ := answer_eq hl₁ hne₁ hans hend
      exact ⟨List.prefix_rfl, hanswer⟩
    · -- so is the address, but it sent no two of them
      obtain ⟨k', rfl, hk'⟩ := skip (begins_of_mem (by decide)) (begins_of_mem (by decide))
        (append_ne (by decide) (by decide) (by decide)) (own_blank l (by simp) (by decide)) hk
      obtain ⟨n, rfl, rfl⟩ := skip (begins_of_mem (by decide)) (begins_of_mem (by decide))
        (append_ne (by decide) (by decide) (by decide)) (own_blank l (by simp) (by decide)) hk'
      rcases hpair n h₂ h₃ rfl with h | h
      · exact absurd h hne₂
      · exact absurd h hne₃

/-- If the client repeated the answer in front of them, that one is found. -/
theorem answer_of_repeated (hl₁ : LastIn resJsonDelim h₁) (hl₂ : LastIn clientDelim h₂)
    (hl₃ : LastIn serverDelim h₃) (hne₁ : h₁ ≠ []) (hne₂ : h₂ ≠ []) (hne₃ : h₃ ≠ [])
    (hans : l.resJson ≠ []) {s u v z : Bytes}
    (htext : h₀ ++ resJsonDelim ++ h₁ ++ clientDelim ++ h₂ ++ serverDelim ++ h₃
      = s ++ (u ++ resJsonDelim ++ l.resJson ++ clientDelim ++ v ++ serverDelim ++ z))
    (hv : v ≠ []) (hz : z ≠ []) (hlv : LastIn clientDelim v) (hlz : LastIn serverDelim z) :
    s <+: h₀ ∧ h₁ = l.resJson := by
  have htext' : h₀ ++ resJsonDelim ++ h₁ ++ clientDelim ++ h₂ ++ serverDelim ++ h₃
      = s ++ u ++ resJsonDelim ++ l.resJson ++ clientDelim ++ v ++ serverDelim ++ z := by
    rw [htext]
    simp only [List.append_assoc]
  obtain ⟨heq, -⟩ := hl₃.unique hlz (begins_of_mem (by decide)) hne₃ hz htext'
  obtain ⟨heq', -⟩ := hl₂.unique hlv (begins_of_mem (by decide)) hne₂ hv heq
  obtain ⟨rfl, hanswer⟩ := answer_eq hl₁ hne₁ hans heq'
  exact ⟨List.prefix_append .., hanswer⟩

theorem answer_of_keepsAnswer (hl₁ : LastIn resJsonDelim h₁) (hl₂ : LastIn clientDelim h₂)
    (hl₃ : LastIn serverDelim h₃) (hne₁ : h₁ ≠ []) (hne₂ : h₂ ≠ []) (hne₃ : h₃ ≠ [])
    (hans : l.resJson ≠ [])
    (htext : h₀ ++ resJsonDelim ++ h₁ ++ clientDelim ++ h₂ ++ serverDelim ++ h₃
      = l.start ++ resJsonDelim ++ l.resJson ++ clientDelim ++ ([32] ++ l.client) ++
        serverDelim ++ ([32] ++ l.server) ++ requestDelim ++ w) (hkeep : KeepsAnswer l w) :
    l.start <+: h₀ ∧ h₁ = l.resJson := by
  rcases hkeep with hpair | ⟨u, v, z, rfl, hv, hz, hlv, hlz⟩
  · exact answer_of_noPair hl₁ hl₂ hl₃ hne₁ hne₂ hne₃ hans htext hpair
  · obtain ⟨hstart, hanswer⟩ := answer_of_repeated hl₁ hl₂ hl₃ hne₁ hne₂ hne₃ hans htext hv hz
      hlv hlz
    simp only [List.append_assoc] at hstart
    exact ⟨(List.prefix_append ..).trans hstart, hanswer⟩

end Answer

/-! ## The match -/

/-- `$` -/
def atEnd (rest : Bytes) : Bool := rest.isEmpty || rest == [10]

theorem linePat_eq : linePat = chain dot atEnd 1 delimiters := rfl

/-- The date is made of the first two words. -/
theorem dateOf_start (l : LogLine) (rest : Bytes) : dateOf (l.start ++ rest) = l.date := by
  obtain ⟨hday, hdayWord⟩ := l.words l.day (by simp)
  obtain ⟨htime, htimeWord⟩ := l.words l.time (by simp)
  have hblank : isSpace 32 = true := by decide
  have htext : l.start ++ rest = l.day ++ 32 :: (l.time ++ 32 :: (l.context ++ rest)) := by
    simp [LogLine.start, LogLine.date]
  rw [dateOf, htext, Lists.wordsBy_append_cons _ _ hblank, Lists.wordsBy_append_cons _ _ hblank,
    Lists.wordsBy_eq_singleton hday hdayWord, Lists.wordsBy_eq_singleton htime htimeWord]
  simp [LogLine.date, List.intercalate]

/-- The line is one. -/
theorem dot_of_mem_text (l : LogLine) : ∀ b ∈ l.text, dot b = true := by
  have hdelim : ∀ d ∈ lit ", referrer:" :: delimiters, ∀ b ∈ d, dot b = true := by decide +kernel
  have hword : ∀ word ∈ [l.day, l.time], ∀ b ∈ word, dot b = true := by
    intro word hmem b hb
    have hspace := (l.words word hmem).2 b hb
    rw [dot, bne_iff_ne]
    rintro rfl
    exact absurd hspace (by decide)
  have hline : ∀ text ∈ [l.context, l.resJson, l.client, l.server, l.request, l.host] ++
      l.referrer.toList, ∀ b ∈ text, dot b = true := by
    intro text hmem b hb
    rw [dot, bne_iff_ne]
    rintro rfl
    exact l.oneLine text hmem hb
  have hquote : ∀ text, (∀ b ∈ text, dot b = true) → ∀ b ∈ quote text, dot b = true := by
    intro text htext
    simp only [quote, List.forall_mem_append]
    exact ⟨⟨by decide +kernel, htext⟩, by decide +kernel⟩
  have htail : ∀ b ∈ l.tail, dot b = true := by
    rw [LogLine.tail]
    split
    · exact hquote _ (hline _ (by simp))
    · rename_i referrer hr
      simp only [List.forall_mem_append]
      exact ⟨⟨hquote _ (hline _ (by simp)), hdelim _ (by simp)⟩,
        hquote _ (hline referrer (by simp [hr]))⟩
  have hblank : ∀ b ∈ [(32 : UInt8)], dot b = true := by decide +kernel
  simp only [LogLine.text, LogLine.start, LogLine.date, List.forall_mem_append, and_assoc]
  exact ⟨hword _ (by simp), hblank, hword _ (by simp), hblank, hline _ (by simp),
    hdelim _ (by decide), hline _ (by simp), hdelim _ (by decide), hblank, hline _ (by simp),
    hdelim _ (by decide), hblank, hline _ (by simp), hdelim _ (by decide),
    hquote _ (hline _ (by simp)), hdelim _ (by decide), htail⟩

/-- The pieces of a line between its last delimiters. -/
structure ReadsLast (t h₀ h₁ h₂ h₃ h₄ h₅ : Bytes) : Prop where
  /-- They make up the line. -/
  text : (h₀ ++ resJsonDelim ++ h₁ ++ clientDelim ++ h₂ ++ serverDelim ++ h₃) ++ requestDelim ++
    h₄ ++ hostDelim ++ h₅ = t
  /-- The first one is not empty. -/
  start : h₀ ≠ []
  /-- Nor are the others, and their delimiters are the last ones. -/
  answer : h₁ ≠ [] ∧ LastIn resJsonDelim h₁
  /-- The address of the client. -/
  client : h₂ ≠ [] ∧ LastIn clientDelim h₂
  /-- The name of the server. -/
  server : h₃ ≠ [] ∧ LastIn serverDelim h₃
  /-- The request line. -/
  request : h₄ ≠ [] ∧ LastIn requestDelim h₄
  /-- The rest. -/
  tail : h₅ ≠ [] ∧ LastIn hostDelim h₅

theorem exists_readsLast {t : Bytes} {r : Reading delimiters t} (hr : r.IsLast) :
    ∃ h₁ h₂ h₃ h₄ h₅, r.pieces = [r.head, h₁, h₂, h₃, h₄, h₅] ∧
      ReadsLast t r.head h₁ h₂ h₃ h₄ h₅ := by
  obtain ⟨h₀, rest, hdelims, htext, hne₀, hne⟩ := r
  simp only [delimiters, List.map_eq_cons_iff, List.map_eq_nil_iff] at hdelims
  obtain ⟨⟨_, h₁⟩, _, rfl, rfl, ⟨_, h₂⟩, _, rfl, rfl, ⟨_, h₃⟩, _, rfl, rfl, ⟨_, h₄⟩, _, rfl, rfl,
    ⟨_, h₅⟩, _, rfl, rfl, rfl⟩ := hdelims
  simp only [Reading.IsLast, List.forall_mem_cons] at hr hne
  obtain ⟨hl₁, hl₂, hl₃, hl₄, hl₅, -⟩ := hr
  obtain ⟨hne₁, hne₂, hne₃, hne₄, hne₅, -⟩ := hne
  refine ⟨h₁, h₂, h₃, h₄, h₅, rfl, .trans ?_ htext, hne₀, ⟨hne₁, hl₁⟩, ⟨hne₂, hl₂⟩, ⟨hne₃, hl₃⟩,
    ⟨hne₄, hl₄⟩, ⟨hne₅, hl₅⟩⟩
  simp only [weave, List.append_assoc]

/-- A line with an answer can be read. -/
theorem exists_readsLast_text {l : LogLine} (hans : l.resJson ≠ []) :
    ∃ h₀ h₁ h₂ h₃ h₄ h₅, ReadsLast l.text h₀ h₁ h₂ h₃ h₄ h₅ := by
  let r : Reading delimiters l.text := {
    head := l.start
    rest := [(resJsonDelim, l.resJson), (clientDelim, [32] ++ l.client),
      (serverDelim, [32] ++ l.server), (requestDelim, quote l.request), (hostDelim, l.tail)]
    delims := rfl
    text := by simp only [weave, LogLine.text, List.append_assoc]
    head_ne := by simp [LogLine.start]
    rest_ne := by simp [hans, tail_ne_nil, quote_ne_nil] }
  obtain ⟨r', hr'⟩ := r.exists_last
  obtain ⟨h₁, h₂, h₃, h₄, h₅, -, h⟩ := exists_readsLast hr'
  exact ⟨r'.head, h₁, h₂, h₃, h₄, h₅, h⟩

/-- **What the script takes from a line** is what stands between the last delimiters. -/
theorem extracted_iff_readsLast {l : LogLine} {nl : Bytes} (hnl : nl = [] ∨ nl = [10]) :
    Extracted l (l.text ++ nl) ↔ ∃ h₀ h₁ h₂ h₃ h₄ h₅, ReadsLast l.text h₀ h₁ h₂ h₃ h₄ h₅ ∧
      dateOf h₀ = l.date ∧ h₁ = l.resJson ∧ h₄ = quote l.request := by
  have hend : atEnd nl = true := by rcases hnl with rfl | rfl <;> rfl
  have hdelims : ∀ d ∈ delimiters, ∀ b ∈ d, dot b = true := by decide +kernel
  have hstop : ∀ b t, dot b = true → atEnd (b :: t) = false := by
    intro b t hb
    rw [dot, bne_iff_ne] at hb
    simp [atEnd, hb]
  have hcaptures : Extracted l (l.text ++ nl) ↔ ∃ caps,
      (chain dot atEnd 1 delimiters).captures (l.text ++ nl) = some caps ∧
        dateOf ((caps.lookup 1).getD []) = l.date ∧ (caps.lookup 2).getD [] = l.resJson ∧
        (caps.lookup 5).getD [] = quote l.request := by
    rw [← linePat_eq]
    simp [Extracted, Pat.captures, group, Hit.cap]
  rw [hcaptures]
  simp only [captures_chain_iff hstop hdelims (dot_of_mem_text l) hend]
  constructor
  · rintro ⟨caps, ⟨r, hlast, rfl⟩, hfound⟩
    obtain ⟨h₁, h₂, h₃, h₄, h₅, hpieces, h⟩ := exists_readsLast hlast
    rw [hpieces] at hfound
    exact ⟨r.head, h₁, h₂, h₃, h₄, h₅, h, hfound⟩
  · rintro ⟨h₀, h₁, h₂, h₃, h₄, h₅, h, hfound⟩
    refine ⟨_, ⟨⟨h₀, [(resJsonDelim, h₁), (clientDelim, h₂), (serverDelim, h₃),
      (requestDelim, h₄), (hostDelim, h₅)], rfl, ?_, h.start, ?_⟩, ?_, rfl⟩, hfound⟩
    · rw [← h.text]
      simp only [weave, List.append_assoc]
    · simp [h.answer.1, h.client.1, h.server.1, h.request.1, h.tail.1]
    · simp [Reading.IsLast, h.answer.2, h.client.2, h.server.2, h.request.2, h.tail.2]

/-- **The script takes from a line what went into it** exactly if the line is recoverable. -/
theorem extracted_iff (l : LogLine) {nl : Bytes} (hnl : nl = [] ∨ nl = [10]) :
    Extracted l (l.text ++ nl) ↔ Recoverable l := by
  rw [extracted_iff_readsLast hnl]
  constructor
  · rintro ⟨h₀, h₁, h₂, h₃, h₄, h₅, ⟨htext, -, hh₁, hh₂, hh₃, hh₄, hh₅⟩, -, hanswer, hrequest⟩
    obtain ⟨hreq, htail⟩ := request_of_eq hh₄.2 hh₅.2 hh₅.1 htext hrequest
    refine ⟨hanswer ▸ hh₁.1, hreq, ?_⟩
    rcases htail with ⟨hplain, -⟩ | ⟨x, y, htail, hy, hstart⟩
    · rw [infix_tail_iff, not_or, not_exists] at hplain
      exact .inl ⟨hplain.1, fun text hmem hin ↦ hplain.2 text ⟨hmem, hin⟩⟩
    · exact .inr ⟨x, y, htail, hy, keepsAnswer_of_eq hh₂.2 hh₃.2 hh₂.1 hh₃.1 hstart hanswer⟩
  · rintro ⟨hans, hreq, htail⟩
    obtain ⟨h₀, h₁, h₂, h₃, h₄, h₅, h⟩ := exists_readsLast_text hans
    obtain ⟨htext, -, hh₁, hh₂, hh₃, hh₄, hh₅⟩ := id h
    obtain ⟨hrequest, hstarts, hanswer⟩ : h₄ = quote l.request ∧ l.start <+: h₀ ∧
        h₁ = l.resJson := by
      rcases htail with ⟨hhost, hreferrer⟩ | ⟨x, y, htail, hy, hkeep⟩
      · have hplain : ¬ hostDelim <:+: l.tail := by
          rw [infix_tail_iff, not_or, not_exists]
          exact ⟨hhost, fun text hin ↦ hreferrer text hin.1 hin.2⟩
        obtain ⟨hrequest, hstart⟩ :=
          request_of_last hh₄.2 hh₅.2 hh₄.1 hh₅.1 (tail_ne_nil l) htext hreq hplain
        have hserver : ¬ serverDelim <:+: [32] ++ l.server := own_blank l (by simp) (by decide)
        obtain ⟨hend, -⟩ :=
          hh₃.2.unique_of_absent (begins_of_mem (by decide)) hserver hh₃.1 (by simp) hstart
        exact ⟨hrequest, answer_of_plain hh₁.2 hh₂.2 hh₁.1 hh₂.1 hans hend⟩
      · obtain ⟨hrequest, hstart⟩ :=
          request_of_repeated hh₄.2 hh₅.2 hh₄.1 hh₅.1 htext hreq htail hy
        exact ⟨hrequest,
          answer_of_keepsAnswer hh₁.2 hh₂.2 hh₃.2 hh₁.1 hh₂.1 hh₃.1 hans hstart hkeep⟩
    obtain ⟨k, rfl⟩ := hstarts
    exact ⟨_, h₁, h₂, h₃, h₄, h₅, h, dateOf_start l k, hanswer, hrequest⟩

/-- A line for a request to this host, for the examples. -/
def sampleLogLine (host : Bytes) (h : 10 ∉ host) : LogLine where
  day := lit "2016/03/08"
  time := lit "10:25:00"
  context := lit "[error] 1#0: *1 "
  resJson := lit "0"
  client := lit "c"
  server := lit "s"
  request := lit "GET /?plugin=face&src=pull HTTP/1.1"
  host := host
  referrer := none
  words := by decide +kernel
  oneLine := by
    simp only [List.forall_mem_append, List.forall_mem_cons]
    exact ⟨⟨by decide, by decide, by decide, by decide, by decide, h, by simp⟩, by simp⟩
  own := by decide

/-- A host without a delimiter. -/
theorem extracted_plainHost :
    Extracted (sampleLogLine (lit "h") (by decide))
      ((sampleLogLine (lit "h") (by decide)).text ++ [10]) :=
  (extracted_iff _ (.inr rfl)).mpr ⟨by decide, by decide +kernel, .inl ⟨by decide, by decide⟩⟩

/-- A host with one: the request does not end where the client ended it. -/
theorem not_extracted_hostDelim :
    ¬ Extracted (sampleLogLine (lit "a, host:b") (by decide))
      ((sampleLogLine (lit "a, host:b") (by decide)).text ++ [10]) := by
  have hfound : (linePat.first ((sampleLogLine (lit "a, host:b") (by decide)).text ++ [10])).map
      (fun h ↦ group h 5 == quote (lit "GET /?plugin=face&src=pull HTTP/1.1")) = some false := by
    decide +kernel
  rintro ⟨h, hfirst, -, -, hrequest⟩
  rw [hfirst, Option.map_some, hrequest] at hfound
  exact absurd hfound (by decide)

end ImgPredictor
