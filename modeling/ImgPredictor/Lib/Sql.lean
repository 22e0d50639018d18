import ImgPredictor.Lib.Bytes

/-!
# The string literals of an SQL statement

What decides whether a value can break out of a statement is where the server sees the string
literals begin and end.  `tokens` is that part of the server's lexer: a literal runs from a quote to
the next quote of its kind, except that a backslash takes the byte after it along and a doubled
quote stands for itself.  Everything outside the literals is kept byte by byte.

* A token holds a literal as it is written, escapes included, so a literal without quotes and
  backslashes is its own value.
* Comments are not looked for.  A statement that comes out as literals between bytes that begin no
  comment has none.

`tokens_values` says that values without quotes and backslashes stay where they are put.

`readInsert` goes on from there: it reads an `insert` of one row, with the names of its columns.
-/

set_option autoImplicit false

namespace Sql

/-- A piece of a statement. -/
inductive Token where
  /-- A byte outside the literals. -/
  | byte (b : UInt8)
  /-- A string literal, as it stands between its quotes. -/
  | literal (text : Bytes)
  deriving DecidableEq, Repr

/-- `'` and `"` begin a literal. -/
def isQuote (b : UInt8) : Bool := b == 39 || b == 34

/-- The tokens of what is left of a statement.  Inside of a literal, its quote and what there is of
it are known.  A statement that ends inside of one is refused. -/
def lex : Option (UInt8 × Bytes) → Bytes → Option (List Token)
  | none, [] => some []
  | none, b :: s => if isQuote b then lex (some (b, [])) s else (lex none s).map (.byte b :: ·)
  | some _, [] => none
  | some (quote, text), [b] => if b == quote then some [.literal text] else none
  | some (quote, text), b :: c :: s =>
    if b == 92 then lex (some (quote, text ++ [b, c])) s
    else if b == quote then
      if c == quote then lex (some (quote, text ++ [b, c])) s
      else (lex none (c :: s)).map (.literal text :: ·)
    else lex (some (quote, text ++ [b])) (c :: s)

/-- The tokens of a statement. -/
def tokens (statement : Bytes) : Option (List Token) := lex none statement

/-- Nothing in the value ends a literal or reaches over its end. -/
def Clean (value : Bytes) : Prop := 39 ∉ value ∧ 34 ∉ value ∧ 92 ∉ value

/-- Literals between commas. -/
def literals (values : List Bytes) : List Token :=
  [Token.byte 44].intercalate (values.map fun v ↦ [.literal v])

/-- Values in quotes, between commas. -/
def quotes (values : List Bytes) : Bytes :=
  [44].intercalate (values.map fun v ↦ [39] ++ v ++ [39])

example : tokens (quotes [Bytes.lit "a','b"]) = some (literals [Bytes.lit "a", Bytes.lit "b"]) := by
  decide

example : tokens (quotes [Bytes.lit "a\\"]) = none := by decide

theorem lex_bytes {a : Bytes} (ha : ∀ b ∈ a, isQuote b = false) (s : Bytes) :
    lex none (a ++ s) = (lex none s).map (a.map Token.byte ++ ·) := by
  induction a with
  | nil => simp
  | cons b a ih =>
    rw [List.cons_append, lex, if_neg (by simp [ha b (by simp)]),
      ih fun c hc ↦ ha c (List.mem_cons_of_mem _ hc), Option.map_map]
    rfl

/-- Inside of a literal, a byte that is nothing special goes into it.  The lexer looks one byte
ahead, so there has to be one. -/
theorem lex_inside_cons {b : UInt8} (hquote : b ≠ 39) (hback : b ≠ 92) (text : Bytes) {s : Bytes}
    (hs : s ≠ []) : lex (some (39, text)) (b :: s) = lex (some (39, text ++ [b])) s := by
  rcases s with _ | ⟨c, s⟩
  · exact absurd rfl hs
  · rw [lex, if_neg (by simpa using hback), if_neg (by simpa using hquote)]

/-- A clean value, up to its closing quote. -/
theorem lex_inside {v : Bytes} (hv : Clean v) (text : Bytes) {c : UInt8} (hc : c ≠ 39) (s : Bytes) :
    lex (some (39, text)) (v ++ 39 :: c :: s)
      = (lex none (c :: s)).map (.literal (text ++ v) :: ·) := by
  induction v generalizing text with
  | nil =>
    generalize hr : lex none (c :: s) = r
    rw [List.nil_append, List.append_nil, lex, if_neg (by decide), if_pos (by decide),
      if_neg (by simpa using hc), hr]
  | cons b v ih =>
    obtain ⟨hquote, hdouble, hback⟩ := hv
    rw [List.mem_cons, not_or] at hquote hdouble hback
    rw [List.cons_append, lex_inside_cons (Ne.symm hquote.1) (Ne.symm hback.1) text (by simp),
      ih ⟨hquote.2, hdouble.2, hback.2⟩, List.append_assoc]
    rfl

theorem lex_literal {v : Bytes} (hv : Clean v) {c : UInt8} (hc : c ≠ 39) (s : Bytes) :
    lex none ([39] ++ v ++ [39] ++ c :: s) = (lex none (c :: s)).map (.literal v :: ·) := by
  have hopen := lex_inside hv [] hc s
  rw [List.nil_append] at hopen
  simpa [lex, isQuote] using hopen

/-- **Clean values stay where they are put**: the lexer finds the literals that were written. -/
theorem lex_values {values : List Bytes} (hvalues : ∀ v ∈ values, Clean v) {c : UInt8}
    (hc : isQuote c = false) (s : Bytes) :
    lex none (quotes values ++ c :: s) = (lex none (c :: s)).map (literals values ++ ·) := by
  have hc39 : c ≠ 39 := by rintro rfl; simp [isQuote] at hc
  induction values with
  | nil => simp [quotes, literals]
  | cons v values ih =>
    have hv := hvalues v (by simp)
    have hrest := ih fun w hw ↦ hvalues w (List.mem_cons_of_mem _ hw)
    rcases values with _ | ⟨w, values⟩
    · simpa [quotes, literals] using lex_literal hv hc39 s
    · have hcomma := lex_literal hv (c := 44) (by decide) (quotes (w :: values) ++ c :: s)
      have hstep : lex none (44 :: (quotes (w :: values) ++ c :: s))
          = (lex none (c :: s)).map (.byte 44 :: literals (w :: values) ++ ·) := by
        rw [lex, if_neg (by decide), hrest, Option.map_map]
        rfl
      rw [hstep, Option.map_map] at hcomma
      simpa [quotes, literals, List.intercalate, Function.comp_def] using hcomma

/-- **A statement made of fixed text around clean values** has these values for its literals. -/
theorem tokens_values {head tail : Bytes} {values : List Bytes} {c : UInt8}
    (hhead : ∀ b ∈ head, isQuote b = false) (htail : ∀ b ∈ c :: tail, isQuote b = false)
    (hvalues : ∀ v ∈ values, Clean v) :
    tokens (head ++ quotes values ++ c :: tail)
      = some (head.map .byte ++ literals values ++ (c :: tail).map .byte) := by
  have hend := lex_bytes htail []
  rw [List.append_nil] at hend
  rw [tokens, List.append_assoc, lex_bytes hhead, lex_values hvalues (htail c (by simp)), hend]
  simp [lex]

/-! ## Reading an insert -/

/-- The words and marks of a statement. -/
inductive Lexeme where
  /-- A name, or a keyword. -/
  | name (text : Bytes)
  /-- A mark of one byte. -/
  | mark (b : UInt8)
  /-- A string literal. -/
  | literal (text : Bytes)
  deriving DecidableEq, Repr

/-- The bytes of names. -/
def isNameByte (b : UInt8) : Bool :=
  Bytes.isDigit b || (65 ≤ b && b ≤ 90) || (97 ≤ b && b ≤ 122) || b == 95

/-- Does a name go on? -/
def nameGoesOn : List Token → Bool
  | .byte b :: _ => isNameByte b
  | _ => false

/-- A byte of a name, before the lexemes of what follows it. -/
def consName (b : UInt8) (goesOn : Bool) : List Lexeme → List Lexeme
  | .name w :: ls => if goesOn then .name (b :: w) :: ls else .name [b] :: .name w :: ls
  | ls => .name [b] :: ls

/-- The lexemes of some tokens: white space separates names, and is nothing else. -/
def lexemes : List Token → List Lexeme
  | [] => []
  | .literal v :: ts => .literal v :: lexemes ts
  | .byte b :: ts =>
    if Bytes.isSpace b then lexemes ts
    else if isNameByte b then consName b (nameGoesOn ts) (lexemes ts)
    else .mark b :: lexemes ts

/-- What is between commas, up to the closing bracket. -/
def readList (read : Lexeme → Option Bytes) : List Lexeme → Option (List Bytes × List Lexeme)
  | l :: .mark b :: ls =>
    (read l).bind fun x ↦
      if b = 44 then (readList read ls).map fun r ↦ (x :: r.1, r.2)
      else if b = 41 then some ([x], ls)
      else none
  | _ => none

/-- A name. -/
def Lexeme.asName : Lexeme → Option Bytes
  | .name w => some w
  | _ => none

/-- A literal. -/
def Lexeme.asLiteral : Lexeme → Option Bytes
  | .literal v => some v
  | _ => none

/-- A row to be inserted. -/
structure Insert where
  /-- The table. -/
  table : Bytes
  /-- The values, by the names of their columns. -/
  values : List (Bytes × Bytes)
  deriving DecidableEq, Repr

/-- `(c, …) values ('v', …)`, after the name of the table. -/
def readRow (table : Bytes) : List Lexeme → Option Insert
  | .mark 40 :: ls =>
    match readList Lexeme.asName ls with
    | some (columns, .name keyword :: .mark 40 :: ls) =>
      if keyword = Bytes.lit "values" then
        match readList Lexeme.asLiteral ls with
        | some (values, []) =>
          if columns.length = values.length then some ⟨table, columns.zip values⟩ else none
        | _ => none
      else none
    | _ => none
  | _ => none

/-- `insert into t (c, …) values ('v', …)` -/
def readInsert (statement : Bytes) : Option Insert :=
  match (tokens statement).map lexemes with
  | some (.name insert :: .name into :: .name table :: ls) =>
    if insert = Bytes.lit "insert" ∧ into = Bytes.lit "into" then readRow table ls else none
  | _ => none

example : readInsert (Bytes.lit "insert into t (a, b) values ('1','x y')")
    = some ⟨Bytes.lit "t", [(Bytes.lit "a", Bytes.lit "1"), (Bytes.lit "b", Bytes.lit "x y")]⟩ := by
  decide +kernel

theorem consName_false (b : UInt8) (ls : List Lexeme) : consName b false ls = .name [b] :: ls := by
  rcases ls with _ | ⟨⟨w⟩ | ⟨c⟩ | ⟨v⟩, ls⟩ <;> rfl

theorem consName_append {b : UInt8} {goesOn : Bool} {ls : List Lexeme} (h : goesOn = true → ls ≠ [])
    (ls' : List Lexeme) : consName b goesOn (ls ++ ls') = consName b goesOn ls ++ ls' := by
  cases goesOn with
  | false => rw [consName_false, consName_false, List.cons_append]
  | true =>
    rcases ls with _ | ⟨⟨w⟩ | ⟨c⟩ | ⟨v⟩, ls⟩
    · exact absurd rfl (h rfl)
    all_goals rfl

theorem not_isSpace_of_isNameByte {b : UInt8} (h : isNameByte b = true) :
    Bytes.isSpace b = false := by
  simp only [isNameByte, Bytes.isDigit, Bool.or_eq_true, Bool.and_eq_true, decide_eq_true_eq,
    beq_iff_eq, UInt8.le_iff_toNat_le, ← UInt8.toNat_inj, UInt8.reduceToNat] at h
  simp only [Bytes.isSpace, Bool.or_eq_false_iff, Bool.and_eq_false_iff, decide_eq_false_iff_not,
    beq_eq_false_iff_ne, ne_eq, UInt8.le_iff_toNat_le, ← UInt8.toNat_inj, UInt8.reduceToNat]
  omega

theorem lexemes_ne_nil {ts : List Token} (h : nameGoesOn ts = true) : lexemes ts ≠ [] := by
  match ts with
  | .byte b :: ts =>
    rw [nameGoesOn] at h
    rw [lexemes, if_neg (by simp [not_isSpace_of_isNameByte h]), if_pos h]
    generalize lexemes ts = ls
    cases nameGoesOn ts with
    | false => simp [consName_false]
    | true => rcases ls with _ | ⟨⟨w⟩ | ⟨c⟩ | ⟨v⟩, ls⟩ <;> simp [consName]

/-- A token that is no byte of a name separates what is on both sides of it. -/
theorem lexemes_append (a : List Token) {ts : List Token} (h : nameGoesOn ts = false) :
    lexemes (a ++ ts) = lexemes a ++ lexemes ts := by
  induction a with
  | nil => rfl
  | cons t a ih =>
    have hgoesOn : nameGoesOn (a ++ ts) = nameGoesOn a := by
      cases a with
      | nil => exact h
      | cons t' a => cases t' <;> rfl
    cases t with
    | literal v => rw [List.cons_append, lexemes, lexemes, ih, List.cons_append]
    | byte b =>
      rw [List.cons_append, lexemes, lexemes, ih, hgoesOn]
      split
      · rfl
      · split
        · exact consName_append lexemes_ne_nil _
        · rfl

/-- Things between commas. -/
def listed (write : Bytes → Lexeme) (xs : List Bytes) : List Lexeme :=
  [Lexeme.mark 44].intercalate (xs.map fun x ↦ [write x])

theorem listed_cons (write : Bytes → Lexeme) (x y : Bytes) (xs : List Bytes) :
    listed write (x :: y :: xs) = write x :: .mark 44 :: listed write (y :: xs) := by
  simp [listed, List.intercalate]

/-- **What is written between commas is read back.** -/
theorem readList_listed {write : Bytes → Lexeme} {read : Lexeme → Option Bytes}
    (hread : ∀ x, read (write x) = some x) {xs : List Bytes} (hne : xs ≠ []) (ls : List Lexeme) :
    readList read (listed write xs ++ .mark 41 :: ls) = some (xs, ls) := by
  induction xs with
  | nil => exact absurd rfl hne
  | cons x xs ih =>
    cases xs with
    | nil =>
      change readList read (write x :: .mark 41 :: ls) = _
      rw [readList, hread, Option.bind_some, if_neg (by decide), if_pos rfl]
    | cons y xs =>
      rw [listed_cons, List.cons_append, List.cons_append, readList, hread, Option.bind_some,
        if_pos rfl, ih (List.cons_ne_nil _ _)]
      rfl

theorem lexemes_literals (values : List Bytes) (ts : List Token) :
    lexemes (literals values ++ .byte 41 :: ts)
      = listed .literal values ++ .mark 41 :: lexemes ts := by
  induction values with
  | nil => rfl
  | cons v values ih =>
    cases values with
    | nil => rfl
    | cons w values =>
      have hcons : literals (v :: w :: values)
          = .literal v :: .byte 44 :: literals (w :: values) := by
        simp [literals, List.intercalate]
      rw [hcons, listed_cons, List.cons_append, List.cons_append, lexemes, lexemes,
        if_neg (by decide), if_neg (by decide), ih]
      rfl

/-- The lexemes of an insert up to its values. -/
def insertHead (table : Bytes) (columns : List Bytes) : List Lexeme :=
  [.name (Bytes.lit "insert"), .name (Bytes.lit "into"), .name table, .mark 40] ++
    (listed .name columns ++ .mark 41 :: [.name (Bytes.lit "values"), .mark 40])

/-- **An insert of clean values is read back**: the table, and under each column its value. -/
theorem readInsert_eq {head table : Bytes} {columns values : List Bytes}
    (hhead : lexemes (head.map .byte) = insertHead table columns)
    (hquote : ∀ b ∈ head, isQuote b = false) (hclean : ∀ v ∈ values, Clean v)
    (hcolumns : columns ≠ []) (hlength : columns.length = values.length) :
    readInsert (head ++ quotes values ++ [41]) = some ⟨table, columns.zip values⟩ := by
  have hvalues : values ≠ [] := by
    rintro rfl
    exact hcolumns (List.length_eq_zero_iff.mp hlength)
  have hmark : nameGoesOn (literals values ++ [.byte 41]) = false := by
    rcases values with _ | ⟨v, _ | ⟨w, values⟩⟩
    · exact absurd rfl hvalues
    all_goals rfl
  have htokens : (tokens (head ++ quotes values ++ [41])).map lexemes
      = some (insertHead table columns ++ (listed .literal values ++ [.mark 41])) := by
    rw [tokens_values hquote (List.forall_mem_singleton.mpr rfl) hclean, Option.map_some,
      List.append_assoc]
    change some (lexemes (head.map .byte ++ (literals values ++ [.byte 41]))) = _
    rw [lexemes_append _ hmark, hhead, lexemes_literals]
    rfl
  have hnames : readList Lexeme.asName (listed .name columns ++ .mark 41 ::
      .name (Bytes.lit "values") :: .mark 40 :: (listed .literal values ++ [.mark 41]))
        = some (columns, .name (Bytes.lit "values") :: .mark 40 ::
          (listed .literal values ++ [.mark 41])) := readList_listed (fun _ ↦ rfl) hcolumns _
  have hliterals : readList Lexeme.asLiteral (listed .literal values ++ [.mark 41])
      = some (values, []) := readList_listed (fun _ ↦ rfl) hvalues _
  rw [readInsert, htokens, insertHead, List.append_assoc]
  simp only [List.cons_append, List.nil_append, and_self, if_true, List.append_assoc]
  rw [readRow, hnames]
  simp only [if_true, hliterals, hlength]

end Sql
