import Mathlib.Data.List.Basic
import SqlCompiler.Provider.Dialect
import SqlCompiler.Proofs.Reading.Names
import SqlCompiler.Text.Numeral

/-!
# Reading literals back

A text is printed in quotes, with a quote written twice, and bytes in hexadecimal digits, as each
dialect writes them.  A database reads the value that was printed, and reads on only where what
follows continues the literal: another text in PostgreSQL, and what can be part of a literal that no
quote closes.

Main results:

- Definitions `Dialect.readText?` and `Dialect.readBytes?`: literals as the databases of a dialect read
  them.
- Theorem `Dialect.readHex_hex`: hexadecimal digits are read as the bytes they were printed for.
- Theorem `Dialect.read_literal_iff`: what may follow a literal that is read as its value.
-/

namespace SqlCompiler

/-! ## Texts -/

/-- Look for a text that continues the one before it.  Between the two are white space and comments
only, and a line break among them. -/
def nextText? (broken comment : Bool) : List Char → Option (List Char)
  | [] => none
  | c :: rest =>
    if c == '\n' || c == '\r' then nextText? true false rest
    else if comment || c == ' ' || c == '\t' || c == '\x0b' || c == '\x0c' then
      nextText? broken comment rest
    else if c == '\'' && broken then some rest
    else if c == '-' && rest.head? == some '-' then nextText? broken true rest
    else none

theorem length_nextText {broken comment : Bool} {text next : List Char}
    (h : nextText? broken comment text = some next) : next.length < text.length := by
  fun_induction nextText? broken comment text with
  | case1 => cases h
  | case2 _ _ c rest _ ih => exact Nat.lt_succ_of_lt (ih h)
  | case3 _ _ c rest _ _ ih => exact Nat.lt_succ_of_lt (ih h)
  | case4 _ _ c rest =>
    cases h
    exact Nat.lt_succ_self _
  | case5 _ _ c rest _ _ _ _ ih => exact Nat.lt_succ_of_lt (ih h)
  | case6 => cases h

theorem length_readMarked {mark : Char} {text s rest : List Char}
    (h : readMarked mark text = some (s, rest)) : rest.length < text.length := by
  rw [(readMarked_eq_some_iff.mp h).1]
  simp only [List.length_append, List.length_cons]
  omega

/-- Read the rest of a text and those that continue it. -/
def readTexts (text : List Char) : Option (List Char × List Char) :=
  match _hread : readMarked '\'' text with
  | none => none
  | some (s, rest) =>
    match _hnext : nextText? false false rest with
    | none => some (s, rest)
    | some next => (readTexts next).map fun (s', rest) => (s ++ s', rest)
termination_by text.length
decreasing_by exact Nat.lt_trans (length_nextText _hnext) (length_readMarked _hread)

theorem length_readTexts {text s rest : List Char} (h : readTexts text = some (s, rest)) :
    rest.length < text.length := by
  fun_induction readTexts text generalizing s with
  | case1 => cases h
  | case2 text s' rest' hread hnext =>
    cases h
    exact length_readMarked hread
  | case3 text s' rest' hread next hnext ih =>
    obtain ⟨⟨s'', rest''⟩, hrest, heq⟩ := Option.map_eq_some_iff.mp h
    cases heq
    exact Nat.lt_trans (ih hrest) (Nat.lt_trans (length_nextText hnext) (length_readMarked hread))

/-- A text is read alone unless another one continues it. -/
theorem readTexts_doubleMarks {s rest : List Char} (hrest : rest.head? ≠ some '\'') :
    readTexts (doubleMarks '\'' s ++ '\'' :: rest) = some (s, rest) ↔
      nextText? false false rest = none := by
  have hread := readMarked_doubleMarks (s := s) hrest
  rw [readTexts]
  split
  · next h => rw [h] at hread; cases hread
  · next s' rest' h =>
    obtain ⟨rfl, rfl⟩ := Prod.mk.inj (Option.some.inj (h.symm.trans hread))
    split
    · next hnext => exact iff_of_true rfl hnext
    · next next hnext =>
      refine iff_of_false (fun hsome => ?_) (by simp [hnext])
      obtain ⟨⟨s'', rest''⟩, hafter, heq⟩ := Option.map_eq_some_iff.mp hsome
      obtain rfl : rest'' = rest' := (Prod.mk.inj heq).2
      exact absurd (Nat.lt_trans (length_readTexts hafter) (length_nextText hnext))
        (Nat.lt_irrefl _)

theorem map_ofList_eq_some_iff {read : Option (List Char × List Char)} {s : String}
    {rest : List Char} : read.map (Prod.map String.ofList id) = some (s, rest) ↔
      read = some (s.toList, rest) := by
  constructor
  · intro h
    obtain ⟨⟨s', rest'⟩, rfl, heq⟩ := Option.map_eq_some_iff.mp h
    obtain ⟨rfl, rfl⟩ := Prod.mk.inj heq
    simp
  · rintro rfl
    simp

theorem takeWhile_eq_nil_iff_head {p : Char → Bool} {text : List Char} :
    text.takeWhile p = [] ↔ ∀ c ∈ text.head?, p c = false := by
  cases text with
  | nil => simp
  | cons c text => cases hc : p c <;> simp [hc]

/-! ## Hexadecimal digits -/

theorem hexValue_toUpper_hexDigit :
    ∀ n < 16, Text.hexValue? (Text.hexDigit n).toUpper = some n := by
  decide

/-- Read what two quotes enclose as hexadecimal digits, behind what opens them. -/
def readQuotedHex (opening : String) (text : List Char) : Option (List UInt8 × List Char) := do
  let text ← text.dropPrefix? opening.toList
  let (digits, rest) ← readMarked '\'' text
  let bytes ← Text.readHex? digits
  return (bytes, rest)

/-- Whether a character is a hexadecimal digit. -/
def isHexDigit (c : Char) : Bool :=
  (Text.hexValue? c).isSome

namespace Dialect

theorem toList_hex (bytes : List UInt8) : (hex bytes).toList =
    bytes.flatMap fun b =>
      [(Text.hexDigit (b.toNat / 16)).toUpper, (Text.hexDigit (b.toNat % 16)).toUpper] := by
  rw [hex, String.toList_map, Text.hexOf, String.toList_ofList, List.map_flatMap]
  rfl

/-- Hexadecimal digits are read as the bytes they were printed for. -/
theorem readHex_hex (bytes : List UInt8) : Text.readHex? (hex bytes).toList = some bytes := by
  rw [toList_hex]
  induction bytes with
  | nil => rfl
  | cons b bytes ih =>
    have hb := b.toNat_lt
    have hhigh := hexValue_toUpper_hexDigit (b.toNat / 16) (by omega)
    have hlow := hexValue_toUpper_hexDigit (b.toNat % 16) (by omega)
    have hbyte : UInt8.ofNat (b.toNat / 16 * 16 + b.toNat % 16) = b := by
      rw [Nat.div_add_mod', UInt8.ofNat_toNat]
    rw [List.flatMap_cons, List.cons_append, List.cons_append, List.nil_append, Text.readHex?,
      hhigh, hlow, ih]
    simp only [Option.bind_eq_bind, Option.bind_some, hbyte]
    rfl

theorem isHexDigit_hex {bytes : List UInt8} {c : Char} (h : c ∈ (hex bytes).toList) :
    isHexDigit c = true := by
  rw [toList_hex, List.mem_flatMap] at h
  obtain ⟨b, -, hc⟩ := h
  have hb := b.toNat_lt
  have hdigit (n : Nat) (hn : n < 16) : isHexDigit (Text.hexDigit n).toUpper = true := by
    rw [isHexDigit, hexValue_toUpper_hexDigit n hn, Option.isSome_some]
  rcases List.mem_pair.mp hc with rfl | rfl
  · exact hdigit _ (by omega)
  · exact hdigit _ (by omega)

theorem length_hex (bytes : List UInt8) : (hex bytes).toList.length % 2 = 0 := by
  rw [toList_hex]
  induction bytes with
  | nil => rfl
  | cons b bytes ih =>
    simp only [List.flatMap_cons, List.length_append, List.length_cons, List.length_nil]
    omega

theorem readQuotedHex_hex (opening : String) (bytes : List UInt8) {rest : List Char}
    (hrest : rest.head? ≠ some '\'') :
    readQuotedHex opening (opening.toList ++ ((hex bytes).toList ++ '\'' :: rest)) =
      some (bytes, rest) := by
  have hquote : '\'' ∉ (hex bytes).toList := fun h => absurd (isHexDigit_hex h) (by decide)
  have hread := readMarked_doubleMarks (s := (hex bytes).toList) hrest
  rw [doubleMarks_of_notMem hquote] at hread
  rw [readQuotedHex, List.dropPrefix?_append_of_beq _ (beq_self_eq_true _)]
  simp only [Option.bind_eq_bind, Option.bind_some, hread, readHex_hex]
  rfl

/-! ## Literals -/

/-- Read a text at the start of what is printed.  SQL Server marks texts in Unicode by a letter. -/
def readText? (d : Dialect) : List Char → Option (String × List Char)
  | '\'' :: text =>
    let read := match d with
      | postgreSql => readTexts text
      | _ => readMarked '\'' text
    read.map (Prod.map String.ofList id)
  | 'N' :: '\'' :: text =>
    match d with
    | sqlServer => (readMarked '\'' text).map (Prod.map String.ofList id)
    | _ => none
  | _ => none

/-- Read bytes at the start of what is printed.  SQL Server reads all the digits there are, and takes a
zero for a missing one.  PostgreSQL reads a text that is converted to the type behind it. -/
def readBytes? (d : Dialect) (text : List Char) : Option (List UInt8 × List Char) :=
  match d with
  | sqlServer => do
    let text ← text.dropPrefix? "0x".toList
    let digits := text.takeWhile isHexDigit
    let bytes ← Text.readHex? (if digits.length % 2 = 0 then digits else '0' :: digits)
    return (bytes, text.dropWhile isHexDigit)
  | postgreSql => do
    let (bytes, text) ← readQuotedHex "'\\x" text
    let text ← text.dropPrefix? "::".toList
    if text.takeWhile isWordCharacter = "bytea".toList then
      return (bytes, text.dropWhile isWordCharacter)
    else
      none
  | db2 => readQuotedHex "BX'" text
  | generic | sqlite => readQuotedHex "X'" text

/-- What follows a text is read as a part of it. -/
def ContinuesText (d : Dialect) (rest : List Char) : Prop :=
  d = postgreSql ∧ nextText? false false rest ≠ none

/-- What follows bytes is read as a part of them, or of the type they are converted to. -/
def ContinuesBytes (d : Dialect) (rest : List Char) : Prop :=
  ∃ c ∈ rest.head?, d = sqlServer ∧ isHexDigit c = true ∨ d = postgreSql ∧ isWordCharacter c = true

variable {rest : List Char}

/-- A text is read as what it was printed for, unless another one continues it. -/
theorem readText_literal_iff (d : Dialect) (type : SqlType) (s : String)
    (hrest : rest.head? ≠ some '\'') :
    d.readText? ((d.textPrefix type ++ quoted s).toList ++ rest) = some (s, rest) ↔
      ¬d.ContinuesText rest := by
  have hquoted : (quoted s).toList ++ rest =
      '\'' :: (doubleMarks '\'' s.toList ++ '\'' :: rest) := by
    rw [quoted, String.toList_append, String.toList_append, toList_doubled]
    simp
  have hread : (readMarked '\'' (doubleMarks '\'' s.toList ++ '\'' :: rest)).map
      (Prod.map String.ofList id) = some (s, rest) :=
    map_ofList_eq_some_iff.mpr (readMarked_doubleMarks hrest)
  -- only SQL Server has a prefix, and only PostgreSQL reads on
  have hplain (hd : d = generic ∨ d = sqlite ∨ d = db2 ∨ d = sqlServer)
      (hstart : d.textPrefix type = "") :
      d.readText? ((d.textPrefix type ++ quoted s).toList ++ rest) = some (s, rest) := by
    rw [hstart, String.empty_append, hquoted]
    rcases hd with rfl | rfl | rfl | rfl <;> exact hread
  have halone (hd : d ≠ postgreSql) : ¬d.ContinuesText rest := fun h => hd h.1
  cases d with
  | generic => exact iff_of_true (hplain (by simp) rfl) (halone (by decide))
  | sqlite => exact iff_of_true (hplain (by simp) rfl) (halone (by decide))
  | db2 => exact iff_of_true (hplain (by simp) rfl) (halone (by decide))
  | sqlServer =>
    refine iff_of_true ?_ (halone (by decide))
    have hstart : sqlServer.textPrefix type = "N" ∨ sqlServer.textPrefix type = "" := by
      unfold textPrefix
      split <;> simp
    rcases hstart with hstart | hstart
    · have htext : ("N" ++ quoted s).toList ++ rest = 'N' :: ((quoted s).toList ++ rest) := by
        rw [String.toList_append]
        rfl
      rw [hstart, htext, hquoted, readText?]
      exact hread
    · exact hplain (by simp) hstart
  | postgreSql =>
    have hstart : postgreSql.textPrefix type = "" := rfl
    have hcontinues : ¬postgreSql.ContinuesText rest ↔ nextText? false false rest = none := by
      simp [ContinuesText]
    rw [hstart, String.empty_append, hquoted, readText?, hcontinues,
      ← readTexts_doubleMarks (s := s.toList) hrest]
    exact map_ofList_eq_some_iff

/-- SQL Server reads the digits of a literal and all those that follow. -/
theorem readBytes_sqlServer_iff (bytes : List UInt8) :
    sqlServer.readBytes? ((sqlServer.binaryLiteral bytes).toList ++ rest) = some (bytes, rest) ↔
      rest.takeWhile isHexDigit = [] := by
  have htext : ("0x" ++ hex bytes).toList ++ rest = "0x".toList ++ ((hex bytes).toList ++ rest) := by
    rw [String.toList_append, List.append_assoc]
  have hall : ∀ c ∈ (hex bytes).toList, isHexDigit c = true := fun c => isHexDigit_hex
  have hsplit := List.takeWhile_append_dropWhile (p := isHexDigit) (l := rest)
  rw [binaryLiteral, htext, readBytes?, List.dropPrefix?_append_of_beq _ (beq_self_eq_true _)]
  simp only [Option.bind_eq_bind, Option.bind_some, List.takeWhile_append_of_pos hall,
    List.dropWhile_append_of_pos hall]
  constructor
  · intro h
    obtain ⟨bytes', -, heq⟩ := Option.bind_eq_some_iff.mp h
    have hdrop : rest.dropWhile isHexDigit = rest := (Prod.mk.inj (Option.some.inj heq)).2
    rw [hdrop] at hsplit
    exact List.append_left_eq_self.mp hsplit
  · intro hnone
    rw [hnone, List.nil_append] at hsplit
    rw [hnone, List.append_nil, hsplit, if_pos (length_hex bytes), readHex_hex]
    rfl

/-- PostgreSQL reads the name of the type up to its end. -/
theorem readBytes_postgreSql_iff (bytes : List UInt8) :
    postgreSql.readBytes? ((postgreSql.binaryLiteral bytes).toList ++ rest) = some (bytes, rest) ↔
      rest.takeWhile isWordCharacter = [] := by
  have htext : ("'\\x" ++ hex bytes ++ "'::bytea").toList ++ rest =
      "'\\x".toList ++ ((hex bytes).toList ++ '\'' :: ("::".toList ++ ("bytea".toList ++ rest))) := by
    simp
  have hall : ∀ c ∈ "bytea".toList, isWordCharacter c = true := List.all_eq_true.mp (by decide)
  have hsplit := List.takeWhile_append_dropWhile (p := isWordCharacter) (l := rest)
  rw [binaryLiteral, htext, readBytes?, readQuotedHex_hex _ _ (by simp)]
  simp only [Option.bind_eq_bind, Option.bind_some,
    List.dropPrefix?_append_of_beq _ (beq_self_eq_true _), List.takeWhile_append_of_pos hall,
    List.dropWhile_append_of_pos hall, List.append_right_eq_self]
  constructor
  · intro h
    split at h
    · assumption
    · cases h
  · intro hnone
    rw [hnone, List.nil_append] at hsplit
    rw [if_pos hnone, hsplit]
    rfl

/-- Bytes are read as what they were printed for, unless no quote closes them and what follows is read
as a part of them. -/
theorem readBytes_literal_iff (d : Dialect) (bytes : List UInt8) (hrest : rest.head? ≠ some '\'') :
    d.readBytes? ((d.binaryLiteral bytes).toList ++ rest) = some (bytes, rest) ↔
      ¬d.ContinuesBytes rest := by
  have hquoted (opening : String) :
      readQuotedHex opening ((opening ++ hex bytes ++ "'").toList ++ rest) = some (bytes, rest) := by
    have htext : (opening ++ hex bytes ++ "'").toList ++ rest =
        opening.toList ++ ((hex bytes).toList ++ '\'' :: rest) := by
      simp
    rw [htext, readQuotedHex_hex opening bytes hrest]
  have halone (hd : d ≠ sqlServer ∧ d ≠ postgreSql) : ¬d.ContinuesBytes rest := by
    rintro ⟨c, -, h | h⟩
    · exact hd.1 h.1
    · exact hd.2 h.1
  cases d with
  | generic => exact iff_of_true (hquoted "X'") (halone (by decide))
  | sqlite => exact iff_of_true (hquoted "X'") (halone (by decide))
  | db2 => exact iff_of_true (hquoted "BX'") (halone (by decide))
  | sqlServer =>
    rw [readBytes_sqlServer_iff, takeWhile_eq_nil_iff_head]
    simp [ContinuesBytes]
  | postgreSql =>
    rw [readBytes_postgreSql_iff, takeWhile_eq_nil_iff_head]
    simp [ContinuesBytes]

/-- What may follow a literal that is not a quote: the text of every text and of all bytes is read as
the value it was printed for, up to what follows, unless that continues it. -/
theorem read_literal_iff (d : Dialect) (type : SqlType) (hrest : rest.head? ≠ some '\'') :
    (∀ s, ∃ text, d.literal? (.text s) type = some text ∧
      (d.readText? (text.toList ++ rest) = some (s, rest) ↔ ¬d.ContinuesText rest)) ∧
    ∀ bytes, ∃ text, d.literal? (.binary bytes) type = some text ∧
      (d.readBytes? (text.toList ++ rest) = some (bytes, rest) ↔ ¬d.ContinuesBytes rest) :=
  ⟨fun s => ⟨_, rfl, readText_literal_iff d type s hrest⟩,
    fun bytes => ⟨_, rfl, readBytes_literal_iff d bytes hrest⟩⟩

/-- Literals that what follows continues: bytes that no quote closes, the type that a text is
converted to, and a text that another one joins behind a line break. -/
theorem read_continued_literals :
    sqlServer.literal? (.binary [10]) .undefined = some "0x0A" ∧
      sqlServer.readBytes? ("0x0A".toList ++ "FF".toList) = some ([10, 255], []) ∧
    postgreSql.literal? (.binary [10]) .undefined = some "'\\x0A'::bytea" ∧
      postgreSql.readBytes? ("'\\x0A'::bytea".toList ++ "FF".toList) = none ∧
    postgreSql.literal? (.text "a") .undefined = some "'a'" ∧
      postgreSql.readText? ("'a'".toList ++ "\n'b'".toList) = some ("ab", []) := by
  have hhex : hex [10] = "0A" := by
    rw [← String.toList_inj, toList_hex]
    decide
  refine ⟨?_, by decide, ?_, by decide, by decide, ?_⟩
  · rw [literal?, binaryLiteral, hhex]
    rfl
  · rw [literal?, binaryLiteral, hhex]
    rfl
  · simp [readText?, readTexts, readMarked, nextText?]

/-- A text with quotes and a backslash in it, and bytes, are read in the middle of a list. -/
theorem read_literal_in_list :
    (∃ text, sqlServer.literal? (.text "it's \\'") .undefined = some text ∧
      sqlServer.readText? (text.toList ++ [',']) = some ("it's \\'", [','])) ∧
    ∃ text, sqlServer.literal? (.binary [0, 255]) .undefined = some text ∧
      sqlServer.readBytes? (text.toList ++ [',']) = some ([0, 255], [',']) := by
  have hcomma : [','].head? ≠ some '\'' := by decide
  obtain ⟨htexts, hbytes⟩ := read_literal_iff sqlServer .undefined hcomma
  obtain ⟨text, hliteral, hread⟩ := htexts "it's \\'"
  obtain ⟨bytes, hliteral', hread'⟩ := hbytes [0, 255]
  refine ⟨⟨text, hliteral, hread.mpr ?_⟩, ⟨bytes, hliteral', hread'.mpr ?_⟩⟩
  · simp [ContinuesText]
  · simp [ContinuesBytes, isHexDigit, Text.hexValue?]

end Dialect

end SqlCompiler
