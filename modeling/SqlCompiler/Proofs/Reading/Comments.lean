import Mathlib.Data.List.Basic
import SqlCompiler.Proofs.Columns.FreeNames
import SqlCompiler.Proofs.Reading.Literals

/-!
# Where a text opens a comment

Two minus signs, one right behind the other, open a comment, unless they stand in a literal or in a
quoted name.  A reader that only looks for that needs to know whether it is between marks and whether
it has just read a minus sign.  The literals of the dialects are read without a comment, and a
minus sign stands at most at their start or inside them.

Main results:

- Definition `Dialect.readOn`: a text, read from a state on.
- Definition `Dialect.opensComment`: somewhere in a text a comment begins.
- Definition `Dialect.isQuiet`: an operand that is read to its end without one.
- Theorem `Dialect.isQuiet_literal`: every literal is quiet but a decimal number, whose text is given.
-/

namespace SqlCompiler

/-- What a reader of printed text knows of what it has read. -/
inductive ReadingState where
  | plain
  /-- A minus sign has been read last. -/
  | minus
  /-- A mark is open; it is closed by the given one. -/
  | marked (last : Char)
  | comment
  deriving DecidableEq, Repr

namespace Dialect

/-! ## Reading on -/

/-- The mark that closes what a mark opens.  A closing mark that is written twice goes on with what it
closed; SQLite has no brackets inside brackets. -/
def closing? (d : Dialect) (c : Char) : Option Char :=
  if c == '\'' || c == '"' then some c
  else if c == '[' && (d == sqlServer || d == sqlite) then some ']'
  else if c == ']' && d == sqlServer then some ']'
  else none

/-- Read a character. -/
def readNext (d : Dialect) : ReadingState → Char → ReadingState
  | .comment, _ => .comment
  | .marked last, c => if c == last then .plain else .marked last
  | .plain, c => if c == '-' then .minus else (d.closing? c).elim .plain .marked
  | .minus, c => if c == '-' then .comment else (d.closing? c).elim .plain .marked

/-- Read a text. -/
def readOn (d : Dialect) (state : ReadingState) (text : List Char) : ReadingState :=
  text.foldl d.readNext state

/-- Whether a comment begins in a text. -/
def opensComment (d : Dialect) (text : String) : Bool :=
  d.readOn .plain text.toList == .comment

/-- Whether a text is something that is read to its end without a comment. -/
def isQuiet (d : Dialect) (text : String) : Bool :=
  !text.isEmpty && d.readOn .plain text.toList == .plain

/-- Whether a character is neither a minus sign nor a mark. -/
def isCalm (d : Dialect) (c : Char) : Bool :=
  c != '-' && (d.closing? c).isNone

variable {d : Dialect} {state : ReadingState} {text rest : List Char} {c : Char}

theorem readOn_append :
    d.readOn state (text ++ rest) = d.readOn (d.readOn state text) rest :=
  List.foldl_append

theorem readOn_cons : d.readOn state (c :: text) = d.readOn (d.readNext state c) text := rfl

@[simp]
theorem readOn_nil : d.readOn state [] = state := rfl

/-- A comment goes on. -/
@[simp]
theorem readOn_comment (text : List Char) : d.readOn .comment text = .comment := by
  induction text with
  | nil => rfl
  | cons c text ih => exact ih

/-- Behind a minus sign, only another one is read differently. -/
theorem readOn_minus (h : text ≠ []) (hsign : text.head? ≠ some '-') :
    d.readOn .minus text = d.readOn .plain text := by
  cases text with
  | nil => exact absurd rfl h
  | cons c text =>
    have hc : (c == '-') = false := beq_false_of_ne fun heq => hsign (heq ▸ rfl)
    simp only [readOn_cons, readNext, hc, Bool.false_eq_true, if_false]

theorem readOn_minus_sign (hsign : text.head? = some '-') :
    d.readOn .minus text = .comment := by
  obtain ⟨rest, rfl⟩ := List.head?_eq_some_iff.mp hsign
  exact readOn_comment rest

theorem readNext_calm (h : d.isCalm c = true) : d.readNext .plain c = .plain := by
  simp only [isCalm, Bool.and_eq_true, bne_iff_ne, Option.isNone_iff_eq_none] at h
  simp [readNext, h.1, h.2]

theorem readOn_calm (h : ∀ c ∈ text, d.isCalm c = true) : d.readOn .plain text = .plain := by
  induction text with
  | nil => rfl
  | cons c text ih =>
    obtain ⟨hc, htext⟩ := List.forall_mem_cons.mp h
    rw [readOn_cons, readNext_calm hc, ih htext]

/-! ## Texts between marks -/

theorem readOn_marked {last : Char} (h : last ∉ text) :
    d.readOn (.marked last) text = .marked last := by
  induction text with
  | nil => rfl
  | cons c text ih =>
    have hc : (c == last) = false := beq_false_of_ne fun heq => h (heq ▸ List.mem_cons_self)
    rw [readOn_cons, readNext, hc, if_neg Bool.false_ne_true]
    exact ih fun hmem => h (List.mem_cons_of_mem c hmem)

/-- What is between quotes ends at the one that is not doubled. -/
theorem readOn_doubleMarks {mark : Char} (hmark : d.closing? mark = some mark)
    (hne : mark ≠ '-') (s : List Char) :
    d.readOn (.marked mark) (doubleMarks mark s) = .marked mark := by
  induction s with
  | nil => rfl
  | cons c s ih =>
    have htext : doubleMarks mark (c :: s) =
        (if c == mark then [c, c] else [c]) ++ doubleMarks mark s := rfl
    rw [htext, readOn_append]
    by_cases hc : c = mark
    · subst hc
      rw [if_pos (beq_self_eq_true c)]
      simpa [readOn_cons, readNext, hmark, hne] using ih
    · rw [if_neg (by simpa using hc)]
      simpa [readOn_cons, readNext, hc] using ih

/-- A text in quotes, behind a calm prefix and before a calm suffix, is read to its end. -/
theorem readOn_quoted {opening inner suffix : List Char}
    (hopening : ∀ c ∈ opening, d.isCalm c = true) (hsuffix : ∀ c ∈ suffix, d.isCalm c = true)
    (hinner : d.readOn (.marked '\'') inner = .marked '\'') :
    d.readOn .plain (opening ++ '\'' :: (inner ++ '\'' :: suffix)) = .plain := by
  have hopen : d.readNext .plain '\'' = .marked '\'' := rfl
  have hclose : d.readNext (.marked '\'') '\'' = .plain := rfl
  rw [readOn_append, readOn_calm hopening, readOn_cons, hopen, readOn_append, hinner, readOn_cons,
    hclose, readOn_calm hsuffix]

/-! ## Numbers -/

/-- Nothing but a sign in front makes a number begin with one. -/
structure IsUnsigned (d : Dialect) (text : List Char) : Prop where
  ne_nil : text ≠ []
  sign : text.head? ≠ some '-'
  read : d.readOn .plain text = .plain

theorem isQuiet_iff {text : String} :
    d.isQuiet text = true ↔ text.toList ≠ [] ∧ d.readOn .plain text.toList = .plain := by
  simp [isQuiet]

/-- Letters, digits and whatever else excludes the sign and the marks. -/
theorem isCalm_of (p : Char → Bool) (h : p c = true)
    (hmarks : ['-', '\'', '"', '[', ']'].any p = false) : d.isCalm c = true := by
  have hne (mark : Char) (hmem : mark ∈ ['-', '\'', '"', '[', ']']) : (c == mark) = false :=
    beq_false_of_ne fun heq => List.any_eq_false.mp hmarks mark hmem (heq ▸ h)
  have h1 := hne '-' (by decide)
  have h2 := hne '\'' (by decide)
  have h3 := hne '"' (by decide)
  have h4 := hne '[' (by decide)
  have h5 := hne ']' (by decide)
  simp [isCalm, closing?, bne, h1, h2, h3, h4, h5]

theorem isCalm_of_isDigit (h : c.isDigit = true) : d.isCalm c = true :=
  isCalm_of Char.isDigit h (by decide)

/-- Calm characters are no sign. -/
theorem IsUnsigned.of_calm (hne : text ≠ []) (h : ∀ c ∈ text, d.isCalm c = true) :
    d.IsUnsigned text where
  ne_nil := hne
  sign hsign := by
    have hcalm := h '-' (List.mem_of_mem_head? hsign)
    simp [isCalm] at hcalm
  read := readOn_calm h

/-- A number goes on with one that may be signed. -/
theorem IsUnsigned.append (h : d.IsUnsigned text) (hrest : d.readOn .plain rest = .plain) :
    d.IsUnsigned (text ++ rest) where
  ne_nil := List.append_ne_nil_of_left_ne_nil h.ne_nil rest
  sign := by
    rw [List.head?_append_of_ne_nil _ h.ne_nil]
    exact h.sign
  read := by rw [readOn_append, h.read, hrest]

/-- A number with or without a sign in front. -/
theorem IsUnsigned.signed (h : d.IsUnsigned text) (negative : Bool) :
    d.readOn .plain ((if negative then ['-'] else []) ++ text) = .plain := by
  cases negative with
  | false => exact h.read
  | true => exact (readOn_minus h.ne_nil h.sign).trans h.read

theorem isCalm_of_mem_toString {n : Nat} (h : c ∈ (toString n).toList) : d.isCalm c = true :=
  isCalm_of_isDigit (Text.isDigit_of_mem_toString h)

theorem isUnsigned_toString (d : Dialect) (n : Nat) : d.IsUnsigned (toString n).toList := by
  refine .of_calm ?_ fun _ => isCalm_of_mem_toString
  rw [Nat.toString_eq_ofList_toDigits, String.toList_ofList]
  exact Nat.toDigits_ne_nil

theorem toList_toString_int (i : Int) :
    (toString i).toList = (if i < 0 then ['-'] else []) ++ (toString i.natAbs).toList := by
  cases i with
  | ofNat n => rfl
  | negSucc n =>
    rw [if_pos (Int.negSucc_lt_zero n)]
    change ("-" ++ toString (n + 1)).toList = _
    rw [String.toList_append]
    rfl

theorem readOn_toString_int (d : Dialect) (i : Int) :
    d.readOn .plain (toString i).toList = .plain := by
  have h := (isUnsigned_toString d i.natAbs).signed (decide (i < 0))
  rw [toList_toString_int]
  simpa using h

/-- The digits of a decimal, with the point in its place. -/
theorem isUnsigned_positional (d : Dialect) (style : Text.FloatStyle) (x : Text.Decimal) :
    d.IsUnsigned (style.positional x).toList := by
  have hzeros (n : Nat) (c : Char) (h : c ∈ (Text.FloatStyle.zeros n).toList) :
      d.isCalm c = true := by
    rw [Text.FloatStyle.zeros, String.toList_ofList] at h
    rw [List.eq_of_mem_replicate h]
    exact isCalm_of_isDigit rfl
  have hpoint (c : Char) (h : c = '.' ∨ c = '0') : d.isCalm c = true := by
    rcases h with rfl | rfl
    · cases d <;> rfl
    · exact isCalm_of_isDigit rfl
  unfold Text.FloatStyle.positional
  dsimp only
  split
  · refine .of_calm (by simp) fun c hc => ?_
    simp only [String.toList_append, List.mem_append] at hc
    rcases hc with (hc | hc) | hc
    · exact hpoint c (by simpa [or_comm] using hc)
    · exact hzeros _ c hc
    · exact isCalm_of_mem_toString hc
  · split
    · have hne := (isUnsigned_toString d x.digits).ne_nil
      refine .of_calm (by simp only [String.toList_append, ne_eq, List.append_eq_nil_iff, hne,
        false_and, not_false_eq_true]) fun c hc => ?_
      simp only [String.toList_append, List.mem_append] at hc
      rcases hc with (hc | hc) | hc
      · exact isCalm_of_mem_toString hc
      · exact hzeros _ c hc
      · refine hpoint c ?_
        split at hc
        · simpa using hc
        · simp at hc
    · refine .of_calm (by simp) fun c hc => ?_
      simp only [String.toList_append, String.toList_ofList, List.mem_append] at hc
      rcases hc with (hc | hc) | hc
      · exact isCalm_of_mem_toString (List.mem_of_mem_take hc)
      · exact hpoint c (.inl (by simpa using hc))
      · exact isCalm_of_mem_toString (List.mem_of_mem_drop hc)

/-- One digit, the point, the other digits and an exponent, which may be signed. -/
theorem isUnsigned_withExponent (d : Dialect) (x : Text.Decimal) :
    d.IsUnsigned (Text.FloatStyle.withExponent x).toList := by
  have hletters (c : Char) (h : c = '.' ∨ c = 'e') : d.isCalm c = true := by
    rcases h with rfl | rfl <;> cases d <;> rfl
  have hne := (isUnsigned_toString d x.digits).ne_nil
  unfold Text.FloatStyle.withExponent
  split
  · next hnil => exact absurd hnil hne
  · next first hfirst =>
    rw [String.toList_append]
    refine .append (.of_calm (by simp) fun c hc => ?_) (readOn_toString_int d _)
    simp only [String.toList_append, String.toList_singleton, List.mem_append,
      List.mem_singleton] at hc
    rcases hc with rfl | hc
    · exact isCalm_of_mem_toString (n := x.digits) (hfirst ▸ List.mem_cons_self)
    · exact hletters c (.inr (by simpa using hc))
  · next first rest _ hfirst =>
    rw [String.toList_append]
    refine .append (.of_calm (by simp) fun c hc => ?_) (readOn_toString_int d _)
    simp only [String.toList_append, String.toList_singleton, String.toList_ofList,
      List.mem_append, List.mem_singleton] at hc
    rcases hc with ((rfl | hc) | hc) | hc
    · exact isCalm_of_mem_toString (n := x.digits) (hfirst ▸ List.mem_cons_self)
    · exact hletters c (.inl (by simpa using hc))
    · exact isCalm_of_mem_toString (n := x.digits) (hfirst ▸ List.mem_cons_of_mem first hc)
    · exact hletters c (.inr (by simpa using hc))

/-- A floating point number is quiet. -/
theorem isQuiet_float (d : Dialect) (style : Text.FloatStyle) (x : Float) :
    d.isQuiet (style.text x) = true := by
  have hfixed (text : String) (h : text = "NaN" ∨ text = "inf" ∨ text = "-inf") :
      d.isQuiet text = true := by
    rcases h with rfl | rfl | rfl <;> cases d <;> decide
  unfold Text.FloatStyle.text
  split
  · exact hfixed _ (.inl rfl)
  · split
    · split
      · exact hfixed _ (.inr (.inr rfl))
      · exact hfixed _ (.inr (.inl rfl))
    · have hbody (binary : Text.Binary64) (exponent : Bool) : d.IsUnsigned
          (if exponent then Text.FloatStyle.withExponent binary.shortest
            else style.positional binary.shortest).toList := by
        cases exponent with
        | false => exact isUnsigned_positional d style _
        | true => exact isUnsigned_withExponent d _
      have hsigned (negative : Bool) {body : String} (h : d.IsUnsigned body.toList) :
          d.isQuiet ((if negative then "-" else "") ++ body) = true := by
        have hread := h.signed negative
        refine isQuiet_iff.mpr ⟨by simp [h.ne_nil], ?_⟩
        rw [String.toList_append]
        cases negative with
        | false => exact hread
        | true => exact hread
      exact hsigned _ (hbody _ _)

/-! ## Texts, bytes and dates -/

/-- What stands between quotes without one inside. -/
theorem isQuiet_enquoted {inner : String} (h : '\'' ∉ inner.toList) :
    d.isQuiet ("'" ++ inner ++ "'") = true := by
  have htext : ("'" ++ inner ++ "'").toList = [] ++ '\'' :: (inner.toList ++ '\'' :: []) := by simp
  refine isQuiet_iff.mpr ⟨by simp, ?_⟩
  rw [htext]
  exact readOn_quoted (List.forall_mem_nil _) (List.forall_mem_nil _) (readOn_marked h)

theorem isQuiet_text (d : Dialect) (type : SqlType) (s : String) :
    d.isQuiet (d.textPrefix type ++ quoted s) = true := by
  have htext : (d.textPrefix type ++ quoted s).toList =
      (d.textPrefix type).toList ++ '\'' :: (doubleMarks '\'' s.toList ++ '\'' :: []) := by
    rw [quoted, String.toList_append, String.toList_append, String.toList_append, toList_doubled]
    simp
  have hcalm : ∀ c ∈ (d.textPrefix type).toList, d.isCalm c = true := by
    unfold textPrefix
    split <;> simp <;> rfl
  refine isQuiet_iff.mpr ⟨by simp [htext], ?_⟩
  rw [htext]
  exact readOn_quoted hcalm (List.forall_mem_nil _) (readOn_doubleMarks rfl (by decide) s.toList)

theorem isQuiet_bytes (d : Dialect) (bytes : List UInt8) :
    d.isQuiet (d.binaryLiteral bytes) = true := by
  have hquote : '\'' ∉ (hex bytes).toList := fun h => absurd (isHexDigit_hex h) (by decide)
  have hmarked {d : Dialect} {text : String} {opening inner suffix : List Char}
      (htext : text.toList = opening ++ '\'' :: (inner ++ '\'' :: suffix))
      (hopening : ∀ c ∈ opening, d.isCalm c = true) (hsuffix : ∀ c ∈ suffix, d.isCalm c = true)
      (hinner : '\'' ∉ inner) : d.isQuiet text = true := by
    refine isQuiet_iff.mpr ⟨by simp [htext], ?_⟩
    rw [htext]
    exact readOn_quoted hopening hsuffix (readOn_marked hinner)
  have hnothing {d : Dialect} : ∀ c ∈ [], d.isCalm c = true := List.forall_mem_nil _
  cases d with
  | sqlServer =>
    have hcalm : ∀ c ∈ "0x".toList ++ (hex bytes).toList, sqlServer.isCalm c = true := by
      rw [List.forall_mem_append]
      exact ⟨List.all_eq_true.mp (by decide),
        fun c h => isCalm_of isHexDigit (isHexDigit_hex h) (by decide)⟩
    rw [isQuiet_iff, binaryLiteral, String.toList_append]
    exact ⟨by simp, readOn_calm hcalm⟩
  | postgreSql =>
    have htext : (postgreSql.binaryLiteral bytes).toList =
        [] ++ '\'' :: (('\\' :: 'x' :: (hex bytes).toList) ++ '\'' :: "::bytea".toList) := by
      simp [binaryLiteral]
    exact hmarked htext hnothing (List.all_eq_true.mp (by decide)) (by simp [hquote])
  | db2 =>
    have hletters : ∀ c ∈ ['B', 'X'], db2.isCalm c = true := List.all_eq_true.mp (by decide)
    exact hmarked (by simp [binaryLiteral]) hletters hnothing hquote
  | generic =>
    have hletter : ∀ c ∈ ['X'], generic.isCalm c = true := List.all_eq_true.mp (by decide)
    exact hmarked (by simp [binaryLiteral]) hletter hnothing hquote
  | sqlite =>
    have hletter : ∀ c ∈ ['X'], sqlite.isCalm c = true := List.all_eq_true.mp (by decide)
    exact hmarked (by simp [binaryLiteral]) hletter hnothing hquote

/-! ## Dates and times -/

theorem isDigit_of_mem_paddedDigits {width n : Nat} (h : c ∈ (paddedDigits width n).toList) :
    c.isDigit = true := by
  unfold paddedDigits at h
  simp only [String.toList_append, String.toList_ofList, List.mem_append] at h
  rcases h with h | h
  · rw [List.eq_of_mem_replicate h]
    rfl
  · exact Text.isDigit_of_mem_toString h

/-- A number has no quote. -/
theorem quote_notMem_paddedDigits (width n : Nat) : '\'' ∉ (paddedDigits width n).toList :=
  fun h => absurd (isDigit_of_mem_paddedDigits h) (by decide)

theorem quote_notMem_date (x : Date) : '\'' ∉ x.text.toList := by
  have hyear : '\'' ∉ x.yearText.toList := by
    unfold Date.yearText
    split
    · exact quote_notMem_paddedDigits _ _
    · split <;> simp [quote_notMem_paddedDigits]
  simp [Date.text, hyear, quote_notMem_paddedDigits]

theorem quote_notMem_time (x : TimeOfDay) : '\'' ∉ x.text.toList := by
  have hfraction (nanos : Nat) : '\'' ∉ (fractionText nanos).toList := by
    unfold fractionText
    split
    · simp
    · split
      · simp [quote_notMem_paddedDigits]
      · split <;> simp [quote_notMem_paddedDigits]
  simp [TimeOfDay.text, hfraction, quote_notMem_paddedDigits]

theorem quote_notMem_timestamp (x : Timestamp) : '\'' ∉ x.text.toList := by
  simp [Timestamp.text, quote_notMem_date, quote_notMem_time]

/-! ## Literals -/

/-- Every literal is read to its end without a comment.  A decimal number is printed as the text it is
given by. -/
theorem isQuiet_literal {value : Constant} {type : SqlType} {text : String}
    (h : d.literal? value type = some text)
    (hdecimal : ∀ s, value = .decimal s → d.isQuiet s = true) : d.isQuiet text = true := by
  cases value with
  | null =>
    cases h
    cases d <;> decide
  | boolean b =>
    cases h
    cases d <;> cases b <;> decide
  | integer i =>
    cases h
    refine isQuiet_iff.mpr ⟨?_, readOn_toString_int d i⟩
    rw [toList_toString_int]
    exact List.append_ne_nil_of_right_ne_nil _ (isUnsigned_toString d i.natAbs).ne_nil
  | float x =>
    simp only [literal?] at h
    split at h
    · cases h
      exact isQuiet_float d _ x
    · cases h
  | decimal s =>
    cases h
    exact hdecimal _ rfl
  | text s =>
    cases h
    exact isQuiet_text d type s
  | binary bytes =>
    cases h
    exact isQuiet_bytes d bytes
  | date x =>
    cases h
    exact isQuiet_enquoted (quote_notMem_date x)
  | time x =>
    cases h
    exact isQuiet_enquoted (quote_notMem_time x)
  | timestamp x =>
    cases h
    exact isQuiet_enquoted (quote_notMem_timestamp x)
  | list items => cases h
  | record members => cases h

end Dialect

end SqlCompiler
