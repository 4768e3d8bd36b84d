import Mathlib.Data.List.TakeWhile
import SqlCompiler.Proofs.Searches.Patterns

/-!
# Case-sensitive searches in SQLite

`LIKE` of SQLite does not tell small ASCII letters from capital ones.  A case-sensitive search also
compares the part of the subject where the pattern should be: its first characters, its last ones, or
any of them.  How many characters these are is the `Length` of the pattern, which counts them up to the
first U+0000, and the last ones are read from `-Length(pattern)` on.  For an empty pattern this is
position zero, from which the whole subject is read: of the texts that end with the empty text only the
empty one is found.

Main results:

- Definitions `Sqlite.length`, `Sqlite.substr`, `Sqlite.inStr`: the functions of SQLite.
- Definition `Valuation.ReadsSqlite`: texts and whole numbers as SQLite reads them.
- Definition `SearchKind.missesInSqlite`: the subjects that a search holds of and does not find.
- Theorem `Dialect.caseSensitiveSearch_truth`: the truth of a search.
-/

namespace SqlCompiler

/-! ## Functions of SQLite -/

namespace Sqlite

/-- The number of characters before the first U+0000. -/
def length (s : String) : Nat := (s.toList.takeWhile (· != '\x00')).length

/-- The characters from a position on, at most so many of them.  Positions count from one, negative
ones from the end; zero stands before the first character, as a negative one may. -/
def substr (s : String) (position : Int) (count : Option Nat) : String :=
  let start : Int :=
    if 0 < position then position - 1
    else if position = 0 then -1
    else s.length + position
  let front : List Char :=
    match count with
    | some n => s.toList.take (start + n).toNat
    | none => s.toList
  String.ofList (front.drop start.toNat)

/-- The position of the first occurrence of a text in another one, zero if there is none. -/
def inStr (s pattern : String) : Nat :=
  match s.toList.tails.findIdx? pattern.toList.isPrefixOf with
  | some i => i + 1
  | none => 0

variable {s p : String}

theorem length_le (s : String) : length s ≤ s.toList.length :=
  (List.takeWhile_sublist _).length_le

theorem length_eq_iff : length s = s.toList.length ↔ '\x00' ∉ s.toList := by
  have hall : length s = s.toList.length ↔ ∀ c ∈ s.toList, (c != '\x00') = true := by
    have hfront : s.toList.takeWhile (· != '\x00') <+: s.toList := List.takeWhile_prefix _
    rw [← List.takeWhile_eq_self_iff]
    constructor
    · exact hfront.eq_of_length
    · exact congrArg List.length
  rw [hall]
  constructor
  · intro h hmem
    simpa using h _ hmem
  · intro h c hc
    exact bne_iff_ne.mpr fun heq => h (heq ▸ hc)

/-- The first characters are the pattern. -/
theorem substr_first_eq_iff : substr s 1 (some (length p)) = p ↔
    p.toList <+: s.toList ∧ '\x00' ∉ p.toList := by
  have hfirst : (substr s 1 (some (length p))).toList = s.toList.take (length p) := by
    simp [substr]
  rw [← String.toList_inj, hfirst, ← length_eq_iff]
  constructor
  · intro h
    have hfront : p.toList <+: s.toList := h ▸ List.take_prefix _ _
    have hle : p.toList.length ≤ length p := by
      rw [← h]
      exact List.length_take_le _ _
    exact ⟨hfront, Nat.le_antisymm (length_le p) hle⟩
  · rintro ⟨hfront, hlength⟩
    rw [hlength]
    exact (List.prefix_iff_eq_take.mp hfront).symm

/-- The last characters are the pattern, if there are some to count. -/
theorem substr_last_eq_iff (hlength : length p ≠ 0) : substr s (-length p) none = p ↔
    p.toList <:+ s.toList ∧ '\x00' ∉ p.toList := by
  have hnegative : ¬(0 : Int) < -length p ∧ -(length p : Int) ≠ 0 := by omega
  have hlast : (substr s (-length p) none).toList =
      s.toList.drop (s.toList.length - length p) := by
    have hstart : ((s.length : Int) + -length p).toNat = s.toList.length - length p := by
      rw [String.length_toList]
      omega
    rw [substr, if_neg hnegative.1, if_neg hnegative.2, String.toList_ofList, hstart]
  rw [← String.toList_inj, hlast, ← length_eq_iff]
  constructor
  · intro h
    have hsuffix : p.toList <:+ s.toList := h ▸ List.drop_suffix _ _
    have hle : p.toList.length ≤ length p := by
      have hdrop := List.length_drop (i := s.toList.length - length p) (l := s.toList)
      rw [h] at hdrop
      omega
    exact ⟨hsuffix, Nat.le_antisymm (length_le p) hle⟩
  · rintro ⟨hsuffix, heq⟩
    rw [heq]
    exact (List.suffix_iff_eq_drop.mp hsuffix).symm

/-- From position zero on, a text is read as a whole. -/
theorem substr_zero (s : String) : substr s 0 none = s := by
  simp [substr]

theorem inStr_pos_iff : 0 < inStr s p ↔ p.toList <:+: s.toList := by
  have hfound : 0 < inStr s p ↔
      (s.toList.tails.findIdx? p.toList.isPrefixOf).isSome = true := by
    unfold inStr
    cases s.toList.tails.findIdx? p.toList.isPrefixOf <;> simp
  rw [hfound, List.findIdx?_isSome, List.any_eq_true, List.infix_iff_prefix_suffix]
  simp only [List.mem_tails, List.isPrefixOf_iff_prefix, and_comm]

/-- The functions of SQLite on exact values. -/
def functions (name : String) (args : List ExactValue) : ExactValue :=
  match name, args with
  | "Length", [.text s] => .integer (length s)
  | "Substr", [.text s, .integer position, .integer count] =>
    .text (substr s position (some count.toNat))
  | "Substr", [.text s, .integer position] => .text (substr s position none)
  | "InStr", [.text s, .text pattern] => .integer (inStr s pattern)
  | _, _ => .nothing

end Sqlite

/-- Texts and whole numbers as SQLite reads them. -/
structure Valuation.ReadsSqlite {V : Type} (R : Valuation V) extends R.ReadsTexts .sqlite where
  integer : Int → V
  integerConstant : ∀ type n, R.constant ⟨type, .integer n⟩ = integer n
  negate : ∀ type n, R.raw "-{0}" type [integer n] = integer (-n)
  length : ∀ type s, R.function "Length" type [text s] = integer (Sqlite.length s)
  substr : ∀ type s position (count : Nat),
    R.function "Substr" type [text s, integer position, integer count] =
      text (Sqlite.substr s position (some count))
  substrRest : ∀ type s position,
    R.function "Substr" type [text s, integer position] = text (Sqlite.substr s position none)
  inStr : ∀ type s pattern,
    R.function "InStr" type [text s, text pattern] = integer (Sqlite.inStr s pattern)
  equal : ∀ a b, R.compare .equal (text a) (text b) = some (a == b)
  greater : ∀ a b, R.compare .greater (integer a) (integer b) = some (decide (b < a))

/-- Exact values are read so. -/
def Valuation.exactTexts_readsSqlite : (exactTexts .sqlite Sqlite.functions).ReadsSqlite where
  toReadsTexts := exactTexts_reads .sqlite Sqlite.functions
  integer := .integer
  integerConstant _ _ := rfl
  negate _ _ := rfl
  length _ _ := rfl
  substr _ _ _ _ := rfl
  substrRest _ _ _ := rfl
  inStr _ _ _ := rfl
  equal _ _ := rfl
  greater _ _ := rfl

/-! ## Searches -/

/-- A search holds of texts with letters changed if it holds of the texts. -/
theorem SearchKind.holds_map {kind : SearchKind} {pattern subject : List Char} (fold : Char → Char)
    (h : kind.holds pattern subject = true) :
    kind.holds (pattern.map fold) (subject.map fold) = true := by
  cases kind with
  | startsWith => exact decide_eq_true ((of_decide_eq_true h : pattern <+: subject).map fold)
  | endsWith => exact decide_eq_true ((of_decide_eq_true h : pattern <:+ subject).map fold)
  | contains => exact decide_eq_true ((of_decide_eq_true h : pattern <:+: subject).map fold)

/-- Whether a case-sensitive search does not find a subject that it holds of: the pattern has a U+0000,
behind which no characters are counted, or there are none to count at the end of the subject. -/
def SearchKind.missesInSqlite (kind : SearchKind) (pattern subject : String) : Bool :=
  match kind with
  | .startsWith => pattern.toList.contains '\x00'
  | .endsWith =>
    if Sqlite.length pattern == 0 then pattern != subject else pattern.toList.contains '\x00'
  | .contains => false

/-- One predicate, or not another one. -/
theorem truthIn_negateLast_disjoin {V : Type} {R : Valuation V} {P : Place V} (p q : Predicate) :
    (⟨negateLast ((Condition.ofPredicate p).disjoin q).branches⟩ : Condition).truthIn R P =
      Truth.or (p.truthIn R P) (Truth.not (q.truthIn R P)) := by
  simp [Condition.truthIn_eq, Condition.truthBy, Condition.ofPredicate, Condition.disjoin,
    Condition.joinLast, negateLast, truthOfBranches, Branch.truthBy, Condition.branch]

section

variable {V : Type} {R : Valuation V} {P : Place V} (S : R.ReadsSqlite)
  {operand pattern : Scalar} {s subject : String}
include S

/-- The part of a subject that is compared is the pattern where the search holds, unless the search
misses it. -/
theorem caseSensitiveCheck_truth (hpattern : pattern.valueIn R P = S.text s)
    (hoperand : operand.valueIn R P = S.text subject) (kind : SearchKind) :
    (caseSensitiveCheck kind operand pattern).truthIn R P =
      some (kind.holds s.toList subject.toList && !kind.missesInSqlite s subject) := by
  have hlength : (Scalar.call "Length" [pattern] .int32).valueIn R P =
      S.integer (Sqlite.length s) := by
    rw [← S.length .int32, ← hpattern]
    rfl
  cases kind with
  | startsWith =>
    have hpart : (Scalar.call "Substr"
        [operand, .int 1, .call "Length" [pattern] .int32] .nVarChar).valueIn R P =
          S.text (Sqlite.substr subject 1 (some (Sqlite.length s))) := by
      rw [← S.substr .nVarChar, ← hoperand, ← hlength, ← S.integerConstant .int32]
      rfl
    change R.compare .equal _ _ = _
    rw [hpart, hpattern, S.equal]
    refine congrArg some (Bool.eq_iff_iff.mpr ?_)
    rw [beq_iff_eq, Sqlite.substr_first_eq_iff]
    simp [SearchKind.holds, SearchKind.missesInSqlite]
  | endsWith =>
    have hpart : (Scalar.call "Substr"
        [operand, .raw "-{0}" [.call "Length" [pattern] .int32] .int32 .unary]
          .nVarChar).valueIn R P = S.text (Sqlite.substr subject (-Sqlite.length s) none) := by
      rw [← S.substrRest .nVarChar, ← hoperand, ← S.negate .int32, ← hlength]
      rfl
    change R.compare .equal _ _ = _
    rw [hpart, hpattern, S.equal]
    refine congrArg some (Bool.eq_iff_iff.mpr ?_)
    by_cases hnone : Sqlite.length s = 0
    · -- the subject is compared as a whole
      have hwhole : Sqlite.substr subject (-Sqlite.length s) none = subject := by
        rw [hnone]
        exact Sqlite.substr_zero subject
      have hsuffix : s = subject → s.toList <:+ subject.toList := by
        rintro rfl
        exact List.suffix_refl _
      rw [hwhole, beq_iff_eq, eq_comm]
      simpa [SearchKind.holds, SearchKind.missesInSqlite, hnone] using hsuffix
    · rw [beq_iff_eq, Sqlite.substr_last_eq_iff hnone]
      simp [SearchKind.holds, SearchKind.missesInSqlite, hnone]
  | contains =>
    have hposition : (Scalar.call "InStr" [operand, pattern] .int32).valueIn R P =
        S.integer (Sqlite.inStr subject s) := by
      rw [← S.inStr .int32, ← hoperand, ← hpattern]
      rfl
    have hzero : (Scalar.int 0).valueIn R P = S.integer 0 := S.integerConstant _ 0
    change R.compare .greater _ _ = _
    rw [hposition, hzero, S.greater]
    refine congrArg some (Bool.eq_iff_iff.mpr ?_)
    rw [decide_eq_true_eq, Int.natCast_pos, Sqlite.inStr_pos_iff]
    simp [SearchKind.holds, SearchKind.missesInSqlite]

/-- A case-sensitive search is true of the subjects that it holds of and does not miss, and false of
all others; negated, it is the other way round. -/
theorem Dialect.caseSensitiveSearch_truth (hpattern : pattern.valueIn R P = S.text s)
    (hoperand : operand.valueIn R P = S.text subject) (kind : SearchKind) (negated : Bool) :
    (sqlite.legalSearch (.search operand kind pattern true negated)).truthIn R P =
      Truth.signed negated
        (some (kind.holds s.toList subject.toList && !kind.missesInSqlite s subject)) := by
  have hlike : (sqlite.likeSearch operand kind pattern negated).truthIn R P = Truth.signed negated
      (some (kind.holds (s.toList.map sqlite.likeFold) (subject.toList.map sqlite.likeFold))) := by
    rw [likeSearch_truth S.toReadsTexts hpattern hoperand,
      (likeText_likePattern_iff S.toReadsTexts hpattern kind).mpr rfl]
  have hcheck := caseSensitiveCheck_truth S hpattern hoperand kind
  -- where the part is compared as equal, `LIKE` finds the pattern too
  have hboth : (kind.holds (s.toList.map sqlite.likeFold) (subject.toList.map sqlite.likeFold) &&
      (kind.holds s.toList subject.toList && !kind.missesInSqlite s subject)) =
        (kind.holds s.toList subject.toList && !kind.missesInSqlite s subject) := by
    cases hholds : kind.holds s.toList subject.toList with
    | false => simp
    | true => rw [SearchKind.holds_map sqlite.likeFold hholds, Bool.true_and]
  rw [← hboth]
  rw [← Truth.some_and_some]
  cases negated with
  | false =>
    change ((Condition.ofPredicate _).conjoin _).truthIn R P = _
    rw [Condition.truthIn_eq, Condition.truthBy_conjoin Condition.truthIn_eq rfl,
      Condition.truthBy_ofPredicate, hlike, hcheck]
    rfl
  | true =>
    change Condition.truthIn R P ⟨negateLast _⟩ = _
    rw [truthIn_negateLast_disjoin, hlike, hcheck]
    simp only [Truth.signed, if_true, Truth.not_or_not]

end

/-- Texts that start with `Ab` are not those that start with `ab`.  `abc` ends with the empty text,
which is not found. -/
theorem Dialect.caseSensitiveSearch_truth_abc :
    let R := Valuation.exactTexts sqlite Sqlite.functions
    ∀ P : Place ExactValue,
      (sqlite.legalSearch (.search (.text "Abc") .startsWith (.text "Ab") true false)).truthIn R P =
          some true ∧
        (sqlite.legalSearch (.search (.text "abc") .startsWith (.text "Ab") true false)).truthIn R P =
          some false ∧
        SearchKind.endsWith.holds "".toList "abc".toList = true ∧
        (sqlite.legalSearch (.search (.text "abc") .endsWith (.text "") true false)).truthIn R P =
          some false := by
  intro R P
  have hvalue (text : String) :
      (Scalar.text text).valueIn R P = Valuation.exactTexts_readsSqlite.text text := rfl
  have htruth (kind : SearchKind) (pattern subject : String) :=
    caseSensitiveSearch_truth Valuation.exactTexts_readsSqlite (hvalue pattern) (hvalue subject) kind
      false
  refine ⟨?_, ?_, by decide, ?_⟩
  · exact (htruth .startsWith "Ab" "Abc").trans (by decide)
  · exact (htruth .startsWith "Ab" "abc").trans (by decide)
  · exact (htruth .endsWith "" "abc").trans (by decide)

end SqlCompiler
