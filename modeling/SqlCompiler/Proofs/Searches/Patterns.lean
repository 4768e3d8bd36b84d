import Mathlib.Data.List.Nodup
import SqlCompiler.Proofs.Searches.Like
import SqlCompiler.Proofs.Semantics.Comparisons
import SqlCompiler.Text.Template

/-!
# Patterns of searches

A search becomes a `LIKE`.  Where the pattern is known, its special characters are escaped here; where
only the database knows it, nested calls of `Replace` escape it there, the escape character first.
Both come to the same pattern, and `LIKE` holds of the subjects that the search holds of.  The `ESCAPE`
clause is left out where nothing is escaped; in PostgreSQL a backslash escapes something all the same.

Main results:

- Definition `Valuation.ReadsTexts`: texts, `Replace`, the operator that joins texts and `LIKE` are
  what the databases of a dialect make of them.
- Theorem `escapeLikeScalar_value`: nested calls of `Replace` escape a pattern.
- Definition `Dialect.misreadsSearch`: the searches whose pattern is misread.
- Theorem `Dialect.likeSearch_exact_iff`: all forms of a pattern have one value, and searches that are
  not misread are exact, while the others are not.
-/

namespace SqlCompiler

/-! ## Replacing characters -/

/-- Every occurrence of a character is replaced. -/
theorem Text.toList_replaceAll_singleton (s : String) (c : Char) (new : String) :
    (replaceAll s (String.singleton c) new).toList =
      s.toList.flatMap fun x => if x == c then new.toList else [x] := by
  have hreplace (l : List Char) : replaceFrom [c] new.toList 0 l =
      l.flatMap fun x => if x == c then new.toList else [x] := by
    induction l with
    | nil => rfl
    | cons x rest ih =>
      by_cases hx : x = c
      · subst hx
        simp [replaceFrom, ih]
      · simp [replaceFrom, ih, hx, Ne.symm hx]
  have hsome : (String.singleton c).isEmpty = false := by simp
  rw [replaceAll, hsome, if_neg Bool.false_ne_true, String.toList_ofList, String.toList_singleton,
    hreplace]

/-- The escape character is escaped before any other one. -/
theorem replaceAll_escape (escape : Char) (s : String) :
    Text.replaceAll s (String.singleton escape) (String.ofList [escape, escape]) =
      escapeLike [escape] escape s := by
  rw [← String.toList_inj, Text.toList_replaceAll_singleton, escapeLike, String.toList_ofList,
    String.toList_ofList]
  refine List.flatMap_congr fun x _ => ?_
  by_cases hx : x = escape
  · simp [hx]
  · simp [hx]

/-- One more character is escaped, which is neither the escape character nor escaped already. -/
theorem replaceAll_escapeLike {escape c : Char} {done : List Char}
    (hc : c ∉ done) (hne : c ≠ escape) (s : String) :
    Text.replaceAll (escapeLike done escape s) (String.singleton c) (String.ofList [escape, c]) =
      escapeLike (done ++ [c]) escape s := by
  rw [← String.toList_inj, Text.toList_replaceAll_singleton, escapeLike, escapeLike,
    String.toList_ofList, String.toList_ofList, String.toList_ofList, List.flatMap_assoc]
  refine List.flatMap_congr fun x _ => ?_
  by_cases hx : x = c
  · simp [hx, hc]
  · by_cases hdone : x ∈ done
    · simp [hx, hdone, Ne.symm hne]
    · simp [hx, hdone]

/-! ## Readings of texts -/

/-- Texts as the databases of a dialect read them. -/
structure Valuation.ReadsTexts {V : Type} (R : Valuation V) (d : Dialect) where
  text : String → V
  text_injective : ∀ a b, text a = text b → a = b
  constant : ∀ type s, R.constant ⟨type, .text s⟩ = text s
  parameter : ∀ p s, p.value = .text s → R.parameter p = text s
  replace : ∀ type s c new,
    R.function "Replace" type [text s, text (String.singleton c), text new] =
      text (Text.replaceAll s (String.singleton c) new)
  concat : ∀ type a b, R.binary d.concatOperator type (text a) (text b) = text (a ++ b)
  like : ∀ subject pattern escape,
    R.like (text subject) (text pattern) (escape.map text) = d.likeText subject pattern escape

/-- Exact values, with texts as the databases of a dialect read them.  What functions but `Replace` do
is given. -/
def Valuation.exactTexts (d : Dialect) (functions : String → List ExactValue → ExactValue) :
    Valuation ExactValue :=
  exact
    (fun name args =>
      match name, args with
      | "Replace", [.text s, .text pattern, .text new] => .text (Text.replaceAll s pattern new)
      | name, args => functions name args)
    (fun op a b =>
      match a, b with
      | .text a, .text b => if op == d.concatOperator then .text (a ++ b) else .nothing
      | a, b => ExactValue.binary op a b)
    d.likeText

/-- Texts are read so. -/
def Valuation.exactTexts_reads (d : Dialect) (functions : String → List ExactValue → ExactValue) :
    (exactTexts d functions).ReadsTexts d where
  text := .text
  text_injective _ _ h := ExactValue.text.inj h
  constant _ _ := rfl
  parameter p s hp := by
    change ExactValue.ofConstant p.value = _
    rw [hp]
    rfl
  replace _ _ _ _ := rfl
  concat _ a b := by
    change (if (d.concatOperator == d.concatOperator) = true then _ else _) = _
    rw [beq_self_eq_true, if_pos rfl]
  like _ _ escape := by cases escape <;> rfl

/-! ## Computed patterns -/

section

variable {V : Type} {R : Valuation V} {P : Place V} {d : Dialect} (T : R.ReadsTexts d)
  {pattern : Scalar} {s : String}
include T

theorem valueIn_text (s : String) : (Scalar.text s).valueIn R P = T.text s :=
  T.constant _ s

/-- A call of `Replace` that escapes a character. -/
theorem valueIn_replace (hpattern : pattern.valueIn R P = T.text s) (escape c : Char) :
    (Scalar.call "Replace" [pattern, .text (String.singleton c), .text (String.ofList [escape, c])]
      .nVarChar).valueIn R P =
      T.text (Text.replaceAll s (String.singleton c) (String.ofList [escape, c])) := by
  change R.function "Replace" .nVarChar [pattern.valueIn R P, (Scalar.text _).valueIn R P,
    (Scalar.text _).valueIn R P] = _
  rw [hpattern, valueIn_text T, valueIn_text T, T.replace]

/-- Calls of `Replace` escape one character after the other. -/
theorem valueIn_replaces {escape : Char} {done : List Char} (chars : List Char)
    (hchars : (done ++ chars).Nodup) (hescape : escape ∉ chars)
    (hpattern : pattern.valueIn R P = T.text (escapeLike done escape s)) :
    (chars.foldl (fun pattern c =>
      .call "Replace" [pattern, .text (String.singleton c), .text (String.ofList [escape, c])]
        .nVarChar) pattern).valueIn R P = T.text (escapeLike (done ++ chars) escape s) := by
  induction chars generalizing done pattern with
  | nil => rw [List.append_nil, List.foldl_nil, hpattern]
  | cons c chars ih =>
    have hne : c ≠ escape := fun heq => hescape (heq ▸ List.mem_cons_self)
    have hc : c ∉ done := fun hmem =>
      List.disjoint_of_nodup_append hchars hmem List.mem_cons_self
    have hstep := valueIn_replace T hpattern escape c
    rw [replaceAll_escapeLike hc hne] at hstep
    rw [List.append_cons] at hchars
    rw [List.foldl_cons, List.append_cons]
    exact ih hchars (fun hmem => hescape (List.mem_cons_of_mem c hmem)) hstep

/-- Nested calls of `Replace` escape a pattern. -/
theorem escapeLikeScalar_value {specials : List Char} {escape : Char} (hspecials : specials.Nodup)
    (hescape : escape ∈ specials) (hpattern : pattern.valueIn R P = T.text s) :
    (escapeLikeScalar specials escape pattern).valueIn R P =
      T.text (escapeLike specials escape s) := by
  have hfirst : specials.filter (· == escape) = [escape] := by
    rw [List.filter_beq, List.count_eq_one_of_mem hspecials hescape, List.replicate_one]
  have hnodup : ([escape] ++ specials.filter (· != escape)).Nodup :=
    List.nodup_cons.mpr ⟨by simp, hspecials.filter _⟩
  have hsame : escapeLike ([escape] ++ specials.filter (· != escape)) escape s =
      escapeLike specials escape s := by
    have hcontains (x : Char) : ([escape] ++ specials.filter (· != escape)).contains x =
        specials.contains x := by
      by_cases hx : x = escape
      · simp [hx, hescape]
      · simp [hx]
    simp only [escapeLike, hcontains]
  have hstart := valueIn_replace T hpattern escape escape
  rw [replaceAll_escape] at hstart
  have hall := valueIn_replaces T (specials.filter (· != escape)) hnodup (by simp) hstart
  rw [escapeLikeScalar, hfirst, ← hsame]
  exact hall

/-- Wildcards are put around a pattern. -/
theorem decorateScalar_value (kind : SearchKind) (hpattern : pattern.valueIn R P = T.text s) :
    (kind.decorateScalar d.concatOperator pattern).valueIn R P = T.text (kind.decorate s) := by
  have hjoin {a b : Scalar} {s s' : String} (ha : a.valueIn R P = T.text s)
      (hb : b.valueIn R P = T.text s') :
      (Scalar.binary a d.concatOperator b .nVarChar).valueIn R P = T.text (s ++ s') := by
    rw [Scalar.valueIn, ha, hb, T.concat]
  have hpercent : (Scalar.text "%").valueIn R P = T.text "%" := valueIn_text T "%"
  cases kind with
  | startsWith => exact hjoin hpattern hpercent
  | endsWith => exact hjoin hpercent hpattern
  | contains => exact hjoin (hjoin hpercent hpattern) hpercent

end

/-! ## Patterns that are known and patterns that are computed -/

/-- The text of a pattern that is a constant or a parameter. -/
def Scalar.knownText? : Scalar → Option String
  | .value ⟨_, .text s⟩ => some s
  | .parameter p =>
    match p.value with
    | .text s => some s
    | _ => none
  | _ => none

namespace Dialect

/-- Whether the pattern of a search is misread: it has a backslash that PostgreSQL takes for an escape
character, as nothing in it asks for an `ESCAPE` clause. -/
def misreadsSearch (d : Dialect) (pattern : Scalar) : Bool :=
  d == postgreSql && pattern.knownText?.any fun s =>
    !hasSpecials d.likeSpecials s && s.toList.contains '\\'

section

variable {V : Type} {R : Valuation V} {P : Place V} {d : Dialect} (T : R.ReadsTexts d)
  {pattern : Scalar} {s : String}

/-- A known pattern is escaped here, any other one by the database. -/
theorem likePattern_cases (d : Dialect) (kind : SearchKind) (pattern : Scalar) :
    (∃ s known, pattern.knownText? = some s ∧
      known.knownText? = some (kind.decorate (escapeLike d.likeSpecials likeEscape s)) ∧
      d.likePattern kind pattern = (known, hasSpecials d.likeSpecials s)) ∨
    pattern.knownText? = none ∧ d.likePattern kind pattern =
      (kind.decorateScalar d.concatOperator (escapeLikeScalar d.likeSpecials likeEscape pattern),
        true) := by
  cases pattern with
  | value v =>
    obtain ⟨type, value⟩ := v
    cases value with
    | text s => exact .inl ⟨s, _, rfl, rfl, rfl⟩
    | _ => exact .inr ⟨rfl, rfl⟩
  | parameter p =>
    cases hp : p.value with
    | text s =>
      refine .inl ⟨s, .parameter { p with
        value := .text (kind.decorate (escapeLike d.likeSpecials likeEscape s)) }, ?_, rfl, ?_⟩
      · simp only [Scalar.knownText?, hp]
      · simp only [likePattern, hp]
    | _ =>
      refine .inr ⟨?_, ?_⟩
      · simp only [Scalar.knownText?, hp]
      · simp only [likePattern, hp]
  | _ => exact .inr ⟨rfl, rfl⟩

include T

theorem valueIn_knownText (hknown : pattern.knownText? = some s) :
    pattern.valueIn R P = T.text s := by
  unfold Scalar.knownText? at hknown
  split at hknown
  · cases hknown
    exact T.constant _ _
  · next p =>
    split at hknown
    · next s' hp =>
      cases hknown
      exact T.parameter p _ hp
    · cases hknown
  · cases hknown

/-- The pattern of a search has one value, whether it is known or computed. -/
theorem likePattern_value (hpattern : pattern.valueIn R P = T.text s) (kind : SearchKind) :
    (d.likePattern kind pattern).1.valueIn R P =
      T.text (kind.decorate (escapeLike d.likeSpecials likeEscape s)) := by
  rcases d.likePattern_cases kind pattern with ⟨s', known, hs', hknown, heq⟩ | ⟨-, heq⟩
  · have hsame : s' = s :=
      T.text_injective _ _ ((valueIn_knownText T hs').symm.trans hpattern)
    rw [heq, valueIn_knownText T hknown, hsame]
  · have hspecials : d.likeSpecials.Nodup := by cases d <;> decide
    have hescape : likeEscape ∈ d.likeSpecials := by cases d <;> decide
    rw [heq]
    exact decorateScalar_value T kind (escapeLikeScalar_value T hspecials hescape hpattern)

/-- A search is what `LIKE` says of its pattern, with an `ESCAPE` clause if there is one. -/
theorem likeSearch_truth {operand : Scalar} {subject : String}
    (hpattern : pattern.valueIn R P = T.text s) (hoperand : operand.valueIn R P = T.text subject)
    (kind : SearchKind) (negated : Bool) :
    (d.likeSearch operand kind pattern negated).truthIn R P =
      (d.likeText subject (kind.decorate (escapeLike d.likeSpecials likeEscape s))
        (if (d.likePattern kind pattern).2 then some (String.singleton likeEscape) else none)).signed
        negated := by
  have hvalue := likePattern_value T hpattern kind
  unfold likeSearch
  dsimp only
  have hlike := T.like subject (kind.decorate (escapeLike d.likeSpecials likeEscape s))
  cases (d.likePattern kind pattern).2 with
  | true =>
    have hescape := valueIn_text T (P := P) (String.singleton likeEscape)
    rw [if_pos rfl, if_pos rfl, Predicate.truthIn, hvalue, hoperand, hescape]
    exact congrArg (Truth.signed negated) (hlike (some _))
  | false =>
    rw [if_neg Bool.false_ne_true, if_neg Bool.false_ne_true, Predicate.truthIn, hvalue, hoperand]
    exact congrArg (Truth.signed negated) (hlike none)

/-- The pattern of a search is read as what is searched for, whatever the subject, unless it is
misread. -/
theorem likeText_likePattern_iff (hpattern : pattern.valueIn R P = T.text s) (kind : SearchKind) :
    (∀ subject : String,
      d.likeText subject (kind.decorate (escapeLike d.likeSpecials likeEscape s))
          (if (d.likePattern kind pattern).2 then some (String.singleton likeEscape) else none) =
        some (kind.holds (s.toList.map d.likeFold) (subject.toList.map d.likeFold))) ↔
      d.misreadsSearch pattern = false := by
  rcases d.likePattern_cases kind pattern with ⟨s', known, hs', hknown, heq⟩ | ⟨hnone, heq⟩
  · obtain rfl : s' = s :=
      T.text_injective _ _ ((valueIn_knownText T hs').symm.trans hpattern)
    rw [heq, misreadsSearch, hs']
    cases hspecials : hasSpecials d.likeSpecials s' with
    | true =>
      refine iff_of_true (fun subject => likeText_escaped d kind subject s') ?_
      simp [hspecials]
    | false =>
      rw [escapeLike_of_plain likeEscape hspecials, if_neg Bool.false_ne_true,
        likeText_plain_iff kind hspecials]
      simp [hspecials]
  · rw [heq, misreadsSearch, hnone]
    exact iff_of_true (fun subject => likeText_escaped d kind subject s) (by simp)

/-- All forms of a pattern have one value, the text that is searched for with its special characters
escaped and wildcards around it.  A search is true, or false if it is negated, of the subjects that it
holds of, whatever the subject; in SQLite small ASCII letters are not told from capital ones.  Only
where PostgreSQL takes a backslash in the pattern for an escape character, this is not so for some
subject. -/
theorem likeSearch_exact_iff (hpattern : pattern.valueIn R P = T.text s) (kind : SearchKind) :
    (d.likePattern kind pattern).1.valueIn R P =
        T.text (kind.decorate (escapeLike d.likeSpecials likeEscape s)) ∧
      ((∀ operand subject negated, operand.valueIn R P = T.text subject →
        (d.likeSearch operand kind pattern negated).truthIn R P = Truth.signed negated
          (some (kind.holds (s.toList.map d.likeFold) (subject.toList.map d.likeFold)))) ↔
        d.misreadsSearch pattern = false) := by
  refine ⟨likePattern_value T hpattern kind, ?_⟩
  rw [← likeText_likePattern_iff T hpattern kind]
  constructor
  · -- a constant is a subject as good as any other operand
    intro h subject
    have hsearch := h (.text subject) subject false (valueIn_text T subject)
    rwa [likeSearch_truth T hpattern (valueIn_text T subject)] at hsearch
  · intro h operand subject negated hoperand
    rw [likeSearch_truth T hpattern hoperand, h]

end

/-- In PostgreSQL, `50%` is found in `now 50% off`.  Texts that start with `a\\b` are not found. -/
theorem likeSearch_exact_fiftyPercent :
    let R := Valuation.exactTexts postgreSql fun _ _ => .nothing
    ∀ P : Place ExactValue,
      (postgreSql.likeSearch (.text "now 50% off") .contains (.text "50%") false).truthIn R P =
          some true ∧
        ¬∀ operand subject negated, operand.valueIn R P = .text subject →
          (postgreSql.likeSearch operand .startsWith (.text "a\\b") negated).truthIn R P =
            Truth.signed negated (some (SearchKind.startsWith.holds
              ("a\\b".toList.map postgreSql.likeFold) (subject.toList.map postgreSql.likeFold))) := by
  intro R P
  let T : R.ReadsTexts postgreSql := Valuation.exactTexts_reads postgreSql fun _ _ => .nothing
  have hpercent : (Scalar.text "50%").valueIn R P = T.text "50%" := rfl
  have hbackslash : (Scalar.text "a\\b").valueIn R P = T.text "a\\b" := rfl
  obtain ⟨-, hexact⟩ := likeSearch_exact_iff T hpercent .contains
  obtain ⟨-, hmisread⟩ := likeSearch_exact_iff T hbackslash .startsWith
  refine ⟨?_, fun h => absurd (hmisread.mp h) (by decide)⟩
  exact (hexact.mpr (by decide) (.text "now 50% off") "now 50% off" false rfl).trans (by decide)

end Dialect

end SqlCompiler
