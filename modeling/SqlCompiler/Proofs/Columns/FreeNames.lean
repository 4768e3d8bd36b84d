import Mathlib.Data.List.Nodup
import SqlCompiler.Legalize.Statement

/-!
# Names that are made up are free

A name that is made up ends in a number.  Names with different numbers differ in any case, so one of
as many candidates as there are names in use, and one more, is free; and no reserved word has a
digit in it.

Main results:

- Theorem `AliasSet.isFree_nextNumbered`: a numbered name is free.
- Theorem `AliasSet.isFree_choose`: so is the chosen one.
- Theorem `Store.contains_columnAlias`: a column gets a name that is not in use.
-/

namespace SqlCompiler

/-! ## Numbers in letters of one case -/

namespace Text

/-- The letters of a text come to equally many in lower case whatever follows them. -/
theorem lowerFrom_append (before letters after : List Char) :
    ∃ lowered, lowered.length = (lowerFrom before letters).length ∧
      lowerFrom before (letters ++ after) =
        lowered ++ lowerFrom (letters.reverse ++ before) after := by
  induction letters generalizing before with
  | nil => exact ⟨[], rfl, rfl⟩
  | cons c rest ih =>
    obtain ⟨lowered, hlength, hlowered⟩ := ih (c :: before)
    -- only a final sigma depends on what follows, and it is one letter in either form
    have hchar : (lowerChar before c (rest ++ after)).length =
        (lowerChar before c rest).length := by
      unfold lowerChar
      split
      · rfl
      · split
        · rfl
        · split <;> rfl
    refine ⟨lowerChar before c (rest ++ after) ++ lowered, ?_, ?_⟩
    · rw [List.length_append, hchar, hlength, lowerFrom, List.length_append]
    · rw [List.cons_append, lowerFrom, hlowered, List.append_assoc, List.reverse_cons,
        List.append_assoc, List.singleton_append]

section

variable {c : Char}

theorem toNat_lt_of_isDigit (h : c.isDigit = true) : c.toNat < 0x80 := by
  have hrange := Char.isDigit_iff_toNat.mp h
  exact Nat.lt_of_le_of_lt hrange.2 (by decide)

theorem lowerChar_digit (h : c.isDigit = true) (before after : List Char) :
    lowerChar before c after = [c] := by
  have hlower : c.toLower = c := by
    unfold Char.toLower
    simp only [Char.isDigit] at h
    grind
  rw [lowerChar, if_pos (toNat_lt_of_isDigit h), hlower]

theorem upperChar_digit (h : c.isDigit = true) : upperChar c = [c] := by
  have hupper : c.toUpper = c := by
    unfold Char.toUpper
    simp only [Char.isDigit] at h
    grind
  rw [upperChar, if_pos (toNat_lt_of_isDigit h), hupper]

end

/-- Digits have no case. -/
theorem lowerFrom_digits (before : List Char) {digits : List Char}
    (h : ∀ c ∈ digits, c.isDigit = true) : lowerFrom before digits = digits := by
  induction digits generalizing before with
  | nil => rfl
  | cons c rest ih =>
    rw [lowerFrom, ih _ fun d hd => h d (List.mem_cons_of_mem c hd),
      lowerChar_digit (h c List.mem_cons_self), List.singleton_append]

theorem isDigit_of_mem_toString {n : Nat} {c : Char} (h : c ∈ (toString n).toList) :
    c.isDigit = true := by
  rw [Nat.toString_eq_ofList_toDigits, String.toList_ofList] at h
  exact Nat.isDigit_of_mem_toDigits (by decide) (by decide) h

theorem toString_injective {n m : Nat} (h : (toString n).toList = (toString m).toList) : n = m := by
  have hdigits := congrArg (fun digits => Nat.ofDigitChars 10 digits 0) h
  simpa [Nat.toString_eq_ofList_toDigits] using hdigits

/-- A number stays what it is in any case, behind equally many letters. -/
theorem lower_numbered (base : String) (n : Nat) :
    ∃ lowered, lowered.length = (lowerFrom [] base.toList).length ∧
      (lower (base ++ toString n)).toList = lowered ++ (toString n).toList := by
  obtain ⟨lowered, hlength, hlowered⟩ := lowerFrom_append [] base.toList (toString n).toList
  refine ⟨lowered, hlength, ?_⟩
  rw [lower, String.toList_ofList, String.toList_append, hlowered,
    lowerFrom_digits _ fun c hc => isDigit_of_mem_toString hc]

/-- Names with different numbers differ in any case. -/
theorem lower_numbered_injective (base : String) {n m : Nat}
    (h : lower (base ++ toString n) = lower (base ++ toString m)) : n = m := by
  obtain ⟨lowered, hlength, hlowered⟩ := lower_numbered base n
  obtain ⟨lowered', hlength', hlowered'⟩ := lower_numbered base m
  have hlist : lowered ++ (toString n).toList = lowered' ++ (toString m).toList := by
    rw [← hlowered, ← hlowered', h]
  exact toString_injective (List.append_inj hlist (hlength.trans hlength'.symm)).2

end Text

/-- No reserved word has a digit in it. -/
theorem not_isReserved_numbered (base : String) (n : Nat) :
    isReserved (base ++ toString n) = false := by
  have hwords : (reservedWords.all fun word => !word.toList.any Char.isDigit) = true := by
    decide +kernel
  by_contra hreserved
  rw [Bool.not_eq_false, isReserved, List.contains_iff_mem] at hreserved
  obtain ⟨c, hlast⟩ : ∃ c, (toString n).toList.getLast? = some c := by
    rw [← Option.isSome_iff_exists, List.getLast?_isSome]
    simp
  have hdigit : c.isDigit = true := Text.isDigit_of_mem_toString (List.mem_of_getLast? hlast)
  have hupper : (Text.upper (base ++ toString n)).toList.getLast? = some c := by
    obtain ⟨front, hfront⟩ := List.getLast?_eq_some_iff.mp hlast
    rw [Text.upper, String.toList_ofList, String.toList_append, hfront, List.flatMap_append,
      List.flatMap_append, List.flatMap_singleton, Text.upperChar_digit hdigit,
      ← List.append_assoc, List.getLast?_concat]
  have hfalse := List.all_eq_true.mp hwords _ hreserved
  rw [List.any_eq_true.mpr ⟨c, List.mem_of_getLast? hupper, hdigit⟩] at hfalse
  cases hfalse

/-! ## Free names -/

namespace AliasSet

variable (set : AliasSet)

theorem contains_iff {name : String} : set.contains name = true ↔ Text.lower name ∈ set.used :=
  List.contains_iff_mem

/-- A name is in use after another one was added if it was before or is the same in any case. -/
theorem contains_add (added name : String) :
    (set.add added).contains name = true ↔
      Text.lower added = Text.lower name ∨ set.contains name = true := by
  unfold add
  split
  · next h =>
    refine ⟨.inr, fun hname => hname.elim (fun heq => ?_) id⟩
    rw [contains_iff] at h ⊢
    exact heq ▸ h
  · rw [contains_iff, contains_iff, List.mem_cons]
    exact or_congr_left ⟨Eq.symm, Eq.symm⟩

/-- A name in use differs from one that is not. -/
theorem lower_ne {used free : String} (hused : set.contains used = true)
    (hfree : set.contains free = false) : Text.lower used ≠ Text.lower free := by
  intro hsame
  rw [contains_iff, hsame, ← contains_iff, hfree] at hused
  cases hused

/-- The names in use after those of a list have been added, as far as there are any. -/
theorem contains_foldl_add (name : String) (names : List (Option String)) :
    (names.foldl (fun used a => (a.map used.add).getD used) set).contains name = true ↔
      (∃ a, some a ∈ names ∧ Text.lower a = Text.lower name) ∨ set.contains name = true := by
  induction names generalizing set with
  | nil => simp
  | cons first rest ih =>
    rw [List.foldl_cons, ih]
    cases first with
    | none => simp
    | some a =>
      rw [Option.map_some, Option.getD_some, contains_add]
      simp [or_and_right, exists_or, or_left_comm, or_assoc]

/-- A search that finds no free name has met a name in use for each number. -/
theorem isFree_firstFree_or (base : String) (fuel start : Nat) :
    set.isFree (set.firstFree base fuel start) = true ∨
      ∀ n ∈ List.range' start fuel, set.contains (base ++ toString n) = true := by
  induction fuel generalizing start with
  | zero => exact .inr fun _ h => by cases h
  | succ fuel ih =>
    rw [firstFree]
    split
    · next h => exact .inl h
    · next h =>
      refine (ih (start + 1)).imp id fun hused n hn => ?_
      rw [isFree, not_isReserved_numbered, Bool.not_false, Bool.and_true, Bool.not_eq_true',
        Bool.not_eq_false] at h
      rw [List.range'_succ] at hn
      rcases List.mem_cons.mp hn with rfl | hn
      · exact h
      · exact hused n hn

/-- A search for a free name gives up or finds a number. -/
theorem firstFree_eq (base : String) (fuel start : Nat) :
    set.firstFree base fuel start = "" ∨
      ∃ n : Nat, set.firstFree base fuel start = base ++ toString n := by
  induction fuel generalizing start with
  | zero => exact .inl rfl
  | succ fuel ih =>
    rw [firstFree]
    split
    · exact .inr ⟨start, rfl⟩
    · exact ih (start + 1)

/-- A numbered name is free: there are more candidates than names in use. -/
theorem isFree_nextNumbered (base : String) : set.isFree (set.nextNumbered base).1 = true := by
  let fuel := set.used.length + reservedWords.length + 1
  refine (set.isFree_firstFree_or base fuel 1).resolve_right fun hused => ?_
  let candidates := (List.range' 1 fuel).map fun n => Text.lower (base ++ toString n)
  have hnodup : candidates.Nodup := List.Nodup.map
    (fun _ _ h => Text.lower_numbered_injective base h) List.nodup_range'
  have hsubset : candidates ⊆ set.used := fun name hname => by
    obtain ⟨n, hn, rfl⟩ := List.mem_map.mp hname
    exact set.contains_iff.mp (hused n hn)
  have hlength := hnodup.length_le_of_subset hsubset
  rw [List.length_map, List.length_range'] at hlength
  omega

theorem isFree_choose (wanted : Option String) (base : String) :
    set.isFree (set.choose wanted base).1 = true := by
  unfold choose
  dsimp only
  split
  · exact set.isFree_nextNumbered base
  · split
    · next h => exact h
    · exact set.isFree_nextNumbered _

theorem isFree_iff {name : String} :
    set.isFree name = true ↔ set.contains name = false ∧ isReserved name = false := by
  simp [isFree]

/-- The chosen name is in use from then on. -/
theorem choose_snd (wanted : Option String) (base : String) :
    (set.choose wanted base).2 = set.add (set.choose wanted base).1 := by
  unfold choose
  dsimp only
  split
  · rfl
  · split <;> rfl

end AliasSet

namespace Store

variable (used : AliasSet) (natural : Option String)

/-- A column gets a name that is not in use. -/
theorem contains_columnAlias : used.contains (columnAlias used natural).1 = false := by
  have hchoose : used.contains (used.choose natural "c").1 = false := by
    have hfree := used.isFree_choose natural "c"
    rw [AliasSet.isFree, Bool.and_eq_true, Bool.not_eq_true'] at hfree
    exact hfree.1
  unfold columnAlias
  split
  · split
    · exact hchoose
    · next h => simpa using h
  · exact hchoose

/-- The name of a column is in use from then on. -/
theorem columnAlias_snd : (columnAlias used natural).2 = used.add (columnAlias used natural).1 := by
  unfold columnAlias
  split
  · split
    · exact used.choose_snd _ _
    · rfl
  · exact used.choose_snd _ _

end Store

end SqlCompiler
