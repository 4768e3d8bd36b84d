import Mathlib.Tactic.ByContra
import Mathlib.Tactic.Tauto
import SqlCompiler.Render.Expression

/-!
# What templates stand for

A template is text with places for arguments, a number in braces each.  The scanner pairs an opening
brace with the next closing one and goes on behind it.  What stands between them is a hole: if it can
be read as a count, then it is the place of an argument, and otherwise it is copied with its braces.
So a place that another opening brace precedes is not seen: the hole begins at the first brace.

Main results:

- Definition `Text.Substitutes`: the parts of a template, if every number in braces is the place of
  an argument and everything else is text.
- Definition `Text.Scans`: the parts that the scanner finds, and the holes it looks at.
- Theorem `Text.Scans.substitutes_iff`: which holes make the difference.
- Theorem `printTemplate_parts`: the parts are printed one after another, whether they are those of
  the template, and when an argument is missing.
-/

namespace SqlCompiler

namespace Text

/-! ## Parts -/

/-- A part of a template: a character that is copied, or the place of an argument. -/
inductive Part where
  | char (c : Char)
  | argument (index : Nat)

/-- The parts of a piece. -/
def Piece.parts : Piece → List Part
  | .literal text => text.toList.map .char
  | .argument index => [.argument index]

/-- At least one digit, and nothing else. -/
def IsDigits (cs : List Char) : Prop := cs ≠ [] ∧ ∀ c ∈ cs, c.isDigit = true

/-- A text begins with a number in braces. -/
def HasPlace (cs : List Char) : Prop :=
  ∃ digits rest, IsDigits digits ∧ cs = '\x7b' :: digits ++ '\x7d' :: rest

/-- The parts of a text in which every number in braces is the place of an argument and every other
character stands for itself. -/
inductive Substitutes : List Char → List Part → Prop where
  | nil : Substitutes [] []
  | argument {digits rest : List Char} {parts : List Part} (hdigits : IsDigits digits)
      (h : Substitutes rest parts) :
      Substitutes ('\x7b' :: digits ++ '\x7d' :: rest) (.argument (digitsNumber digits) :: parts)
  | char {c : Char} {rest : List Char} {parts : List Part} (hplace : ¬ HasPlace (c :: rest))
      (h : Substitutes rest parts) : Substitutes (c :: rest) (.char c :: parts)

/-- The parts of a text as the scanner finds them, and the texts between braces that it looks at. -/
inductive Scans : List Char → List Part → List (List Char) → Prop where
  | nil : Scans [] [] []
  | char {c : Char} {rest : List Char} {parts : List Part} {holes : List (List Char)}
      (hc : c ≠ '\x7b') (h : Scans rest parts holes) : Scans (c :: rest) (.char c :: parts) holes
  /-- A brace that is not closed. -/
  | unclosed {rest : List Char} (hrest : '\x7d' ∉ rest) :
      Scans ('\x7b' :: rest) (('\x7b' :: rest).map .char) []
  /-- A hole that is read as a count. -/
  | argument {hole rest : List Char} {index : Nat} {parts : List Part} {holes : List (List Char)}
      (hhole : '\x7d' ∉ hole) (hcount : readCount? (String.ofList hole) = some index)
      (h : Scans rest parts holes) :
      Scans ('\x7b' :: hole ++ '\x7d' :: rest) (.argument index :: parts) (hole :: holes)
  /-- A hole that is copied. -/
  | text {hole rest : List Char} {parts : List Part} {holes : List (List Char)}
      (hhole : '\x7d' ∉ hole) (hcount : readCount? (String.ofList hole) = none)
      (h : Scans rest parts holes) :
      Scans ('\x7b' :: hole ++ '\x7d' :: rest)
        (('\x7b' :: hole).map .char ++ .char '\x7d' :: parts) (hole :: holes)

/-- A hole that is not read as what it is: a number after a plus sign is taken for the number, a
number of `2^64` or more is copied, and so is a number in braces behind another opening brace. -/
inductive Misread : List Char → Prop where
  | signed {digits : List Char} (hdigits : IsDigits digits) (hlt : digitsNumber digits < Nat.pow 2 64) :
      Misread ('+' :: digits)
  | large {digits : List Char} (hdigits : IsDigits digits) (hle : Nat.pow 2 64 ≤ digitsNumber digits) :
      Misread digits
  | hidden {before digits : List Char} (hdigits : IsDigits digits) :
      Misread (before ++ '\x7b' :: digits)

/-! ## Counts -/

theorem digitsValue?_eq_some {cs : List Char} {n : Nat} :
    digitsValue? cs = some n ↔ IsDigits cs ∧ digitsNumber cs = n := by
  have htest : (cs.isEmpty || !cs.all Char.isDigit) = true ↔ ¬ IsDigits cs := by
    rw [IsDigits, Bool.or_eq_true, List.isEmpty_iff, Bool.not_eq_true', ← Bool.not_eq_true,
      List.all_eq_true]
    tauto
  unfold digitsValue?
  split
  · next h => simp [htest.mp h]
  · next h =>
    have hdigits : IsDigits cs := by_contra fun hnot => h (htest.mpr hnot)
    simp [hdigits]

/-- A count is a number below `2^64`, perhaps after a plus sign. -/
theorem readCount?_eq_some {hole : List Char} {n : Nat} :
    readCount? (String.ofList hole) = some n ↔
      n < Nat.pow 2 64 ∧ ((IsDigits hole ∧ digitsNumber hole = n) ∨
        ∃ digits, hole = '+' :: digits ∧ IsDigits digits ∧ digitsNumber digits = n) := by
  have hbound (digits : List Char) : (do
      let n ← digitsValue? digits
      if n < Nat.pow 2 64 then some n else none) = some n ↔
        n < Nat.pow 2 64 ∧ IsDigits digits ∧ digitsNumber digits = n := by
    rw [← digitsValue?_eq_some]
    cases digitsValue? digits with
    | none => simp
    | some m =>
      change (if m < Nat.pow 2 64 then some m else none) = some n ↔ _
      by_cases hlt : m < Nat.pow 2 64
      · rw [if_pos hlt, Option.some.injEq]
        exact ⟨fun heq => ⟨heq ▸ hlt, heq⟩, fun h => h.2⟩
      · rw [if_neg hlt, Option.some.injEq]
        simp only [reduceCtorEq, false_iff]
        exact fun ⟨hn, heq⟩ => hlt (heq ▸ hn)
  unfold readCount?
  rw [String.toList_ofList]
  split
  · next digits =>
    have hsign : ¬ IsDigits ('+' :: digits) := fun h => absurd (h.2 '+' List.mem_cons_self) (by decide)
    rw [hbound]
    simp [hsign]
  · next hother =>
    rw [hbound]
    have hnone : ¬ ∃ digits, hole = '+' :: digits ∧ IsDigits digits ∧ digitsNumber digits = n :=
      fun ⟨digits, heq, _⟩ => hother digits heq
    simp [hnone]

/-- A number is below `2^64` or not read as a count. -/
theorem le_of_readCount?_eq_none {hole : List Char} (hdigits : IsDigits hole)
    (h : readCount? (String.ofList hole) = none) : Nat.pow 2 64 ≤ digitsNumber hole := by
  by_contra hlt
  have hsome := readCount?_eq_some.mpr ⟨Nat.lt_of_not_le hlt, .inl ⟨hdigits, rfl⟩⟩
  rw [h] at hsome
  cases hsome

/-! ## Where a place begins -/

theorem IsDigits.not_mem {digits : List Char} (h : IsDigits digits) {c : Char}
    (hc : c.isDigit = false) : c ∉ digits := fun hmem => by
  rw [h.2 c hmem] at hc
  cases hc

/-- Before the first closing brace a text is taken apart in one way only. -/
theorem append_closing_inj {hole hole' rest rest' : List Char} (h : '\x7d' ∉ hole)
    (h' : '\x7d' ∉ hole') (heq : hole ++ '\x7d' :: rest = hole' ++ '\x7d' :: rest') :
    hole = hole' ∧ rest = rest' := by
  induction hole generalizing hole' with
  | nil =>
    cases hole' with
    | nil => exact ⟨rfl, (List.cons.inj heq).2⟩
    | cons c _ => exact absurd (List.mem_cons.mpr (.inl (List.cons.inj heq).1)) h'
  | cons c hole ih =>
    cases hole' with
    | nil => exact absurd (List.mem_cons.mpr (.inl (List.cons.inj heq).1.symm)) h
    | cons d hole' =>
      obtain ⟨rfl, htail⟩ := List.cons.inj heq
      obtain ⟨rfl, hrest⟩ := ih (fun hmem => h (List.mem_cons_of_mem _ hmem))
        (fun hmem => h' (List.mem_cons_of_mem _ hmem)) htail
      exact ⟨rfl, hrest⟩

/-- A place begins at an opening brace, and goes up to the next closing one. -/
theorem hasPlace_closed {hole rest : List Char} {c : Char} (hc : c ≠ '\x7d')
    (hhole : '\x7d' ∉ hole) :
    HasPlace (c :: hole ++ '\x7d' :: rest) ↔ c = '\x7b' ∧ IsDigits hole := by
  constructor
  · rintro ⟨digits, rest', hdigits, heq⟩
    obtain ⟨rfl, htail⟩ := List.cons.inj heq
    obtain ⟨rfl, -⟩ := append_closing_inj hhole (hdigits.not_mem (by decide)) htail
    exact ⟨rfl, hdigits⟩
  · rintro ⟨rfl, hdigits⟩
    exact ⟨hole, rest, hdigits, rfl⟩

theorem not_hasPlace_of_ne {c : Char} {rest : List Char} (hc : c ≠ '\x7b') :
    ¬ HasPlace (c :: rest) := fun ⟨_, _, _, heq⟩ => hc (List.cons.inj heq).1

theorem not_hasPlace_of_not_mem {cs : List Char} (h : '\x7d' ∉ cs) : ¬ HasPlace cs := by
  rintro ⟨digits, rest, -, rfl⟩
  exact h (by simp)

/-! ## Both readings of a hole -/

theorem substitutes_char {c : Char} {rest : List Char} {parts : List Part} :
    Substitutes (c :: rest) (.char c :: parts) ↔ ¬ HasPlace (c :: rest) ∧ Substitutes rest parts := by
  constructor
  · intro h
    cases h with
    | char hplace hrest => exact ⟨hplace, hrest⟩
  · rintro ⟨hplace, hrest⟩
    exact .char hplace hrest

/-- Text that no brace closes stands for itself. -/
theorem substitutes_unclosed {cs : List Char} (h : '\x7d' ∉ cs) : Substitutes cs (cs.map .char) := by
  induction cs with
  | nil => exact .nil
  | cons c rest ih =>
    exact .char (not_hasPlace_of_not_mem h) (ih fun hmem => h (List.mem_cons_of_mem c hmem))

/-- Text up to a closing brace stands for itself if no place ends with that brace. -/
theorem substitutes_copied {hole rest : List Char} {parts : List Part} (hhole : '\x7d' ∉ hole) :
    Substitutes (hole ++ '\x7d' :: rest) (hole.map .char ++ .char '\x7d' :: parts) ↔
      (∀ before digits, hole = before ++ '\x7b' :: digits → ¬ IsDigits digits) ∧
        Substitutes rest parts := by
  induction hole with
  | nil =>
    rw [List.nil_append, List.map_nil, List.nil_append, substitutes_char]
    have hclosing : ¬ HasPlace ('\x7d' :: rest) := not_hasPlace_of_ne (by decide)
    simp [hclosing]
  | cons c hole ih =>
    obtain ⟨hc, hrest⟩ : c ≠ '\x7d' ∧ '\x7d' ∉ hole := by
      simpa [eq_comm] using hhole
    rw [List.cons_append, List.map_cons, List.cons_append, substitutes_char, ih hrest,
      ← List.cons_append, hasPlace_closed hc hrest]
    constructor
    · rintro ⟨hplace, hinner, hparts⟩
      refine ⟨fun before digits heq hdigits => ?_, hparts⟩
      cases before with
      | nil =>
        obtain ⟨rfl, rfl⟩ := List.cons.inj heq
        exact hplace ⟨rfl, hdigits⟩
      | cons d before => exact hinner before digits (List.cons.inj heq).2 hdigits
    · rintro ⟨hinner, hparts⟩
      refine ⟨fun ⟨heq, hdigits⟩ => hinner [] hole (by rw [heq]; rfl) hdigits,
        fun before digits heq => hinner (c :: before) digits (by rw [heq]; rfl), hparts⟩

/-- A hole that is copied is text unless it is a number or a place is hidden in it. -/
theorem substitutes_text {hole rest : List Char} {parts : List Part} (hhole : '\x7d' ∉ hole)
    (hcount : readCount? (String.ofList hole) = none) :
    Substitutes ('\x7b' :: hole ++ '\x7d' :: rest)
        (('\x7b' :: hole).map .char ++ .char '\x7d' :: parts) ↔
      ¬ Misread hole ∧ Substitutes rest parts := by
  rw [substitutes_copied (by simpa using hhole)]
  refine and_congr_left fun _ => ⟨fun hcopied hmisread => ?_, fun hread before digits heq hdigits => ?_⟩
  · cases hmisread with
    | signed hdigits hlt =>
      rw [readCount?_eq_some.mpr ⟨hlt, .inr ⟨_, rfl, hdigits, rfl⟩⟩] at hcount
      cases hcount
    | large hdigits => exact hcopied [] hole rfl hdigits
    | @hidden before digits hdigits => exact hcopied ('\x7b' :: before) digits rfl hdigits
  · cases before with
    | nil =>
      obtain ⟨-, rfl⟩ := List.cons.inj heq
      exact hread (.large hdigits (le_of_readCount?_eq_none hdigits hcount))
    | cons c before =>
      obtain ⟨-, rfl⟩ := List.cons.inj heq
      exact hread (.hidden hdigits)

theorem substitutes_place {hole rest : List Char} {parts : List Part} {index : Nat}
    (hhole : '\x7d' ∉ hole) :
    Substitutes ('\x7b' :: hole ++ '\x7d' :: rest) (.argument index :: parts) ↔
      (IsDigits hole ∧ digitsNumber hole = index) ∧ Substitutes rest parts := by
  constructor
  · intro h
    generalize hcs : '\x7b' :: hole ++ '\x7d' :: rest = cs at h
    generalize hparts : Part.argument index :: parts = parts' at h
    cases h with
    | argument hdigits hrest =>
      obtain ⟨rfl, rfl⟩ := append_closing_inj hhole (hdigits.not_mem (by decide))
        (List.cons.inj hcs).2
      obtain ⟨hindex, rfl⟩ := List.cons.inj hparts
      exact ⟨⟨hdigits, (Part.argument.inj hindex).symm⟩, hrest⟩
    | _ => cases hparts
  · rintro ⟨⟨hdigits, rfl⟩, hrest⟩
    exact .argument hdigits hrest

/-- A hole that is read as a count is the place of an argument unless it has a plus sign. -/
theorem substitutes_argument {hole rest : List Char} {parts : List Part} {index : Nat}
    (hhole : '\x7d' ∉ hole) (hcount : readCount? (String.ofList hole) = some index) :
    Substitutes ('\x7b' :: hole ++ '\x7d' :: rest) (.argument index :: parts) ↔
      ¬ Misread hole ∧ Substitutes rest parts := by
  rw [substitutes_place hhole]
  refine and_congr_left fun _ => ?_
  have hplus : ('+' : Char).isDigit = false := by decide
  have hbrace : ('\x7b' : Char).isDigit = false := by decide
  obtain ⟨hlt, ⟨hdigits, rfl⟩ | ⟨digits, rfl, hdigits, rfl⟩⟩ := readCount?_eq_some.mp hcount
  · refine ⟨fun _ hmisread => ?_, fun _ => ⟨hdigits, rfl⟩⟩
    cases hmisread with
    | signed => exact hdigits.not_mem hplus List.mem_cons_self
    | large _ hle => exact absurd hlt (Nat.not_lt_of_le hle)
    | hidden => exact hdigits.not_mem hbrace (by simp)
  · exact ⟨fun h => absurd List.mem_cons_self (h.1.not_mem hplus),
      fun hread => absurd (.signed hdigits hlt) hread⟩

/-- The scanner finds the parts of a text if and only if it misreads no hole. -/
theorem Scans.substitutes_iff {cs : List Char} {parts : List Part} {holes : List (List Char)}
    (h : Scans cs parts holes) : Substitutes cs parts ↔ ∀ hole ∈ holes, ¬ Misread hole := by
  induction h with
  | nil => simp [Substitutes.nil]
  | char hc _ ih => rw [substitutes_char, ih, and_iff_right (not_hasPlace_of_ne hc)]
  | unclosed hrest =>
    have hclosed := substitutes_unclosed
      (List.not_mem_cons_of_ne_of_not_mem (show '\x7d' ≠ '\x7b' by decide) hrest)
    simp only [hclosed, List.not_mem_nil, false_imp_iff, implies_true]
  | argument hhole hcount _ ih => rw [substitutes_argument hhole hcount, ih, List.forall_mem_cons]
  | text hhole hcount _ ih => rw [substitutes_text hhole hcount, ih, List.forall_mem_cons]

/-! ## The scanner -/

theorem parts_literalOf (reversed : List Char) :
    (literalOf reversed).parts = reversed.reverse.map .char := by
  rw [literalOf, Piece.parts, String.toList_ofList]

theorem parts_argument (index : Nat) : (Piece.argument index).parts = [.argument index] := rfl

/-- The scanner goes over a text, in a hole or outside of all holes. -/
theorem scans_piecesFrom (cs before : List Char) :
    (∃ parts holes, Scans cs parts holes ∧
      (piecesFrom before none cs).flatMap Piece.parts = before.reverse.map .char ++ parts) ∧
    ∀ hole, '\x7d' ∉ hole → ∃ parts holes, Scans ('\x7b' :: hole.reverse ++ cs) parts holes ∧
      (piecesFrom before (some hole) cs).flatMap Piece.parts =
        before.reverse.map .char ++ parts := by
  induction cs generalizing before with
  | nil =>
    constructor
    · exact ⟨[], [], .nil, by simp [piecesFrom, parts_literalOf]⟩
    · intro hole hhole
      have hunclosed : Scans ('\x7b' :: hole.reverse) (('\x7b' :: hole.reverse).map .char) [] :=
        .unclosed (by simpa using hhole)
      refine ⟨_, [], by simpa using hunclosed, ?_⟩
      simp [piecesFrom, parts_literalOf]
  | cons c rest ih =>
    constructor
    · by_cases hc : c = '\x7b'
      · subst hc
        simpa [piecesFrom] using (ih before).2 [] List.not_mem_nil
      · obtain ⟨parts, holes, hscans, hparts⟩ := (ih (c :: before)).1
        refine ⟨.char c :: parts, holes, .char hc hscans, ?_⟩
        simp [piecesFrom, hc, hparts]
    · intro hole hhole
      by_cases hc : c = '\x7d'
      · subst hc
        have hreverse : '\x7d' ∉ hole.reverse := by simpa using hhole
        unfold piecesFrom
        simp only [bne_self_eq_false, Bool.false_eq_true, if_false]
        cases hcount : readCount? (String.ofList hole.reverse) with
        | some index =>
          obtain ⟨parts, holes, hscans, hparts⟩ := (ih []).1
          refine ⟨_, _, .argument hreverse hcount hscans, ?_⟩
          simp [hparts, parts_literalOf, parts_argument]
        | none =>
          obtain ⟨parts, holes, hscans, hparts⟩ := (ih ('\x7d' :: hole ++ '\x7b' :: before)).1
          refine ⟨_, _, .text hreverse hcount hscans, ?_⟩
          dsimp only
          rw [hparts]
          simp
      · obtain ⟨parts, holes, hscans, hparts⟩ := (ih before).2 (c :: hole)
          (List.not_mem_cons_of_ne_of_not_mem (Ne.symm hc) hhole)
        refine ⟨parts, holes, by simpa using hscans, ?_⟩
        simp [piecesFrom, hc, hparts]

/-- The pieces of a template are what the scanner finds. -/
theorem scans_pieces (template : String) : ∃ holes,
    Scans template.toList ((pieces template).flatMap Piece.parts) holes := by
  obtain ⟨parts, holes, hscans, hparts⟩ := (scans_piecesFrom template.toList []).1
  rw [pieces, hparts]
  exact ⟨holes, hscans⟩

end Text

/-! ## Printing -/

open Text

/-- Print a part of a template. -/
def printPart (template : String) (args : List (Print Unit)) : Part → Print Unit
  | .char c => Print.text (String.singleton c)
  | .argument index =>
    match args[index]? with
    | some act => act
    | none => throw (.untranslatable template ("missing argument " ++ toString index))

/-- A text is printed character by character. -/
theorem forM_printPart_char (template : String) (args : List (Print Unit)) (cs : List Char) :
    (cs.map Part.char).forM (printPart template args) = Print.text (String.ofList cs) := by
  induction cs with
  | nil =>
    funext frame page
    change Except.ok ((), page) = Except.ok ((), { page with writer := page.writer.add "" })
    simp only [Writer.add, String.append_empty]
  | cons c rest ih =>
    have hcons : String.ofList (c :: rest) = String.singleton c ++ String.ofList rest := by
      rw [String.singleton_eq_ofList, ← String.ofList_append]
      rfl
    rw [hcons, Print.text_append, ← ih]
    rfl

/-- A template is printed part by part. -/
theorem printTemplate_eq_forM (template : String) (args : List (Print Unit)) :
    printTemplate template args =
      ((pieces template).flatMap Piece.parts).forM (printPart template args) := by
  have hpiece (piece : Piece) : (match piece with
      | .literal text => Print.text text
      | .argument index => printPart template args (.argument index)) =
        piece.parts.forM (printPart template args) := by
    cases piece with
    | literal text => rw [Piece.parts, forM_printPart_char, String.ofList_toList]
    | argument index => exact (bind_pure_unit).symm
  have hpieces (items : List Piece) : (items.forM fun piece => piece.parts.forM
      (printPart template args)) = (items.flatMap Piece.parts).forM (printPart template args) := by
    induction items with
    | nil => rfl
    | cons piece rest ih =>
      simp only [List.forM_eq_forM, List.flatMap_cons, List.forM_append, List.forM_cons] at ih ⊢
      rw [ih]
  rw [← hpieces, ← funext hpiece]
  rfl

/-- A part is printed unless it is the place of a missing argument. -/
theorem printPart_ok_iff {template : String} {args : List (Print Unit)} {frame : Frame}
    (hargs : ∀ act ∈ args, ∀ page, ∃ page', act frame page = .ok ((), page'))
    (part : Part) (page : Page) :
    (∃ page', printPart template args part frame page = .ok ((), page')) ↔
      ∀ index, part = .argument index → index < args.length := by
  cases part with
  | char c => exact iff_of_true ⟨_, rfl⟩ fun _ h => nomatch h
  | argument index =>
    have hindex : (∀ i, Part.argument index = .argument i → i < args.length) ↔
        index < args.length := by simp
    rw [hindex]
    cases hget : args[index]? with
    | some act =>
      have hprint : printPart template args (.argument index) frame page = act frame page := by
        rw [printPart, hget]
      rw [hprint]
      exact iff_of_true (hargs act (List.mem_of_getElem? hget) page)
        (List.getElem?_eq_some_iff.mp hget).1
    | none =>
      have hprint : ¬∃ page', printPart template args (.argument index) frame page =
          .ok ((), page') := by
        rw [printPart, hget]
        exact fun ⟨_, h⟩ => nomatch h
      exact iff_of_false hprint (Nat.not_lt_of_le (List.getElem?_eq_none_iff.mp hget))

/-- Arguments that print are printed wherever they are asked for, unless one is missing. -/
theorem forM_printPart_ok_iff {template : String} {args : List (Print Unit)} {frame : Frame}
    (hargs : ∀ act ∈ args, ∀ page, ∃ page', act frame page = .ok ((), page'))
    (parts : List Part) (page : Page) :
    (∃ page', parts.forM (printPart template args) frame page = .ok ((), page')) ↔
      ∀ index, .argument index ∈ parts → index < args.length := by
  induction parts generalizing page with
  | nil => exact iff_of_true ⟨page, rfl⟩ fun _ h => absurd h List.not_mem_nil
  | cons part rest ih =>
    have hfirst := @printPart_ok_iff template args frame hargs part page
    have hcons : (part :: rest).forM (printPart template args) =
        printPart template args part >>= fun _ => rest.forM (printPart template args) := rfl
    rw [hcons]
    constructor
    · rintro ⟨page', h⟩ index hmem
      obtain ⟨_, page₁, hpart, hrest⟩ := Print.bind_ok_iff.mp h
      rcases List.mem_cons.mp hmem with heq | hmem
      · exact hfirst.mp ⟨page₁, hpart⟩ index heq.symm
      · exact (ih page₁).mp ⟨page', hrest⟩ index hmem
    · intro h
      obtain ⟨page₁, hpart⟩ := hfirst.mpr fun index heq => h index (heq ▸ List.mem_cons_self)
      obtain ⟨page', hrest⟩ := (ih page₁).mpr fun index hmem => h index (.tail _ hmem)
      exact ⟨page', Print.bind_ok_iff.mpr ⟨(), page₁, hpart, hrest⟩⟩

/-- A template is printed part by part, as the scanner finds the parts: characters are copied, and
arguments are printed in their places, so that what they print is not looked at again.  These are the
parts of the template if and only if no hole is misread: no number in braces has a plus sign, is too
large, or stands behind another opening brace.  In a frame in which all arguments print, printing fails
if and only if one that has a place is missing. -/
theorem printTemplate_parts (template : String) (args : List (Print Unit)) :
    ∃ parts holes, Scans template.toList parts holes ∧
      (Substitutes template.toList parts ↔ ∀ hole ∈ holes, ¬ Misread hole) ∧
      printTemplate template args = parts.forM (printPart template args) ∧
      ∀ frame, (∀ act ∈ args, ∀ page, ∃ page', act frame page = .ok ((), page')) → ∀ page,
        (∃ page', printTemplate template args frame page = .ok ((), page')) ↔
          ∀ index, .argument index ∈ parts → index < args.length := by
  obtain ⟨holes, hscans⟩ := scans_pieces template
  refine ⟨_, holes, hscans, hscans.substitutes_iff, printTemplate_eq_forM template args, ?_⟩
  intro frame hargs page
  rw [printTemplate_eq_forM]
  exact forM_printPart_ok_iff hargs _ page

/-- The brace of a literal hides the place of `t1.Name`, which can be printed but is not. -/
theorem printTemplate_parts_quotedBrace :
    let template := "'\x7b' || \x7b0\x7d"
    let args := [printField ⟨0⟩]
    let store : Store := { (({} : Store).addTable { name := { name := "Person" } }
        [{ name := "Name", type := .nVarChar }]).2 with
      queries := #[{ sources := [{ Source.ofTable ⟨0⟩ with aliasName := some "t1" }] }] }
    let frame : Frame :=
      { provider := .ofDialect .generic, store, options := {}, scopes := [⟨0⟩] }
    (∀ act ∈ args, ∀ page, ∃ page', act frame page = .ok ((), page')) ∧
      (∃ parts holes, Scans template.toList parts holes ∧
        (Substitutes template.toList parts ↔ ∀ hole ∈ holes, ¬ Misread hole) ∧
        printTemplate template args = parts.forM (printPart template args) ∧
        ∀ page, (∃ page', printTemplate template args frame page = .ok ((), page')) ↔
          ∀ index, .argument index ∈ parts → index < args.length) ∧
      Misread "' || \x7b0".toList ∧ printTemplate template args = Print.text template := by
  intro template args store frame
  have hargs : ∀ act ∈ args, ∀ page, ∃ page', act frame page = .ok ((), page') := by
    intro act hact page
    rw [List.mem_singleton.mp hact]
    exact ⟨{ page with writer := page.writer.column (some "t1") "Name" }, rfl⟩
  obtain ⟨parts, holes, hscans, hreads, hprint, hfails⟩ := printTemplate_parts template args
  refine ⟨hargs, ⟨parts, holes, hscans, hreads, hprint, hfails frame hargs⟩, ?_, ?_⟩
  · have hhidden : Misread ("' || ".toList ++ '\x7b' :: ['0']) := .hidden ⟨by simp, by simp⟩
    exact hhidden
  · have hpieces : pieces template = [.literal template] := by decide
    rw [printTemplate, hpieces]
    exact bind_pure_unit

end SqlCompiler
