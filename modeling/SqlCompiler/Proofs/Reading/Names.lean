import SqlCompiler.Provider.AliasSet
import SqlCompiler.Render.Writer

/-!
# Reading names back

An identifier is printed between marks or, where the dialect takes them for needless, without any.  A
database reads what is between marks as it is, and folds a word without marks to letters of one case
unless the word is reserved.  So an identifier is read as the name it was printed for, except for
words without marks that are reserved, or that are folded to other letters than lower case ones, and
except for closing brackets where a second one does not stand for the first.

Main results:

- Definition `readMarked`: a text up to a closing mark, and `readMarked_eq_some_iff`: exactly the texts
  with doubled marks are read.
- Definition `readUntil`: the same where a mark always closes.
- Definition `Dialect.readName?`: an identifier as the databases of a dialect read it.
- Theorem `Quoting.identifier_injective`: different names are printed as different texts.
- Theorem `Dialect.readName_identifier_iff`: which identifiers are read as the names they stand for.
-/

namespace SqlCompiler

/-! ## Texts between marks -/

/-- Read up to a mark that stands alone.  A mark that is written twice stands for itself. -/
def readMarked (mark : Char) : List Char → Option (List Char × List Char)
  | [] => none
  | [c] => if c == mark then some ([], []) else none
  | c :: d :: rest =>
    if c == mark then
      if d == mark then (readMarked mark rest).map fun (s, rest) => (mark :: s, rest)
      else some ([], d :: rest)
    else (readMarked mark (d :: rest)).map fun (s, rest) => (c :: s, rest)

/-- The characters of a text, with a mark written twice. -/
def doubleMarks (mark : Char) (s : List Char) : List Char :=
  s.flatMap fun c => if c == mark then [c, c] else [c]

theorem toList_doubled (mark : Char) (s : String) :
    (Dialect.doubled mark s).toList = doubleMarks mark s.toList := by
  rw [Dialect.doubled, String.toList_ofList, doubleMarks]

section

variable {mark c : Char} {s rest : List Char}

theorem readMarked_mark (h : rest.head? ≠ some mark) :
    readMarked mark (mark :: rest) = some ([], rest) := by
  cases rest with
  | nil => simp [readMarked]
  | cons d rest =>
    have hne : d ≠ mark := fun heq => h (heq ▸ rfl)
    simp [readMarked, hne]

theorem readMarked_pair :
    readMarked mark (mark :: mark :: rest) =
      (readMarked mark rest).map fun (s, rest) => (mark :: s, rest) := by
  simp [readMarked]

theorem readMarked_cons (h : c ≠ mark) :
    readMarked mark (c :: rest) = (readMarked mark rest).map fun (s, rest) => (c :: s, rest) := by
  cases rest with
  | nil => simp [readMarked, h]
  | cons d rest => simp [readMarked, h]

/-- A text with doubled marks is read up to the mark behind it. -/
theorem readMarked_doubleMarks (h : rest.head? ≠ some mark) :
    readMarked mark (doubleMarks mark s ++ mark :: rest) = some (s, rest) := by
  induction s with
  | nil => exact readMarked_mark h
  | cons c s ih =>
    by_cases hc : c = mark
    · subst hc
      have htext : doubleMarks c (c :: s) ++ c :: rest =
          c :: c :: (doubleMarks c s ++ c :: rest) := by simp [doubleMarks]
      rw [htext, readMarked_pair, ih, Option.map_some]
    · have htext : doubleMarks mark (c :: s) ++ mark :: rest =
          c :: (doubleMarks mark s ++ mark :: rest) := by simp [doubleMarks, hc]
      rw [htext, readMarked_cons hc, ih, Option.map_some]

/-- What is read was written with doubled marks. -/
theorem eq_of_readMarked {text : List Char} (h : readMarked mark text = some (s, rest)) :
    text = doubleMarks mark s ++ mark :: rest ∧ rest.head? ≠ some mark := by
  fun_induction readMarked mark text generalizing s with
  | case1 => cases h
  | case2 c hc =>
    cases h
    exact ⟨by simp [doubleMarks, beq_iff_eq.mp hc], by simp⟩
  | case3 => cases h
  | case4 c d text hc hd ih =>
    obtain ⟨⟨s', rest'⟩, hread, heq⟩ := Option.map_eq_some_iff.mp h
    cases heq
    obtain ⟨htext, hrest⟩ := ih hread
    rw [beq_iff_eq] at hc hd
    exact ⟨by simp [doubleMarks, hc, hd, htext], hrest⟩
  | case5 c d text hc hd =>
    cases h
    rw [beq_iff_eq] at hc hd
    exact ⟨by simp [doubleMarks, hc], by simp [hd]⟩
  | case6 c d text hc ih =>
    obtain ⟨⟨s', rest'⟩, hread, heq⟩ := Option.map_eq_some_iff.mp h
    cases heq
    obtain ⟨htext, hrest⟩ := ih hread
    rw [beq_iff_eq] at hc
    exact ⟨by simp [doubleMarks, hc, htext], hrest⟩

/-- Exactly the texts with doubled marks are read, up to a mark that no other one follows. -/
theorem readMarked_eq_some_iff {text : List Char} : readMarked mark text = some (s, rest) ↔
    text = doubleMarks mark s ++ mark :: rest ∧ rest.head? ≠ some mark := by
  refine ⟨eq_of_readMarked, ?_⟩
  rintro ⟨rfl, hrest⟩
  exact readMarked_doubleMarks hrest

theorem doubleMarks_injective {s' : List Char} (h : doubleMarks mark s = doubleMarks mark s') :
    s = s' := by
  have hread (s : List Char) : readMarked mark (doubleMarks mark s ++ [mark]) = some (s, []) :=
    readMarked_doubleMarks (by simp)
  have hsame := hread s
  rw [h, hread s'] at hsame
  exact (congrArg Prod.fst (Option.some.inj hsame)).symm

end

theorem doubleMarks_of_notMem {mark : Char} {s : List Char} (h : mark ∉ s) :
    doubleMarks mark s = s := by
  induction s with
  | nil => rfl
  | cons c s ih =>
    have hc : c ≠ mark := fun heq => h (heq ▸ List.mem_cons_self)
    simpa [doubleMarks, hc] using ih fun hs => h (List.mem_cons_of_mem c hs)

/-- Read up to the next mark. -/
def readUntil (mark : Char) (text : List Char) : Option (List Char × List Char) :=
  match text.dropWhile (· != mark) with
  | [] => none
  | _ :: rest => some (text.takeWhile (· != mark), rest)

/-- A text with doubled marks is read as itself if it has none. -/
theorem readUntil_doubleMarks {mark : Char} {s rest : List Char} :
    readUntil mark (doubleMarks mark s ++ mark :: rest) = some (s, rest) ↔ mark ∉ s := by
  constructor
  · intro h hmark
    unfold readUntil at h
    split at h
    · cases h
    · rw [← (Prod.mk.inj (Option.some.inj h)).1] at hmark
      simpa using List.all_eq_true.mp List.all_takeWhile mark hmark
  · intro hmark
    have hall : ∀ c ∈ s, (c != mark) = true := fun c hc =>
      bne_iff_ne.mpr fun heq => hmark (heq ▸ hc)
    have hmarks (rest : List Char) : (mark :: rest).takeWhile (· != mark) = [] := by simp
    rw [doubleMarks_of_notMem hmark, readUntil, List.dropWhile_append_of_pos hall,
      List.takeWhile_append_of_pos hall, List.dropWhile_cons_of_neg (by simp), hmarks, List.append_nil]

theorem toList_enclosed (first last : Char) (s : String) :
    (enclosed first last s).toList = first :: doubleMarks last s.toList ++ [last] := by
  rw [enclosed, String.toList_append, String.toList_append, toList_doubled]
  simp

/-! ## Names -/

/-- What a word without marks goes on with: letters and digits, and signs that some database takes
for letters. -/
def isWordCharacter (c : Char) : Bool :=
  c.isAlphanum || c == '_' || c == '$' || c == '@' || c == '#' || c.toNat ≥ 128

/-- How a database reads identifiers. -/
structure NameSyntax where
  /-- How an identifier goes on that a mark has opened. -/
  opened? : Char → Option (List Char → Option (List Char × List Char))
  /-- What a word without marks may begin with. -/
  begins : Char → Bool
  /-- The case that such a word is folded to. -/
  fold : Char → Char

/-- Read an identifier.  Words without marks must not be reserved, and nothing is no identifier. -/
def NameSyntax.read? (names : NameSyntax) : List Char → Option (String × List Char)
  | [] => none
  | c :: rest =>
    match names.opened? c with
    | some read =>
      (read rest).bind fun (s, rest) =>
        if s.isEmpty then none else some (String.ofList s, rest)
    | none =>
      let word := (c :: rest).takeWhile isWordCharacter
      if names.begins c && !isReserved (String.ofList word) then
        some (String.ofList (word.map names.fold), (c :: rest).dropWhile isWordCharacter)
      else none

namespace Dialect

/-- How the databases of a dialect read identifiers: all of them know double quotes, a bracket of
SQLite is closed by the next one, and words without marks keep their case or are folded to one. -/
def names : Dialect → NameSyntax
  | sqlServer =>
    { opened? := fun c =>
        if c == '[' then some (readMarked ']') else if c == '"' then some (readMarked '"') else none
      begins := fun c => c.isAlpha || c == '_'
      fold := id }
  | sqlite =>
    { opened? := fun c =>
        if c == '[' then some (readUntil ']') else if c == '"' then some (readMarked '"') else none
      begins := fun c => c.isAlpha || c == '_'
      fold := id }
  | postgreSql =>
    { opened? := fun c => if c == '"' then some (readMarked '"') else none
      begins := fun c => c.isAlpha || c == '_'
      fold := Char.toLower }
  | generic | db2 =>
    { opened? := fun c => if c == '"' then some (readMarked '"') else none
      begins := Char.isAlpha
      fold := Char.toUpper }

/-- Read an identifier at the start of a text. -/
def readName? (d : Dialect) (text : List Char) : Option (String × List Char) :=
  d.names.read? text

/-- A name that is not read back: a reserved word without marks, any word without marks where they
are folded to upper case, and a closing bracket between brackets that have no sign for it. -/
def Misreads (d : Dialect) (name : String) : Prop :=
  isPlainName name = true ∧ (d = postgreSql ∧ isReserved name = true ∨ d = db2) ∨
    d = sqlite ∧ ']' ∈ name.toList

end Dialect

/-- A text that does not go on with an identifier in front of it. -/
def EndsName (rest : List Char) : Prop :=
  ∀ c ∈ rest.head?, isWordCharacter c = false ∧ c ≠ ']' ∧ c ≠ '"'

/-! ## Names between marks -/

section

variable {names : NameSyntax} {name : String} {rest : List Char}

/-- A name between marks is read as it is if what reads it knows the marks in it. -/
theorem NameSyntax.read_enclosed_iff {first last : Char}
    {read : List Char → Option (List Char × List Char)} (hopened : names.opened? first = some read)
    (hne : name ≠ "") : names.read? ((enclosed first last name).toList ++ rest) = some (name, rest) ↔
      read (doubleMarks last name.toList ++ last :: rest) = some (name.toList, rest) := by
  have htext : (enclosed first last name).toList ++ rest =
      first :: (doubleMarks last name.toList ++ last :: rest) := by
    rw [toList_enclosed]
    simp
  rw [htext, read?]
  simp only [hopened]
  constructor
  · intro h
    obtain ⟨⟨s, rest'⟩, hread, hs⟩ := Option.bind_eq_some_iff.mp h
    rw [hread]
    dsimp only at hs
    split at hs
    · cases hs
    · obtain ⟨rfl, rfl⟩ := Prod.mk.inj (Option.some.inj hs)
      rw [String.toList_ofList]
  · intro h
    have hsome : name.toList.isEmpty = false := by
      rw [List.isEmpty_eq_false_iff]
      simpa using hne
    rw [h, Option.bind_some, hsome, if_neg Bool.false_ne_true, String.ofList_toList]

/-! ## Words without marks -/

/-- A plain name has characters of words only, and begins with a small letter or an underscore. -/
theorem isPlainName_iff : isPlainName name = true ↔ ∃ c word, name.toList = c :: word ∧
    (c.isLower = true ∨ c = '_') ∧
      ∀ x ∈ word, x.isLower = true ∨ x.isDigit = true ∨ x = '_' := by
  unfold isPlainName
  cases name.toList with
  | nil => simp
  | cons c word =>
    simp only [Bool.and_eq_true, Bool.or_eq_true, beq_iff_eq, List.all_eq_true, or_assoc]
    constructor
    · rintro ⟨hc, hword⟩
      exact ⟨c, word, rfl, hc, hword⟩
    · rintro ⟨c', word', heq, hc, hword⟩
      obtain ⟨rfl, rfl⟩ := List.cons.inj heq
      exact ⟨hc, hword⟩

theorem ne_quote_of_begins {c : Char} (h : c.isLower = true ∨ c = '_') : c ≠ '"' := by
  rintro rfl
  rcases h with h | h <;> exact absurd h (by decide)

theorem isAlpha_of_isLower {c : Char} (h : c.isLower = true) : c.isAlpha = true := by
  unfold Char.isAlpha
  rw [h, Bool.or_true]

theorem isWordCharacter_of_plain {c : Char}
    (h : c.isLower = true ∨ c.isDigit = true ∨ c = '_') : isWordCharacter c = true := by
  rcases h with h | h | rfl
  · simp [isWordCharacter, Char.isAlphanum, isAlpha_of_isLower h]
  · simp [isWordCharacter, Char.isAlphanum, h]
  · rfl

theorem toLower_of_plain {c : Char} (h : c.isLower = true ∨ c.isDigit = true ∨ c = '_') :
    c.toLower = c := by
  rcases h with h | h | rfl
  · unfold Char.isLower at h
    unfold Char.toLower
    grind
  · simp only [Char.isDigit] at h
    unfold Char.toLower
    grind
  · rfl

theorem toUpper_ne_of_isLower {c : Char} (h : c.isLower = true) : c.toUpper ≠ c := by
  unfold Char.isLower at h
  have hrange : 'a'.val ≤ c.val ∧ c.val ≤ 'z'.val := by simpa using h
  intro heq
  have hval := congrArg Char.val heq
  unfold Char.toUpper at hval
  rw [dif_pos hrange] at hval
  simp at hval

/-- A plain name is read as a word: folded, unless it is reserved or begins with what no word begins
with. -/
theorem NameSyntax.read_plain {c : Char} {word : List Char} (hname : name.toList = c :: word)
    (hplain : isPlainName name = true) (hmarks : names.opened? c = none) (hrest : EndsName rest) :
    names.read? (name.toList ++ rest) =
      if names.begins c && !isReserved name then
        some (String.ofList (name.toList.map names.fold), rest)
      else none := by
  obtain ⟨c', word', hname', hc, hword⟩ := isPlainName_iff.mp hplain
  obtain ⟨rfl, rfl⟩ := List.cons.inj (hname.symm.trans hname')
  have hall : ∀ x ∈ name.toList, isWordCharacter x = true := by
    rw [hname]
    exact List.forall_mem_cons.mpr ⟨isWordCharacter_of_plain (hc.imp_right .inr),
      fun x hx => isWordCharacter_of_plain (hword x hx)⟩
  have htake : (name.toList ++ rest).takeWhile isWordCharacter = name.toList := by
    rw [List.takeWhile_append_of_pos hall]
    cases rest with
    | nil => simp
    | cons x rest => simp [(hrest x rfl).1]
  have hdrop : (name.toList ++ rest).dropWhile isWordCharacter = rest := by
    rw [List.dropWhile_append_of_pos hall]
    cases rest with
    | nil => rfl
    | cons x rest => simp [(hrest x rfl).1]
  have htext : name.toList ++ rest = c :: (word ++ rest) := by rw [hname, List.cons_append]
  rw [htext] at htake hdrop ⊢
  rw [read?]
  simp only [hmarks, htake, hdrop, String.ofList_toList]

end

/-! ## Every name -/

namespace Quoting

/-- Different names are printed as different texts. -/
theorem identifier_injective (quoting : Quoting) {a b : String}
    (h : quoting.identifier a = quoting.identifier b) : a = b := by
  have henclosed {first last : Char} (h : enclosed first last a = enclosed first last b) : a = b := by
    have htext := congrArg String.toList h
    rw [toList_enclosed, toList_enclosed] at htext
    have hinner := List.append_cancel_right (List.cons.inj htext).2
    exact String.toList_inj.mp (doubleMarks_injective hinner)
  -- what is between marks begins with one, and a plain name does not
  have hplain {a b : String} (ha : isPlainName a = true) (h : a = enclosed '"' '"' b) : False := by
    obtain ⟨c, word, hname, hc, -⟩ := isPlainName_iff.mp ha
    have htext := congrArg String.toList h
    rw [hname, toList_enclosed] at htext
    exact ne_quote_of_begins hc (List.cons.inj htext).1
  cases quoting with
  | none => exact h
  | brackets => exact henclosed h
  | doubleQuotes => exact henclosed h
  | doubleQuotesWhenNeeded =>
    unfold identifier at h
    dsimp only at h
    split at h <;> split at h
    · exact h
    · next ha _ => exact (hplain ha h).elim
    · next _ hb => exact (hplain hb h.symm).elim
    · exact henclosed h

end Quoting

namespace Dialect

variable {name : String} {rest : List Char}

/-- PostgreSQL folds words to small letters, which plain names have anyway. -/
theorem readName_plain_postgreSql (hplain : isPlainName name = true) (hrest : EndsName rest) :
    postgreSql.readName? (name.toList ++ rest) =
      if isReserved name then none else some (name, rest) := by
  obtain ⟨c, word, hname, hc, hword⟩ := isPlainName_iff.mp hplain
  have hmark : postgreSql.names.opened? c = none := by simp [names, ne_quote_of_begins hc]
  have hbegins : postgreSql.names.begins c = true := by
    rcases hc with hc | rfl
    · simp [names, isAlpha_of_isLower hc]
    · rfl
  have hfold : name.toList.map postgreSql.names.fold = name.toList := by
    refine (List.map_congr_left fun x hx => ?_).trans (List.map_id _)
    rw [hname] at hx
    rcases List.mem_cons.mp hx with rfl | hx
    · exact toLower_of_plain (hc.imp_right .inr)
    · exact toLower_of_plain (hword x hx)
  rw [readName?, NameSyntax.read_plain hname hplain hmark hrest, hbegins, hfold,
    String.ofList_toList]
  cases isReserved name <;> rfl

/-- DB2 folds words to capital letters, and does not begin one with an underscore. -/
theorem readName_plain_db2 (hplain : isPlainName name = true) (hrest : EndsName rest) :
    db2.readName? (name.toList ++ rest) ≠ some (name, rest) := by
  obtain ⟨c, word, hname, hc, -⟩ := isPlainName_iff.mp hplain
  have hmark : db2.names.opened? c = none := by simp [names, ne_quote_of_begins hc]
  rw [readName?, NameSyntax.read_plain hname hplain hmark hrest]
  intro h
  split at h
  · next hread =>
    -- the word begins with a letter then, a small one
    have hletter : c.isLower = true := by
      rcases hc with hc | rfl
      · exact hc
      · exact absurd (Bool.and_eq_true_iff.mp hread).1 (by decide)
    have hfold := congrArg (fun r => (Prod.fst r).toList) (Option.some.inj h)
    rw [hname] at hfold
    simp only [String.toList_ofList, List.map_cons] at hfold
    exact toUpper_ne_of_isLower hletter (List.cons.inj hfold).1
  · cases h

/-- Names in PostgreSQL and DB2: those between marks are read as they are, plain ones as words. -/
theorem readName_whenNeeded {d : Dialect} (hd : d = postgreSql ∨ d = db2) (hne : name ≠ "")
    (hrest : EndsName rest) :
    d.readName? ((Quoting.doubleQuotesWhenNeeded.identifier name).toList ++ rest) =
        some (name, rest) ↔ ¬d.Misreads name := by
  have hopened : d.names.opened? = fun c => if c == '"' then some (readMarked '"') else none := by
    rcases hd with rfl | rfl <;> rfl
  have hbracket : ¬(d = sqlite ∧ ']' ∈ name.toList) := by
    rcases hd with rfl | rfl <;> simp
  by_cases hplain : isPlainName name = true
  · have hidentifier : Quoting.doubleQuotesWhenNeeded.identifier name = name := if_pos hplain
    rw [hidentifier]
    rcases hd with rfl | rfl
    · rw [readName_plain_postgreSql hplain hrest]
      cases hreserved : isReserved name <;> simp [Misreads, hplain, hreserved]
    · exact iff_of_false (readName_plain_db2 hplain hrest) fun h => h (.inl ⟨hplain, .inr rfl⟩)
  · have hidentifier : Quoting.doubleQuotesWhenNeeded.identifier name = enclosed '"' '"' name :=
      if_neg hplain
    have hread : d.readName? ((enclosed '"' '"' name).toList ++ rest) = some (name, rest) :=
      (NameSyntax.read_enclosed_iff (by rw [hopened]; rfl) hne).mpr
        (readMarked_doubleMarks fun h => (hrest _ h).2.2 rfl)
    rw [hidentifier]
    exact iff_of_true hread fun h => h.elim (fun h => hplain h.1) hbracket

/-- In each dialect that quotes identifiers, an identifier is read as the name it was printed for,
whatever follows it, unless it is a word without marks that is reserved or folded to other letters,
or has a bracket that closes it early.  Different names are printed as different texts. -/
theorem readName_identifier_iff {d : Dialect} (hd : d.quoting ≠ .none) :
    (∀ name, name ≠ "" → ∀ rest, EndsName rest →
      (d.readName? ((d.quoting.identifier name).toList ++ rest) = some (name, rest) ↔
        ¬d.Misreads name)) ∧
    ∀ a b, d.quoting.identifier a = d.quoting.identifier b → a = b := by
  refine ⟨fun name hne rest hrest => ?_, fun a b => d.quoting.identifier_injective⟩
  cases d with
  | generic => exact absurd rfl hd
  | sqlServer =>
    have hread : sqlServer.readName? ((enclosed '[' ']' name).toList ++ rest) = some (name, rest) :=
      (NameSyntax.read_enclosed_iff rfl hne).mpr
        (readMarked_doubleMarks fun h => (hrest _ h).2.1 rfl)
    exact iff_of_true hread fun h => by simp [Misreads] at h
  | sqlite =>
    have hread : sqlite.readName? ((enclosed '[' ']' name).toList ++ rest) = some (name, rest) ↔
        ']' ∉ name.toList :=
      (NameSyntax.read_enclosed_iff rfl hne).trans readUntil_doubleMarks
    have hmisreads : sqlite.Misreads name ↔ ']' ∈ name.toList := by simp [Misreads]
    rw [hmisreads]
    exact hread
  | postgreSql => exact readName_whenNeeded (.inl rfl) hne hrest
  | db2 => exact readName_whenNeeded (.inr rfl) hne hrest

/-- PostgreSQL reads `Order` back, which is printed between marks, and not `order`, which is not. -/
theorem readName_order :
    postgreSql.readName? ((postgreSql.quoting.identifier "Order").toList ++ [' ']) =
        some ("Order", [' ']) ∧
      postgreSql.readName? ((postgreSql.quoting.identifier "order").toList ++ [' ']) ≠
        some ("order", [' ']) := by
  have hquoting : postgreSql.quoting ≠ .none := by decide
  have hends : EndsName [' '] := by simp [EndsName, isWordCharacter]
  have hread := (readName_identifier_iff hquoting).1
  refine ⟨(hread "Order" (by decide) [' '] hends).mpr ?_,
    fun h => (hread "order" (by decide) [' '] hends).mp h ?_⟩
  · simp [Misreads, isPlainName]
  · exact .inl ⟨by decide, .inl ⟨rfl, by decide⟩⟩

end Dialect

end SqlCompiler
