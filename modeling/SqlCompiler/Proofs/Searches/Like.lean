import Mathlib.Data.List.Infix
import SqlCompiler.Legalize.Predicate
import SqlCompiler.Proofs.Semantics.Truth

/-!
# How databases read LIKE

A pattern is a row of items: wildcards, sets of characters in SQL Server, and characters that stand
for themselves, which an escape character can make of any other one.  Without an `ESCAPE` clause
there is no escape character, except in PostgreSQL, where it is the backslash.

The pattern of a search has its special characters escaped and wildcards around it.  The items it is
read as are the characters that are searched for, with the wildcards around them, and so the subjects
that match are those that the search holds of.  What goes wrong is a backslash in a pattern that needs
no `ESCAPE` clause otherwise, in PostgreSQL.

Main results:

- Definition `Dialect.readLike?`: the items of a pattern as the databases of a dialect read it.
- Definition `Dialect.likeText`: the truth of `LIKE`.
- Theorem `matchesLike_items`: the items of a search match what the search holds of.
- Theorem `Dialect.likeText_escaped`, `Dialect.likeText_plain`: the patterns of searches are read as
  their items.
- Theorem `Dialect.likeText_plain_iff`: without an `ESCAPE` clause, a pattern is misread for some
  subject if and only if a backslash in it is taken for an escape character.
-/

namespace SqlCompiler

/-! ## Items of patterns -/

/-- What a part of a pattern matches. -/
inductive LikeItem where
  /-- Any characters, also none. -/
  | anything
  | single
  | literal (c : Char)
  /-- A character in some ranges, or in none of them. -/
  | set (negated : Bool) (ranges : List (Char × Char))
  deriving DecidableEq, Repr

/-- Whether an item matches a character, where characters are compared as `fold` makes them. -/
def LikeItem.admits (fold : Char → Char) : LikeItem → Char → Bool
  | anything, _ | single, _ => true
  | literal x, c => fold c == fold x
  | set negated ranges, c => (ranges.any fun range => range.1 ≤ c && c ≤ range.2) != negated

/-- Whether items match a text, one behind the other and to its end. -/
def matchesLike (fold : Char → Char) : List LikeItem → List Char → Bool
  | [], s => s.isEmpty
  | .anything :: items, s => s.tails.any (matchesLike fold items)
  | item :: items, c :: s => item.admits fold c && matchesLike fold items s
  | _ :: _, [] => false

/-- The ranges that the characters of a set stand for. -/
def setRanges : List Char → List (Char × Char)
  | first :: '-' :: last :: rest => (first, last) :: setRanges rest
  | c :: rest => (c, c) :: setRanges rest
  | [] => []

/-- The set that some characters in brackets stand for. -/
def LikeItem.ofSet : List Char → LikeItem
  | '^' :: members => set true (setRanges members)
  | members => set false (setRanges members)

/-- What stands right before a part of a pattern that is being read. -/
inductive LikeState where
  | plain
  /-- An escape character. -/
  | escaped
  /-- The bracket of a set and some of its characters, the last one first. -/
  | opened (members : List Char)

/-- The state behind an escape character, or behind none. -/
def LikeState.behind (escape : Bool) : LikeState :=
  if escape then .escaped else .plain

namespace Dialect

/-- Whether a character may follow the escape character: in some databases, only wildcards and the
escape character itself. -/
def mayEscape (d : Dialect) (escape : Option Char) (c : Char) : Bool :=
  match d with
  | generic | db2 => c == '%' || c == '_' || escape == some c
  | _ => true

/-- Read a pattern. -/
def readLike? (d : Dialect) (escape : Option Char) :
    LikeState → List Char → Option (List LikeItem)
  | .plain, [] => some []
  | .escaped, [] | .opened _, [] => none
  | .plain, c :: rest =>
    if escape == some c then d.readLike? escape .escaped rest
    else if c == '%' then (d.readLike? escape .plain rest).map (.anything :: ·)
    else if c == '_' then (d.readLike? escape .plain rest).map (.single :: ·)
    else if c == '[' && d == sqlServer then d.readLike? escape (.opened []) rest
    else (d.readLike? escape .plain rest).map (.literal c :: ·)
  | .escaped, c :: rest =>
    if d.mayEscape escape c then (d.readLike? escape .plain rest).map (.literal c :: ·) else none
  | .opened members, c :: rest =>
    if c == ']' then (d.readLike? escape .plain rest).map (.ofSet members.reverse :: ·)
    else d.readLike? escape (.opened (c :: members)) rest

/-- The escape character of patterns without an `ESCAPE` clause. -/
def defaultEscape : Dialect → Option Char
  | postgreSql => some '\\'
  | _ => none

/-- The escape character that an `ESCAPE` clause names, or the one without a clause. -/
def escapeCharacter? (d : Dialect) : Option String → Option (Option Char)
  | none => some d.defaultEscape
  | some text =>
    match text.toList with
    | [c] => some (some c)
    | _ => none

/-- `LIKE` of SQLite does not tell small ASCII letters from capital ones. -/
def likeFold (d : Dialect) (c : Char) : Char :=
  if d == sqlite then c.toLower else c

/-- The truth of `LIKE`; a pattern that cannot be read has none. -/
def likeText (d : Dialect) (subject pattern : String) (escape : Option String) : Truth :=
  (d.escapeCharacter? escape).bind fun escape =>
    (d.readLike? escape .plain pattern.toList).map fun items =>
      matchesLike d.likeFold items subject.toList

end Dialect

/-! ## What a search holds of -/

/-- Whether a text starts with, ends with or contains another one. -/
def SearchKind.holds (kind : SearchKind) (pattern subject : List Char) : Bool :=
  match kind with
  | .startsWith => decide (pattern <+: subject)
  | .endsWith => decide (pattern <:+ subject)
  | .contains => decide (pattern <:+: subject)

/-- What a text occurs in is at least as long, and the same if it is no longer. -/
theorem SearchKind.eq_of_holds {kind : SearchKind} {pattern subject : List Char}
    (h : kind.holds pattern subject = true) (hle : subject.length ≤ pattern.length) :
    pattern = subject := by
  cases kind with
  | startsWith => exact (of_decide_eq_true h : pattern <+: subject).eq_of_length_le hle
  | endsWith => exact (of_decide_eq_true h : pattern <:+ subject).eq_of_length_le hle
  | contains => exact (of_decide_eq_true h : pattern <:+: subject).eq_of_length_le hle

theorem SearchKind.holds_self (kind : SearchKind) (pattern : List Char) :
    kind.holds pattern pattern = true := by
  cases kind with
  | startsWith => exact decide_eq_true (List.prefix_refl pattern)
  | endsWith => exact decide_eq_true (List.suffix_refl pattern)
  | contains => exact decide_eq_true (List.infix_refl pattern)

/-- The items of a search. -/
def SearchKind.items (kind : SearchKind) (pattern : List Char) : List LikeItem :=
  match kind with
  | .startsWith => pattern.map .literal ++ [.anything]
  | .endsWith => .anything :: pattern.map .literal
  | .contains => .anything :: (pattern.map .literal ++ [.anything])

section

variable {fold : Char → Char} {items : List LikeItem} {pattern s : List Char}

theorem matchesLike_anything : matchesLike fold (.anything :: items) s = true ↔
    ∃ rest, rest <:+ s ∧ matchesLike fold items rest = true := by
  rw [matchesLike, List.any_eq_true]
  simp only [List.mem_tails]

theorem matchesLike_only_anything : matchesLike fold [.anything] s = true :=
  matchesLike_anything.mpr ⟨[], List.nil_suffix, rfl⟩

/-- Characters that stand for themselves match the texts that begin with them. -/
theorem matchesLike_literals : matchesLike fold (pattern.map .literal ++ items) s = true ↔
    ∃ front rest, s = front ++ rest ∧ front.map fold = pattern.map fold ∧
      matchesLike fold items rest = true := by
  induction pattern generalizing s with
  | nil => simp
  | cons x pattern ih =>
    cases s with
    | nil => simp [matchesLike]
    | cons c s =>
      simp only [List.map_cons, List.cons_append, matchesLike, LikeItem.admits,
        Bool.and_eq_true, beq_iff_eq, ih]
      constructor
      · rintro ⟨hc, front, rest, rfl, hfront, hrest⟩
        exact ⟨c :: front, rest, rfl, by simp [hc, hfront], hrest⟩
      · rintro ⟨front, rest, hs, hfront, hrest⟩
        cases front with
        | nil => simp at hfront
        | cons c' front =>
          obtain ⟨rfl, rfl⟩ := List.cons.inj hs
          obtain ⟨hc, hfront⟩ := List.cons.inj hfront
          exact ⟨hc, front, rest, rfl, hfront, hrest⟩

/-- What is mapped to the end of a text is mapped from the end of one. -/
theorem suffix_map_iff {tail : List Char} :
    tail <:+ s.map fold ↔ ∃ rest, rest <:+ s ∧ rest.map fold = tail := by
  constructor
  · rintro ⟨front, hfront⟩
    obtain ⟨front, rest, rfl, -, hrest⟩ := List.map_eq_append_iff.mp hfront.symm
    exact ⟨rest, List.suffix_append front rest, hrest⟩
  · rintro ⟨rest, hrest, rfl⟩
    exact hrest.map fold

theorem matchesLike_prefix :
    matchesLike fold (pattern.map .literal ++ [.anything]) s = true ↔
      pattern.map fold <+: s.map fold := by
  simp only [matchesLike_literals, matchesLike_only_anything, and_true]
  constructor
  · rintro ⟨front, rest, rfl, hfront⟩
    rw [List.map_append, hfront]
    exact List.prefix_append _ _
  · rintro ⟨rest, hrest⟩
    obtain ⟨front, rest, rfl, hfront, -⟩ := List.map_eq_append_iff.mp hrest.symm
    exact ⟨front, rest, rfl, hfront⟩

theorem matchesLike_whole :
    matchesLike fold (pattern.map .literal) s = true ↔ s.map fold = pattern.map fold := by
  have h : matchesLike fold (pattern.map .literal ++ []) s = true ↔
      ∃ front rest, s = front ++ rest ∧ front.map fold = pattern.map fold ∧
        matchesLike fold [] rest = true := matchesLike_literals
  rw [List.append_nil] at h
  rw [h]
  constructor
  · rintro ⟨front, rest, rfl, hfront, hrest⟩
    rw [List.isEmpty_iff.mp hrest, List.append_nil, hfront]
  · intro hs
    exact ⟨s, [], (List.append_nil s).symm, hs, rfl⟩

/-- The items of a search match what the search holds of. -/
theorem matchesLike_items (kind : SearchKind) :
    matchesLike fold (kind.items pattern) s = kind.holds (pattern.map fold) (s.map fold) := by
  rw [Bool.eq_iff_iff]
  cases kind with
  | startsWith =>
    simp only [SearchKind.items, SearchKind.holds, decide_eq_true_eq]
    exact matchesLike_prefix
  | endsWith =>
    simp only [SearchKind.items, SearchKind.holds, decide_eq_true_eq, matchesLike_anything,
      matchesLike_whole]
    exact suffix_map_iff.symm
  | contains =>
    simp only [SearchKind.items, SearchKind.holds, decide_eq_true_eq, matchesLike_anything,
      matchesLike_prefix, List.infix_iff_prefix_suffix, suffix_map_iff]
    constructor
    · rintro ⟨rest, hrest, hfront⟩
      exact ⟨_, hfront, rest, hrest, rfl⟩
    · rintro ⟨_, hfront, rest, hrest, rfl⟩
      exact ⟨rest, hrest, hfront⟩

end

/-! ## Reading the patterns of searches -/

namespace Dialect

variable {d : Dialect} {escape : Option Char} {c : Char} {rest : List Char} {p : List Char}

/-- A character without a meaning of its own stands for itself. -/
theorem readLike_plain (h : d.likeSpecials.contains c = false) (hescape : escape ≠ some c) :
    d.readLike? escape .plain (c :: rest) =
      (d.readLike? escape .plain rest).map (.literal c :: ·) := by
  have hne : (escape == some c) = false := beq_false_of_ne hescape
  have hspecial : (c == '%') = false ∧ (c == '_') = false ∧
      (c == '[' && d == sqlServer) = false := by
    cases d <;> simp_all [likeSpecials]
  obtain ⟨hpercent, hunderscore, hbracket⟩ := hspecial
  rw [readLike?, hne, hpercent, hunderscore, hbracket]
  rfl

/-- An escaped special character stands for itself. -/
theorem readLike_special (h : d.likeSpecials.contains c = true) :
    d.readLike? (some likeEscape) .plain (likeEscape :: c :: rest) =
      (d.readLike? (some likeEscape) .plain rest).map (.literal c :: ·) := by
  have hallowed : d.mayEscape (some likeEscape) c = true := by
    cases d with
    | generic | db2 =>
      have hc : c = '%' ∨ c = '_' ∨ c = '~' := by simpa [likeSpecials] using h
      rcases hc with rfl | rfl | rfl <;> rfl
    | _ => rfl
  rw [readLike?, beq_self_eq_true, if_pos rfl, readLike?, hallowed, if_pos rfl]

/-- Where each character of a text is written as what is read as that character, the text is read as
itself. -/
theorem readLike_flatMap (write : Char → List Char)
    (h : ∀ c ∈ p, ∀ rest, d.readLike? escape .plain (write c ++ rest) =
      (d.readLike? escape .plain rest).map (.literal c :: ·)) (rest : List Char) :
    d.readLike? escape .plain (p.flatMap write ++ rest) =
      (d.readLike? escape .plain rest).map (p.map .literal ++ ·) := by
  induction p with
  | nil => simp
  | cons c p ih =>
    obtain ⟨hc, hp⟩ := List.forall_mem_cons.mp h
    rw [List.flatMap_cons, List.append_assoc, hc, ih hp, Option.map_map]
    rfl

theorem readLike_percent (hescape : escape ≠ some '%') :
    d.readLike? escape .plain ('%' :: rest) =
      (d.readLike? escape .plain rest).map (.anything :: ·) := by
  have hne : (escape == some '%') = false := beq_false_of_ne hescape
  rw [readLike?, hne]
  rfl

/-- A text between wildcards is read as the items of the search. -/
theorem readLike_decorate {text : String} (hescape : escape ≠ some '%')
    (h : ∀ rest, d.readLike? escape .plain (text.toList ++ rest) =
      (d.readLike? escape .plain rest).map (p.map .literal ++ ·)) (kind : SearchKind) :
    d.readLike? escape .plain (kind.decorate text).toList = some (kind.items p) := by
  have hnothing : d.readLike? escape .plain [] = some [] := rfl
  have hpercent : d.readLike? escape .plain ['%'] = some [.anything] := by
    rw [readLike_percent hescape, hnothing, Option.map_some]
  have hwhole : d.readLike? escape .plain text.toList = some (p.map .literal) := by
    have hread := h []
    rwa [List.append_nil, hnothing, Option.map_some, List.append_nil] at hread
  have hbefore : d.readLike? escape .plain (text.toList ++ ['%']) =
      some (p.map .literal ++ [.anything]) := by
    rw [h, hpercent, Option.map_some]
  cases kind with
  | startsWith =>
    rw [SearchKind.decorate, String.toList_append]
    exact hbefore
  | endsWith =>
    have htext : ("%" ++ text).toList = '%' :: text.toList := by simp
    rw [SearchKind.decorate, htext, readLike_percent hescape, hwhole]
    rfl
  | contains =>
    have htext : ("%" ++ text ++ "%").toList = '%' :: (text.toList ++ ['%']) := by simp
    rw [SearchKind.decorate, htext, readLike_percent hescape, hbefore]
    rfl

/-- A text whose special characters are escaped is read as itself. -/
theorem readLike_escapeLike (d : Dialect) (s : String) (rest : List Char) :
    d.readLike? (some likeEscape) .plain
        ((escapeLike d.likeSpecials likeEscape s).toList ++ rest) =
      (d.readLike? (some likeEscape) .plain rest).map (s.toList.map .literal ++ ·) := by
  rw [escapeLike, String.toList_ofList]
  refine readLike_flatMap _ (fun c _ rest => ?_) rest
  have hspecial : d.likeSpecials.contains likeEscape = true := by cases d <;> rfl
  cases hc : d.likeSpecials.contains c with
  | true => exact readLike_special hc
  | false =>
    refine readLike_plain hc fun heq => ?_
    rw [← Option.some.inj heq, hspecial] at hc
    cases hc

theorem escapeLike_of_plain {specials : List Char} {s : String} (escape : Char)
    (h : hasSpecials specials s = false) : escapeLike specials escape s = s := by
  have hall : ∀ c ∈ s.toList,
      (if specials.contains c then [escape, c] else [c]) = [c] := by
    intro c hc
    rw [if_neg (List.any_eq_false.mp h c hc)]
  rw [escapeLike, List.flatMap_congr hall]
  simp

/-- The pattern of a search, with an `ESCAPE` clause. -/
theorem likeText_escaped (d : Dialect) (kind : SearchKind) (subject s : String) :
    d.likeText subject (kind.decorate (escapeLike d.likeSpecials likeEscape s))
        (some (String.singleton likeEscape)) =
      some (kind.holds (s.toList.map d.likeFold) (subject.toList.map d.likeFold)) := by
  have hescape : d.escapeCharacter? (some (String.singleton likeEscape)) =
      some (some likeEscape) := rfl
  rw [likeText, hescape, Option.bind_some,
    readLike_decorate (by decide) (readLike_escapeLike d s) kind, Option.map_some,
    matchesLike_items]

/-- The pattern of a search without special characters, without an `ESCAPE` clause. -/
theorem likeText_plain {d : Dialect} {s : String} (kind : SearchKind) (subject : String)
    (h : hasSpecials d.likeSpecials s = false) (hbackslash : d = postgreSql → '\\' ∉ s.toList) :
    d.likeText subject (kind.decorate s) none =
      some (kind.holds (s.toList.map d.likeFold) (subject.toList.map d.likeFold)) := by
  have hescape : d.escapeCharacter? none = some d.defaultEscape := rfl
  have hpercent : d.defaultEscape ≠ some '%' := by cases d <;> decide
  have hother (c : Char) (hc : c ∈ s.toList) : d.defaultEscape ≠ some c := by
    cases d with
    | postgreSql =>
      intro heq
      exact hbackslash rfl (Option.some.inj heq ▸ hc)
    | _ => exact fun heq => nomatch heq
  have hread (rest : List Char) : d.readLike? d.defaultEscape .plain (s.toList ++ rest) =
      (d.readLike? d.defaultEscape .plain rest).map (s.toList.map .literal ++ ·) := by
    have hchars := readLike_flatMap (d := d) (p := s.toList) (fun c => [c]) (fun c hc rest =>
      readLike_plain (Bool.eq_false_iff.mpr (List.any_eq_false.mp h c hc)) (hother c hc)) rest
    rwa [List.flatMap_singleton'] at hchars
  rw [likeText, hescape, Option.bind_some, readLike_decorate hpercent hread kind, Option.map_some,
    matchesLike_items]

/-! ## Backslashes in PostgreSQL -/

/-- A text with backslashes is read as characters that stand for themselves, where a backslash is none
of them unless it is escaped.  One at the end goes on with what follows. -/
theorem readLike_backslashes (p : List Char)
    (h : ∀ c ∈ p, postgreSql.likeSpecials.contains c = false) (escaped : Bool) :
    ∃ (l : List Char) (last : Bool),
      (∀ rest, postgreSql.readLike? (some '\\') (.behind escaped) (p ++ rest) =
        (postgreSql.readLike? (some '\\') (.behind last) rest).map (l.map .literal ++ ·)) ∧
      l.length ≤ p.length ∧
      ('\\' ∈ p ∨ escaped = true → l.length < p.length + escaped.toNat) := by
  induction p generalizing escaped with
  | nil =>
    refine ⟨[], escaped, by simp, Nat.le_refl _, fun hescape => ?_⟩
    have hescaped : escaped = true := by simpa using hescape
    simp [hescaped]
  | cons c p ih =>
    obtain ⟨hc, hp⟩ := List.forall_mem_cons.mp h
    cases escaped with
    | true =>
      obtain ⟨l, last, hread, hle, -⟩ := ih hp false
      refine ⟨c :: l, last, fun rest => ?_, Nat.succ_le_succ hle, fun _ => ?_⟩
      · change (postgreSql.readLike? (some '\\') (.behind false) (p ++ rest)).map _ = _
        rw [hread, Option.map_map]
        rfl
      · exact Nat.lt_succ_of_le (Nat.succ_le_succ hle)
    | false =>
      by_cases hbackslash : c = '\\'
      · subst hbackslash
        obtain ⟨l, last, hread, hle, hlt⟩ := ih hp true
        exact ⟨l, last, hread, Nat.le_succ_of_le hle, fun _ => hlt (.inr rfl)⟩
      · obtain ⟨l, last, hread, hle, hlt⟩ := ih hp false
        refine ⟨c :: l, last, fun rest => ?_, Nat.succ_le_succ hle, fun hescape => ?_⟩
        · have hother : some '\\' ≠ some c := fun heq => hbackslash (Option.some.inj heq).symm
          change postgreSql.readLike? (some '\\') .plain (c :: (p ++ rest)) = _
          rw [readLike_plain hc hother]
          change (postgreSql.readLike? (some '\\') (.behind false) (p ++ rest)).map _ = _
          rw [hread, Option.map_map]
          rfl
        · have hmem : '\\' ∈ p := by
            simpa [Ne.symm hbackslash] using hescape
          exact Nat.succ_lt_succ (hlt (.inl hmem))

/-- Without an `ESCAPE` clause, PostgreSQL misreads the pattern of a search that has a backslash. -/
theorem likeText_backslash {s : String} (kind : SearchKind)
    (h : hasSpecials postgreSql.likeSpecials s = false) (hbackslash : '\\' ∈ s.toList) :
    ∃ subject : String, postgreSql.likeText subject (kind.decorate s) none ≠
      some (kind.holds s.toList subject.toList) := by
  have hplain (c : Char) (hc : c ∈ s.toList) : postgreSql.likeSpecials.contains c = false :=
    Bool.eq_false_iff.mpr (List.any_eq_false.mp h c hc)
  have hlike (subject : String) : postgreSql.likeText subject (kind.decorate s) none =
      (postgreSql.readLike? (some '\\') .plain (kind.decorate s).toList).map fun items =>
        matchesLike postgreSql.likeFold items subject.toList := rfl
  obtain ⟨l, last, hread, -, hshorter⟩ := readLike_backslashes s.toList hplain false
  have hlt : l.length < s.toList.length := hshorter (.inl hbackslash)
  -- a subject that matches what is read, and in which the pattern does not occur for its length
  have hmisread {subject : List Char} {items : List LikeItem}
      (hitems : postgreSql.readLike? (some '\\') .plain (kind.decorate s).toList = some items)
      (hmatches : matchesLike postgreSql.likeFold items subject = true)
      (hle : subject.length ≤ s.toList.length) (hne : s.toList ≠ subject) :
      ∃ subject : String, postgreSql.likeText subject (kind.decorate s) none ≠
        some (kind.holds s.toList subject.toList) := by
    refine ⟨String.ofList subject, ?_⟩
    rw [hlike, hitems, Option.map_some, String.toList_ofList, hmatches]
    intro heq
    exact hne (SearchKind.eq_of_holds (Option.some.inj heq).symm hle)
  cases last with
  | false =>
    refine hmisread (readLike_decorate (by decide) hread kind) ?_ (Nat.le_of_lt hlt)
      fun heq => Nat.lt_irrefl _ (heq ▸ hlt)
    rw [matchesLike_items]
    exact kind.holds_self _
  | true =>
    -- the backslash at the end takes the wildcard behind it for a percent sign
    have hpercent : postgreSql.readLike? (some '\\') .plain (s.toList ++ ['%']) =
        some ((l ++ ['%']).map .literal) := by
      rw [List.map_append]
      exact hread ['%']
    have hend : postgreSql.readLike? (some '\\') .plain s.toList = none := by
      have hnothing := hread []
      rwa [List.append_nil] at hnothing
    have hle : (l ++ ['%']).length ≤ s.toList.length := by
      rw [List.length_append]
      exact hlt
    have hne : s.toList ≠ l ++ ['%'] := by
      intro heq
      exact absurd (hplain '%' (heq ▸ List.mem_append_right l List.mem_cons_self)) (by decide)
    cases kind with
    | startsWith =>
      refine hmisread ?_ (matchesLike_whole.mpr rfl) hle hne
      rw [SearchKind.decorate, String.toList_append]
      exact hpercent
    | contains =>
      have htext : ("%" ++ s ++ "%").toList = '%' :: (s.toList ++ ['%']) := by simp
      have hitems : postgreSql.readLike? (some '\\') .plain
          (SearchKind.contains.decorate s).toList =
            some (.anything :: (l ++ ['%']).map .literal) := by
        rw [SearchKind.decorate, htext, readLike_percent (by decide), hpercent]
        rfl
      exact hmisread hitems (matchesLike_anything.mpr
        ⟨l ++ ['%'], List.suffix_refl _, matchesLike_whole.mpr rfl⟩) hle hne
    | endsWith =>
      refine ⟨"", ?_⟩
      have htext : ("%" ++ s).toList = '%' :: s.toList := by simp
      rw [hlike, SearchKind.decorate, htext, readLike_percent (by decide), hend]
      exact fun heq => nomatch heq

/-- A pattern without an `ESCAPE` clause is misread for some subject, if it is misread at all. -/
theorem likeText_plain_iff {d : Dialect} {s : String} (kind : SearchKind)
    (h : hasSpecials d.likeSpecials s = false) :
    (∀ subject : String, d.likeText subject (kind.decorate s) none =
      some (kind.holds (s.toList.map d.likeFold) (subject.toList.map d.likeFold))) ↔
      ¬(d = postgreSql ∧ '\\' ∈ s.toList) := by
  constructor
  · rintro hexact ⟨rfl, hbackslash⟩
    obtain ⟨subject, hmisread⟩ := likeText_backslash kind h hbackslash
    have hfold (l : List Char) : l.map postgreSql.likeFold = l := List.map_id l
    rw [hexact subject, hfold, hfold] at hmisread
    exact hmisread rfl
  · intro hfine subject
    exact likeText_plain kind subject h fun hd hbackslash => hfine ⟨hd, hbackslash⟩

end Dialect

end SqlCompiler
