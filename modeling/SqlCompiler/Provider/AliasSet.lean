import SqlCompiler.Text.Letters

/-!
# Aliases handed out so far

Aliases are compared without regard to case, since most databases fold unquoted names.  No alias may
be a reserved word, whatever its case.

Main definitions:

- `isReserved`: the reserved words.
- `AliasSet` with `contains` and `reserve`.
- `AliasSet.nextNumbered`: the first free name of a numbered series.
- `AliasSet.choose`: a wanted alias if it is usable, else a numbered one.
-/

namespace SqlCompiler

/-! ## Reserved words -/

/-- The reserved words, in upper case. -/
def reservedWords : List String :=
  ["ALL", "AND", "AS", "ASC", "BETWEEN", "BY", "CASE", "CHECK", "CREATE", "CROSS", "DEFAULT",
    "DELETE", "DESC", "DISTINCT", "DROP", "ELSE", "END", "EXCEPT", "EXISTS", "FETCH", "FROM",
    "FULL", "GROUP", "HAVING", "IN", "INDEX", "INNER", "INSERT", "INTERSECT", "INTO", "IS",
    "JOIN", "KEY", "LEFT", "LIKE", "LIMIT", "MERGE", "NOT", "NULL", "OFFSET", "ON", "OR",
    "ORDER", "OUTER", "PRIMARY", "RIGHT", "SELECT", "SET", "TABLE", "THEN", "TOP", "TRUNCATE",
    "UNION", "UPDATE", "USER", "USING", "VALUES", "WHEN", "WHERE", "WITH"]

/-- Whether a word is reserved. -/
def isReserved (word : String) : Bool :=
  reservedWords.contains (Text.upper word)

/-! ## Aliases -/

/-- The aliases in use, in lower case. -/
structure AliasSet where
  used : List String := []
  deriving Inhabited

namespace AliasSet

/-- Whether an alias is in use, in any case. -/
def contains (set : AliasSet) (aliasName : String) : Bool :=
  set.used.contains (Text.lower aliasName)

/-- Put an alias to use. -/
def add (set : AliasSet) (aliasName : String) : AliasSet :=
  if set.contains aliasName then set else ⟨Text.lower aliasName :: set.used⟩

/-- Put an alias to use, and say whether it was free. -/
def reserve (set : AliasSet) (aliasName : String) : Bool × AliasSet :=
  (!set.contains aliasName, set.add aliasName)

/-- Neither in use nor a reserved word. -/
def isFree (set : AliasSet) (aliasName : String) : Bool :=
  !set.contains aliasName && !isReserved aliasName

/-- The first free name among `base` with the numbers from `n` on, looking at `fuel`. -/
def firstFree (set : AliasSet) (base : String) : Nat → Nat → String
  | 0, _ => ""
  | fuel + 1, n =>
    let candidate := base ++ toString n
    if set.isFree candidate then candidate else set.firstFree base fuel (n + 1)

/-- Take the first free name of the series `base1`, `base2`, ...  Every name in use and every
reserved word blocks at most one of them. -/
def nextNumbered (set : AliasSet) (base : String) : String × AliasSet :=
  let aliasName := set.firstFree base (set.used.length + reservedWords.length + 1) 1
  (aliasName, set.add aliasName)

/-- The ASCII letters, digits and underscores of a text. -/
def wordCharacters (s : String) : String :=
  String.ofList (s.toList.filter fun c => c.isAlphanum || c == '_')

/-- Whether a text can stand as an alias: not empty and no leading digit. -/
def isWord (s : String) : Bool :=
  match s.toList with
  | [] => false
  | c :: _ => !c.isDigit

/-- Take the wanted alias if it is free, else a numbered one: numbered after the wanted alias
if that is a word, else after `base`. -/
def choose (set : AliasSet) (wanted : Option String) (base : String) : String × AliasSet :=
  let word := wordCharacters (wanted.getD "")
  if !isWord word then set.nextNumbered base
  else if set.isFree word then (word, set.add word)
  else set.nextNumbered word

/-- Take `count` names of a series. -/
def takeNumbered (set : AliasSet) (base : String) : Nat → List String × AliasSet
  | 0 => ([], set)
  | count + 1 =>
    let (aliasName, set) := set.nextNumbered base
    let (rest, set) := set.takeNumbered base count
    (aliasName :: rest, set)

end AliasSet

end SqlCompiler
