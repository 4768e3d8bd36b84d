import SqlCompiler.Json.Basic
import SqlCompiler.Text.Numeral

/-!
# Writing JSON

Main definitions:

- `Json.quoted`: a text in quotes.
- `Json.print`: a value on one line, without blanks.
-/

namespace SqlCompiler.Json

/-- A character inside quotes. -/
def escaped (c : Char) : List Char :=
  if c == '"' || c == '\\' then ['\\', c]
  else if c == '\n' then ['\\', 'n']
  else if c.toNat < 32 then
    ['\\', 'u', '0', '0', Text.hexDigit (c.toNat / 16), Text.hexDigit (c.toNat % 16)]
  else [c]

/-- A text in quotes. -/
def quoted (s : String) : String :=
  String.ofList ('"' :: s.toList.flatMap escaped ++ ['"'])

mutual

/-- A value on one line. -/
def print : Json → String
  | null | real | broken => "null"
  | bool b => if b then "true" else "false"
  | integer n => toString n
  | text s => quoted s
  | list items => "[" ++ ",".intercalate (printItems items) ++ "]"
  | object members => "\x7b" ++ ",".intercalate (printMembers members) ++ "\x7d"
termination_by structural j => j

/-- The items of a list. -/
def printItems : List Json → List String
  | [] => []
  | j :: rest => j.print :: printItems rest
termination_by structural js => js

/-- The members of an object. -/
def printMembers : List (String × Json) → List String
  | [] => []
  | (key, j) :: rest => (quoted key ++ ":" ++ j.print) :: printMembers rest
termination_by structural ms => ms

end

end SqlCompiler.Json
