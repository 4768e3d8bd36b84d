import SqlCompiler.Error
import SqlCompiler.Provider.Dialect
import SqlCompiler.Text.Letters

/-!
# Member functions

Expansions of member calls such as `Length` or `Substring` into scalars, by name and number
of arguments.  Several expansions under one key make a call of it ambiguous.

Main definitions:

- `Expansion` and `FunctionCatalog` with `register`, `replace`, `contains`, `expand`.
- `FunctionCatalog.standard` and `Dialect.functions`: the catalogs the dialects start from.
-/

namespace SqlCompiler

/-- Builds the scalar of a call from its arguments and its type. -/
structure Expansion where
  label : String
  apply : List Scalar → SqlType → Scalar

/-- Expansions by name and number of arguments. -/
structure FunctionCatalog where
  entries : List ((String × Nat) × List Expansion) := []

namespace FunctionCatalog

/-- The catalog without expansions. -/
def empty : FunctionCatalog := {}

/-- The expansions of a key. -/
def find? (catalog : FunctionCatalog) (name : String) (arity : Nat) : Option (List Expansion) :=
  (catalog.entries.find? (·.1 == (name, arity))).map (·.2)

/-- Change the expansions of a key, from none if it is new. -/
def alter (catalog : FunctionCatalog) (name : String) (arity : Nat)
    (f : List Expansion → List Expansion) : FunctionCatalog :=
  let key := (name, arity)
  ⟨if catalog.entries.any (·.1 == key) then
      catalog.entries.map fun entry => if entry.1 == key then (key, f entry.2) else entry
    else catalog.entries ++ [(key, f [])]⟩

/-- Add an expansion; others under the key are kept. -/
def register (catalog : FunctionCatalog) (name : String) (arity : Nat) (t : Expansion) :
    FunctionCatalog :=
  catalog.alter name arity (· ++ [t])

/-- Make an expansion the only one of its key. -/
def replace (catalog : FunctionCatalog) (name : String) (arity : Nat) (t : Expansion) :
    FunctionCatalog :=
  catalog.alter name arity fun _ => [t]

/-- The expansion to a database function with the same arguments. -/
def renamed (sqlName : String) : Expansion :=
  ⟨sqlName, fun args type => .call sqlName args type⟩

/-- Make a database function the only expansion of a key. -/
def rename (catalog : FunctionCatalog) (name : String) (arity : Nat) (sqlName : String) :
    FunctionCatalog :=
  catalog.replace name arity (renamed sqlName)

/-- The expansion to a raw text. -/
def formatted (label format : String) : Expansion :=
  ⟨label, fun args type => .formatted format args type⟩

/-- Whether a key has expansions. -/
def contains (catalog : FunctionCatalog) (name : String) (arity : Nat) : Bool :=
  (catalog.find? name arity).isSome

/-- Expand a call; nothing if the catalog does not know it. -/
def expand (catalog : FunctionCatalog) (name : String) (args : List Scalar) (type : SqlType) :
    Except SqlError (Option Scalar) :=
  match catalog.find? name args.length with
  | none => .ok none
  | some [t] => .ok (some (t.apply args type))
  | some candidates => .error (.ambiguousPattern name (candidates.map (·.label)))

/-! ## Standard expansions -/

/-- A position counted from 1, given one counted from 0. -/
def oneBased (start : Scalar) : Scalar :=
  .binary start .add (.int 1) .int32

/-- The part of a text from a position to its end; `rest` gives its length. -/
def substringFrom (label : String) (rest : Scalar → Scalar → Scalar) : Expansion :=
  ⟨label, fun args type =>
    let text := args[0]?.getD .null
    let start := args[1]?.getD .null
    .call "Substring" [text, oneBased start, rest text start] type⟩

/-- The part of a text of a given length from a position. -/
def substringOf (label sqlName : String) : Expansion :=
  ⟨label, fun args type =>
    .call sqlName [args[0]?.getD .null, oneBased (args[1]?.getD .null), args[2]?.getD .null] type⟩

/-- The parts of a date or a time. -/
def timeParts : List String :=
  ["Year", "Month", "Day", "Hour", "Minute", "Second"]

/-- Expand the parts of a date or a time by a raw text each. -/
def withTimeParts (catalog : FunctionCatalog) (format : String → String) : FunctionCatalog :=
  timeParts.foldl (fun catalog part => catalog.replace part 1 (formatted part (format part)))
    catalog

/-- The expansions every dialect starts from. -/
def standard : FunctionCatalog :=
  let renames : List (String × Nat × String) :=
    [("Length", 1, "Length"), ("ToUpper", 1, "Upper"), ("ToLower", 1, "Lower"),
      ("Trim", 1, "Trim"), ("TrimStart", 1, "LTrim"), ("TrimEnd", 1, "RTrim"),
      ("Replace", 3, "Replace"), ("Abs", 1, "Abs"), ("Round", 1, "Round"),
      ("Round", 2, "Round"), ("Floor", 1, "Floor"), ("Ceiling", 1, "Ceiling")]
  let named := renames.foldl
    (fun catalog (name, arity, sqlName) => catalog.register name arity (renamed sqlName)) empty
  let withSubstrings :=
    (named.register "Substring" 2 (substringFrom "Substring(s, start)" fun text start =>
      .binary (.call "Length" [text] .int32) .subtract start .int32)).register
      "Substring" 3 (substringOf "Substring(s, start, length)" "Substring")
  withSubstrings.withTimeParts fun part => "EXTRACT(" ++ Text.upper part ++ " FROM {0})"

end FunctionCatalog

open FunctionCatalog in
/-- The expansions of a dialect. -/
def Dialect.functions : Dialect → FunctionCatalog
  | .generic => standard
  | .sqlServer =>
    ((standard.rename "Length" 1 "Len").replace "Substring" 2
      (substringFrom "Substring(s, start)" fun text _ => .call "Len" [text] .int32)).withTimeParts
      fun part => "DatePart(" ++ Text.lower part ++ ", {0})"
  | .postgreSql => standard.rename "Ceiling" 1 "Ceil"
  | .sqlite =>
    ((standard.rename "Ceiling" 1 "Ceil").replace "Substring" 3
      (substringOf "Substr(s, start, length)" "Substr")).withTimeParts fun part =>
        let directive :=
          match part with
          | "Year" => "%Y"
          | "Month" => "%m"
          | "Day" => "%d"
          | "Hour" => "%H"
          | "Minute" => "%M"
          | _ => "%S"
        "Cast(StrFTime('" ++ directive ++ "', {0}) as int)"
  | .db2 => timeParts.foldl (fun catalog part => catalog.rename part 1 part) standard

end SqlCompiler
