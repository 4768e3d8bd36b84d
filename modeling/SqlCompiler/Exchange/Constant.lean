import SqlCompiler.Data.Constant
import SqlCompiler.Json.Basic
import SqlCompiler.Text.Decimal
import SqlCompiler.Text.Numeral

/-!
# Constants, types and parameters as JSON

Values are exchanged with other programs as JSON.  A reader takes a JSON value apart or says
what it expected.  Missing parts read as `null`.

Absence, truth values, integers and texts stand for themselves; any other constant is an
object whose only key names its kind.  A type is its name, or a list with its facets.

Main definitions:

- `Decode` and the readers of texts, flags, numbers, lists and optional values.
- `readTag` and `writeTag`: enumerations by the names of their values.
- `readConstant`, `writeConstant`.
- `readType`, `writeType`.
- `readParameter`, `writeParameter`.
-/

namespace SqlCompiler.Exchange

/-! ## Readers -/

/-- A value read from JSON, or what was expected instead. -/
abbrev Decode := Except String

/-- A text. -/
def readText : Json → Decode String
  | .text s => .ok s
  | _ => .error "text expected"

/-- A flag, off unless given. -/
def readFlag : Json → Decode Bool
  | .bool b => .ok b
  | .null => .ok false
  | _ => .error "flag expected"

/-- A whole number. -/
def readInt : Json → Decode Int
  | .integer n => .ok n
  | _ => .error "integer expected"

/-- A whole number that is not negative. -/
def readNat (j : Json) : Decode Nat := do
  let n ← readInt j
  if n < 0 then .error "count expected" else .ok n.toNat

/-- A value that may be missing. -/
def optional {α : Type} (read : Json → Decode α) : Json → Decode (Option α)
  | .null => .ok none
  | j => some <$> read j

/-- A list, empty unless given. -/
def readList {α : Type} (read : Json → Decode α) : Json → Decode (List α)
  | .null => .ok []
  | .list items => items.mapM read
  | _ => .error "list expected"

/-- A list of two parts. -/
def readPair {α β : Type} (first : Json → Decode α) (second : Json → Decode β) (j : Json) :
    Decode (α × β) :=
  return (← first (j.item 0), ← second (j.item 1))

/-- The result of a reader that does not say what it expected. -/
def orError {α : Type} (expected : String) : Option α → Decode α
  | some a => .ok a
  | none => .error (expected ++ " expected")

/-- One of several named values. -/
def readTag {α : Type} (table : List (String × α)) (j : Json) : Decode α := do
  let name ← readText j
  match table.find? (·.1 == name) with
  | some (_, value) => .ok value
  | none => .error ("unknown name " ++ name)

/-- The name of a value. -/
def writeTag {α : Type} [BEq α] (table : List (String × α)) (value : α) : Json :=
  Json.orNull (fun entry => .text entry.1) (table.find? (·.2 == value))

/-! ## Constants -/

/-- Year, month and day from the given position on. -/
def readDate (j : Json) (start : Nat) : Decode Date :=
  return ⟨← readInt (j.item start), ← readNat (j.item (start + 1)), ← readNat (j.item (start + 2))⟩

/-- Hour, minute, second and nanoseconds from the given position on. -/
def readTime (j : Json) (start : Nat) : Decode TimeOfDay :=
  return ⟨← readNat (j.item start), ← readNat (j.item (start + 1)),
    ← readNat (j.item (start + 2)), ← readNat (j.item (start + 3))⟩

/-- Year, month and day. -/
def writeDate (d : Date) : List Json := [.integer d.year, .nat d.month, .nat d.day]

/-- Hour, minute, second and nanoseconds. -/
def writeTime (t : TimeOfDay) : List Json :=
  [.nat t.hour, .nat t.minute, .nat t.second, .nat t.nanos]

/-- A constant nested at most `fuel` deep. -/
def readConstantWithin : Nat → Json → Decode Constant
  | 0, _ => .error "constant expected"
  | fuel + 1, j =>
    let read := readConstantWithin fuel
    match j with
    | .null => .ok .null
    | .bool b => .ok (.boolean b)
    | .integer n => .ok (.integer n)
    | .text s => .ok (.text s)
    | .object [("f", v)] => return .float (← orError "number" (Text.readFloat? (← readText v)))
    | .object [("dec", v)] => return .decimal (← readText v)
    | .object [("bin", v)] =>
      return .binary (← orError "bytes" (Text.readHex? (← readText v).toList))
    | .object [("date", v)] => return .date (← readDate v 0)
    | .object [("time", v)] => return .time (← readTime v 0)
    | .object [("dt", v)] => return .timestamp ⟨← readDate v 0, ← readTime v 3⟩
    | .object [("list", v)] => return .list (← readList read v)
    | .object [("rec", v)] =>
      return .record (Members.ofList (← readList (readPair readText read) v))
    | _ => .error "constant expected"

/-- A constant. -/
def readConstant (j : Json) : Decode Constant := readConstantWithin j.depth j

mutual

/-- A constant. -/
def writeConstant : Constant → Json
  | .null => .null
  | .boolean b => .bool b
  | .integer n => .integer n
  | .float f => .object [("f", .text (Text.FloatStyle.literal.text f))]
  | .decimal s => .object [("dec", .text s)]
  | .text s => .text s
  | .binary bytes => .object [("bin", .text (Text.hexOf bytes))]
  | .date d => .object [("date", .list (writeDate d))]
  | .time t => .object [("time", .list (writeTime t))]
  | .timestamp t => .object [("dt", .list (writeDate t.date ++ writeTime t.time))]
  | .list items => .object [("list", .list (writeConstants items))]
  | .record members => .object [("rec", .list (writeConstantMembers members))]
termination_by structural c => c

/-- A list of constants. -/
def writeConstants : List Constant → List Json
  | [] => []
  | c :: rest => writeConstant c :: writeConstants rest
termination_by structural cs => cs

/-- The members of a record, in order. -/
def writeConstantMembers : List (String × Constant) → List Json
  | [] => []
  | (name, c) :: rest => .list [.text name, writeConstant c] :: writeConstantMembers rest
termination_by structural ms => ms

end

/-! ## Types -/

/-- The name of a kind of types. -/
def readKind (j : Json) : Decode TypeKind := do
  orError "type" (TypeKind.ofName? (← readText j))

/-- A type; a missing one is undefined. -/
def readType (j : Json) : Decode SqlType := do
  match j with
  | .null => return .undefined
  | .text _ => return .plain (← readKind j)
  | _ =>
    return {
      kind := ← readKind (j.item 0)
      length := ← optional readNat (j.item 1)
      precision := ← optional readNat (j.item 2)
      scale := ← optional readNat (j.item 3) }

/-- A type. -/
def writeType (t : SqlType) : Json :=
  if t == .plain t.kind then .text t.kind.name
  else
    .list [.text t.kind.name, Json.orNull .nat t.length, Json.orNull .nat t.precision,
      Json.orNull .nat t.scale]

/-- A type; a missing one is the natural type of a constant. -/
def readTypeOf (value : Constant) (j : Json) : Decode SqlType :=
  if j.isNull then .ok value.naturalType else readType j

/-! ## Parameters -/

/-- Name, value, type and whether it is a query parameter, from the given position on. -/
def readParameter (j : Json) (start : Nat) : Decode Parameter := do
  let value ← readConstant (j.item (start + 1))
  return {
    name := ← readText (j.item start)
    type := ← readTypeOf value (j.item (start + 2))
    value
    isQuery := (← optional readFlag (j.item (start + 3))).getD true }

/-- The parts of a parameter. -/
def writeParameterParts (p : Parameter) : List Json :=
  [.text p.name, writeConstant p.value, writeType p.type, .bool p.isQuery]

/-- A parameter. -/
def writeParameter (p : Parameter) : Json := .list (writeParameterParts p)

end SqlCompiler.Exchange
