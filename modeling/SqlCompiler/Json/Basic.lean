/-!
# JSON values

Main definitions:

- `Json`: a JSON value.  Members are kept in order, repeated ones included.
- `Json.field`, `Json.item`: parts of objects and lists; a missing part is `null`.
- `Json.orNull`, `Json.listOf`: values of other types as JSON.
-/

namespace SqlCompiler

/-- A JSON value. -/
inductive Json where
  | null
  | bool (value : Bool)
  /-- A number without fraction and exponent that fits into 64 bits. -/
  | integer (value : Int)
  /-- Any other number, which nothing is read from. -/
  | real
  | text (value : String)
  /-- A text, or an object with a key, that holds half of a surrogate pair: nothing is read
  from it. -/
  | broken
  | list (items : List Json)
  | object (members : List (String × Json))
  deriving Inhabited, Repr

namespace Json

/-- Whether the value is `null`. -/
def isNull : Json → Bool
  | null => true
  | _ => false

/-- The first member of a key, or `null`. -/
def field (j : Json) (key : String) : Json :=
  match j with
  | object members => ((members.find? (·.1 == key)).map (·.2)).getD null
  | _ => null

/-- The item of a list at a position, or `null`. -/
def item (j : Json) (index : Nat) : Json :=
  match j with
  | list items => items[index]?.getD null
  | _ => null

/-- A number of items or members. -/
def nat (n : Nat) : Json := integer n

/-- What a value is written as, or `null` without one. -/
def orNull {α : Type} (write : α → Json) : Option α → Json
  | some a => write a
  | none => null

/-- A list of written values. -/
def listOf {α : Type} (write : α → Json) (values : List α) : Json :=
  list (values.map write)

mutual

/-- The number of values nested in each other. -/
def depth : Json → Nat
  | list items => depthOfItems items + 1
  | object members => depthOfMembers members + 1
  | _ => 1
termination_by structural j => j

/-- The greatest depth of some items. -/
def depthOfItems : List Json → Nat
  | [] => 0
  | j :: rest => max j.depth (depthOfItems rest)
termination_by structural js => js

/-- The greatest depth of some members. -/
def depthOfMembers : List (String × Json) → Nat
  | [] => 0
  | (_, j) :: rest => max j.depth (depthOfMembers rest)
termination_by structural ms => ms

end

end Json

end SqlCompiler
