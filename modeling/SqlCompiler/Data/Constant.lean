import SqlCompiler.Data.SqlType
import SqlCompiler.Text.Calendar

/-!
# Constants

Values known while a statement is compiled: database scalars, lists of values and records.  A
record is a list of named members.  Its names are pairwise different when it is built by
`insert`, which overwrites in place.

Main definitions:

- `Members` with `get?`, `insert`, `ofList` and `names`.
- `Constant` and its equality, by which two records are equal whatever the order of their
  members and a number that is not a number differs from itself.
- `Constant.naturalType`: the type a constant has when nothing better is known.
-/

namespace SqlCompiler

/-! ## Named members in order -/

/-- Named members, in the order of their first mention. -/
abbrev Members (α : Type) := List (String × α)

namespace Members

variable {α : Type}

/-- The member of that name. -/
def get? (name : String) : Members α → Option α
  | [] => none
  | (key, value) :: rest => if key == name then some value else get? name rest

/-- Set a member; a name already there keeps its place. -/
def insert (name : String) (value : α) : Members α → Members α
  | [] => [(name, value)]
  | (key, old) :: rest =>
    if key == name then (key, value) :: rest else (key, old) :: insert name value rest

/-- Insert the pairs one after the other. -/
def ofList (pairs : List (String × α)) : Members α :=
  pairs.foldl (fun members (name, value) => members.insert name value) []

/-- The names, in order. -/
def names (members : Members α) : List String :=
  members.map Prod.fst

@[simp] theorem get?_nil (name : String) : get? name ([] : Members α) = none := rfl

/-- The member just set is found. -/
@[simp] theorem get?_insert_self (members : Members α) (name : String) (value : α) :
    get? name (insert name value members) = some value := by
  induction members with
  | nil => simp [insert, get?]
  | cons head rest ih =>
    obtain ⟨key, old⟩ := head
    by_cases h : key = name <;> simp [insert, get?, h, ih]

/-- Setting a member leaves the others alone. -/
theorem get?_insert_of_ne (members : Members α) {name other : String} (value : α)
    (h : other ≠ name) : get? other (insert name value members) = get? other members := by
  induction members with
  | nil => simp [insert, get?, Ne.symm h]
  | cons head rest ih =>
    obtain ⟨key, old⟩ := head
    by_cases hk : key = name
    · subst hk
      simp [insert, get?, Ne.symm h]
    · by_cases ho : key = other <;> simp_all [insert, get?]

section

variable {pairs : List (String × α)} {acc : Members α} {name : String}

theorem get?_foldl_insert (h : name ∉ pairs.map (·.1)) :
    get? name (pairs.foldl (fun members (key, value) => members.insert key value) acc) =
      get? name acc := by
  induction pairs generalizing acc with
  | nil => rfl
  | cons m rest ih =>
    simp only [List.map_cons, List.mem_cons, not_or] at h
    rw [List.foldl_cons, ih h.2, get?_insert_of_ne _ _ h.1]

/-- In a record of pairwise different names each member is found by its name. -/
theorem get?_ofList_of_mem {m : String × α} (hnodup : (pairs.map (·.1)).Nodup) (h : m ∈ pairs) :
    get? m.1 (ofList pairs) = some m.2 := by
  unfold ofList
  generalize ([] : Members α) = acc
  induction pairs generalizing acc with
  | nil => cases h
  | cons head rest ih =>
    rw [List.map_cons, List.nodup_cons] at hnodup
    rw [List.foldl_cons]
    rcases List.mem_cons.mp h with rfl | h
    · rw [get?_foldl_insert hnodup.1, get?_insert_self]
    · exact ih hnodup.2 h _

end

end Members

/-! ## Values -/

/-- A value known while a statement is compiled. -/
inductive Constant where
  | null
  | boolean (value : Bool)
  | integer (value : Int)
  | float (value : Float)
  /-- An exact decimal, kept as text. -/
  | decimal (text : String)
  | text (value : String)
  | binary (bytes : List UInt8)
  | date (value : Date)
  | time (value : TimeOfDay)
  | timestamp (value : Timestamp)
  /-- An enumerable value, such as the list a membership test searches. -/
  | list (items : List Constant)
  /-- An entity-like value keyed by member name. -/
  | record (members : List (String × Constant))
  deriving Repr, Inhabited

namespace Constant

mutual

/-- Equality of constants. -/
def beq : Constant → Constant → Bool
  | null, null => true
  | boolean a, boolean b => a == b
  | integer a, integer b => a == b
  | float a, float b => a == b
  | decimal a, decimal b => a == b
  | text a, text b => a == b
  | binary a, binary b => a == b
  | date a, date b => a == b
  | time a, time b => a == b
  | timestamp a, timestamp b => a == b
  | list as, list bs => beqItems as bs
  | record as, record bs => as.length == bs.length && beqMembers as bs
  | _, _ => false
termination_by structural a => a

/-- Equality of lists of constants. -/
def beqItems : List Constant → List Constant → Bool
  | [], [] => true
  | a :: as, b :: bs => a.beq b && beqItems as bs
  | _, _ => false
termination_by structural as => as

/-- Every member of the first record has an equal member in the second. -/
def beqMembers : List (String × Constant) → List (String × Constant) → Bool
  | [], _ => true
  | (name, a) :: as, bs =>
    (match Members.get? name bs with
      | some b => a.beq b
      | none => false) && beqMembers as bs
termination_by structural as => as

end

instance : BEq Constant := ⟨beq⟩

/-- The absent value. -/
def isNull : Constant → Bool
  | null => true
  | _ => false

/-- The integer, if it is one. -/
def asInteger? : Constant → Option Int
  | integer i => some i
  | _ => none

/-- The kind a constant has when nothing better is known. -/
def naturalKind : Constant → TypeKind
  | null | list _ | record _ => .undefined
  | boolean _ => .boolean
  | integer _ => .int32
  | float _ => .double
  | decimal _ => .decimal
  | text _ => .nVarChar
  | binary _ => .varBinary
  | date _ => .date
  | time _ => .time
  | timestamp _ => .dateTime

/-- The type a constant has when nothing better is known. -/
def naturalType (c : Constant) : SqlType :=
  .plain c.naturalKind

end Constant

/-- A constant with its database type. -/
structure TypedValue where
  type : SqlType
  value : Constant
  deriving Repr, Inhabited

namespace TypedValue

/-- A constant of its natural type. -/
def natural (value : Constant) : TypedValue :=
  ⟨value.naturalType, value⟩

/-- Equality of type and value. -/
def beq (a b : TypedValue) : Bool :=
  a.type == b.type && a.value == b.value

instance : BEq TypedValue := ⟨beq⟩

end TypedValue

/-- A named value bound late.

A query parameter always travels apart from the text of the statement; any other parameter
is written in place when its value has a literal form. -/
structure Parameter where
  name : String
  type : SqlType
  value : Constant
  isQuery : Bool := true
  deriving Repr, Inhabited

namespace Parameter

/-- A query parameter of its value's natural type. -/
def natural (name : String) (value : Constant) : Parameter :=
  { name, type := value.naturalType, value }

/-- Equality of all four parts. -/
def beq (a b : Parameter) : Bool :=
  a.name == b.name && a.type == b.type && a.value == b.value && a.isQuery == b.isQuery

instance : BEq Parameter := ⟨beq⟩

end Parameter

end SqlCompiler
