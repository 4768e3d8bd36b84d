import SqlCompiler.Data.Constant
import SqlCompiler.Store.Basic
import SqlCompiler.Term.Printer

/-!
# Projections

What the elements of a sequence look like, in terms of the scalars of its query.

Main definitions:

- `Projection`, with `member` and `asScalar?`.
- `Projection.leaves`: its scalars with their paths.
- `Projection.mapLeaves`: another scalar for every leaf.
-/

namespace SqlCompiler

/-- The shape of the elements of a sequence. -/
inductive Projection where
  /-- A mapped entity.  The table is the one its members were read from, also when they are
  read through a subquery now. -/
  | entity (name : String) (table : Option TableRef) (members : List (String × Scalar))
  | record (members : List (String × Projection))
  | scalar (value : Scalar)
  /-- A group: its key and its elements. -/
  | grouping (key element : Projection)
  deriving Inhabited

namespace Projection

/-! ## Parts -/

/-- The entity with every field of a table. -/
def ofTable (s : Store) (name : String) (t : TableRef) : Projection :=
  .entity name (some t)
    (Members.ofList ((s.table t).fields.map fun f => ((s.field f).name, Scalar.field f)))

/-- What a projection is, in words. -/
def describe : Projection → String
  | entity name _ _ => "entity '" ++ name ++ "'"
  | record members => "record \x7b " ++ ", ".intercalate (members.map (·.1)) ++ " \x7d"
  | scalar _ => "a scalar value"
  | grouping .. => "a grouping"

/-- The member of that name, if there is one. -/
def member? (p : Projection) (name : String) : Option Projection :=
  match p with
  | entity _ _ members => (Members.get? name members).map scalar
  | record members => Members.get? name members
  | grouping key _ => if name == "Key" then some key else none
  | scalar _ => none

/-- The member of that name. -/
def member (p : Projection) (name : String) : Except SqlError Projection :=
  match p.member? name with
  | some found => .ok found
  | none => .error (.resolution ("Member '" ++ name ++ "' not found on " ++ p.describe ++ "."))

/-- The scalar a projection is. -/
def asScalar? : Projection → Option Scalar
  | scalar e => some e
  | _ => none

/-- The scalar a term was lowered to. -/
def toScalar (p : Projection) (term : Term) : Except SqlError Scalar :=
  match p with
  | scalar e => .ok e
  | other =>
    .error (.untranslatable term.text ("expected a single value, found " ++ other.describe))

/-- Whether the elements are groups. -/
def isGrouping : Projection → Bool
  | grouping .. => true
  | _ => false

/-! ## Leaves -/

/-- The path of a member below a path; the path of the whole is empty. -/
def memberPath (path name : String) : String :=
  if path.isEmpty then name else path ++ "_" ++ name

mutual

/-- The scalars of a projection at a path, with their paths.  Of a group only the key has
any. -/
def leavesAt (path : String) : Projection → List (String × Scalar)
  | entity _ _ members => members.map fun (name, e) => (memberPath path name, e)
  | record members => leavesOfMembers path members
  | scalar e => [(path, e)]
  | grouping key _ => key.leavesAt (memberPath path "Key")
termination_by structural p => p

/-- The scalars of the members of a record at a path. -/
def leavesOfMembers (path : String) : List (String × Projection) → List (String × Scalar)
  | [] => []
  | (name, p) :: rest => p.leavesAt (memberPath path name) ++ leavesOfMembers path rest
termination_by structural ms => ms

end

/-- The scalars of a projection with their paths. -/
def leaves (p : Projection) : List (String × Scalar) := p.leavesAt ""

/-- The scalars of a projection. -/
def scalars (p : Projection) : List Scalar := p.leaves.map (·.2)

section

variable {m : Type → Type} [Monad m] (f : String → Scalar → m Scalar)

mutual

/-- Replace the scalars of a projection at a path, from left to right. -/
def mapLeavesAt (path : String) : Projection → m Projection
  | entity name table members =>
    return entity name table
      (← members.mapM fun (name, e) => return (name, ← f (memberPath path name) e))
  | record members => return record (← mapLeavesOfMembers path members)
  | scalar e => return scalar (← f path e)
  | grouping key element =>
    return grouping (← key.mapLeavesAt (memberPath path "Key")) element
termination_by structural p => p

/-- Replace the scalars of the members of a record at a path. -/
def mapLeavesOfMembers (path : String) : List (String × Projection) → m (List (String × Projection))
  | [] => return []
  | (name, p) :: rest => do
    let p ← p.mapLeavesAt (memberPath path name)
    return (name, p) :: (← mapLeavesOfMembers path rest)
termination_by structural ms => ms

end

end

/-- Replace every scalar, given its path. -/
def mapLeaves {m : Type → Type} [Monad m] (f : String → Scalar → m Scalar) (p : Projection) :
    m Projection :=
  p.mapLeavesAt f ""

/-- The alias a leaf is selected under; a bare scalar has none. -/
def leafAlias (path : String) : Option String :=
  if path.isEmpty then none else some path

end Projection

end SqlCompiler
