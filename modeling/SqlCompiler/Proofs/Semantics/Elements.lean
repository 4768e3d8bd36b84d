import SqlCompiler.Lowering.Projection
import SqlCompiler.Proofs.Semantics.Evaluation
import SqlCompiler.Term.Basic

/-!
# Elements of sequences

The elements a query term speaks about are single values and records of them.  A projection says
which element a row of a query stands for; a function of a term says what becomes of an element.

Main results:

- Definition `Element`, `Projection.denote`: elements, and the element of a row.
- Definition `Term.eval`: the value of the body of a function.
- Definition `Shape`, `Term.shape?`: the static shape of elements.  A function whose body has a
  shape is built from members, constants and operators, and tests no member for equality that a
  selector may have made the absent constant.
- Theorem `Projection.leaves_denote`: the leaves of an element are the values of the leaves.
-/

namespace SqlCompiler

/-! ## Elements -/

/-- An element of a sequence: one value, or a record of named members. -/
inductive Element (V : Type) where
  | value (v : V)
  | record (members : List (String × Element V))
  deriving Inhabited

namespace Element

variable {V : Type}

section

variable [DecidableEq V]

mutual

/-- Whether two elements are equal. -/
def decEq : (a b : Element V) → Decidable (a = b)
  | value v, value w => decidable_of_iff (v = w) (by simp)
  | record ms, record ns =>
    match decEqMembers ms ns with
    | isTrue h => isTrue (by rw [h])
    | isFalse h => isFalse (by simpa using h)
  | value _, record _ => isFalse (by simp)
  | record _, value _ => isFalse (by simp)

/-- Whether two lists of members are equal. -/
def decEqMembers : (ms ns : List (String × Element V)) → Decidable (ms = ns)
  | [], [] => isTrue rfl
  | (m, a) :: ms, (n, b) :: ns =>
    match decEq a b, decEqMembers ms ns with
    | isTrue ha, isTrue hms => decidable_of_iff (m = n) (by simp [ha, hms])
    | isFalse ha, _ => isFalse (by simp [ha])
    | _, isFalse hms => isFalse (by simp [hms])
  | [], _ :: _ => isFalse (by simp)
  | _ :: _, [] => isFalse (by simp)

end

instance : DecidableEq (Element V) := decEq

end

/-- The member of that name, if there is one. -/
def member? (e : Element V) (name : String) : Option (Element V) :=
  match e with
  | value _ => none
  | record members => Members.get? name members

/-- The value an element is. -/
def asValue (I : Interpretation V) : Element V → V
  | value v => v
  | record _ => I.unknown

mutual

/-- The values of an element at a path, with their paths. -/
def leavesAt (path : String) : Element V → List (String × V)
  | value v => [(path, v)]
  | record members => leavesOfMembers path members
termination_by structural e => e

/-- The values of the members of a record at a path. -/
def leavesOfMembers (path : String) : List (String × Element V) → List (String × V)
  | [] => []
  | (name, e) :: rest =>
    e.leavesAt (Projection.memberPath path name) ++ leavesOfMembers path rest
termination_by structural ms => ms

end

/-- The values of an element with their paths. -/
def leaves (e : Element V) : List (String × V) := e.leavesAt ""

end Element

/-! ## Elements of rows -/

section

variable {V : Type} (I : Interpretation V) (ρ : Env V)

mutual

/-- The element a row stands for. -/
def Projection.denote : Projection → Element V
  | .entity _ _ members => .record (members.map fun (name, e) => (name, .value (e.eval I ρ)))
  | .record members => .record (denoteMembers members)
  | .scalar e => .value (e.eval I ρ)
  | .grouping key _ => .record [("Key", key.denote)]
termination_by structural p => p

/-- The members of the element a row stands for. -/
def denoteMembers : List (String × Projection) → List (String × Element V)
  | [] => []
  | (name, p) :: rest => (name, p.denote) :: denoteMembers rest
termination_by structural ms => ms

end

theorem denoteMembers_eq_map (members : List (String × Projection)) :
    denoteMembers I ρ members = members.map fun (name, p) => (name, p.denote I ρ) := by
  induction members with
  | nil => rfl
  | cons m rest ih => rw [denoteMembers, ih, List.map_cons]

/-- A leaf with the value of its scalar. -/
def evalLeaf (leaf : String × Scalar) : String × V := (leaf.1, leaf.2.eval I ρ)

theorem leavesOfMembers_values (path : String) (members : List (String × Scalar)) :
    Element.leavesOfMembers path
        (members.map fun (name, e) => (name, Element.value (e.eval I ρ))) =
      (members.map fun (name, e) => (Projection.memberPath path name, e)).map (evalLeaf I ρ) := by
  induction members with
  | nil => rfl
  | cons m rest ih =>
    rw [List.map_cons, Element.leavesOfMembers, ih]
    rfl

mutual

/-- The leaves of the element of a row at a path. -/
theorem Projection.leavesAt_denote (p : Projection) (path : String) :
    (p.denote I ρ).leavesAt path = (p.leavesAt path).map (evalLeaf I ρ) := by
  cases p with
  | entity name table members => exact leavesOfMembers_values I ρ path members
  | record members => exact leavesOfMembers_denote members path
  | scalar e => rfl
  | grouping key element =>
    rw [Projection.denote, Element.leavesAt, Element.leavesOfMembers, Element.leavesOfMembers,
      List.append_nil, Projection.leavesAt, Projection.leavesAt_denote key]
termination_by structural p

/-- The leaves of the members of the element of a row. -/
theorem leavesOfMembers_denote (members : List (String × Projection)) (path : String) :
    Element.leavesOfMembers path (denoteMembers I ρ members) =
      (Projection.leavesOfMembers path members).map (evalLeaf I ρ) := by
  cases members with
  | nil => rfl
  | cons m rest =>
    obtain ⟨name, p⟩ := m
    rw [denoteMembers, Element.leavesOfMembers, Projection.leavesOfMembers, List.map_append,
      Projection.leavesAt_denote p, leavesOfMembers_denote rest]
termination_by structural members

end

/-- The leaves of the element of a row are the values of the leaves of the projection. -/
theorem Projection.leaves_denote (p : Projection) :
    (p.denote I ρ).leaves = p.leaves.map (evalLeaf I ρ) :=
  p.leavesAt_denote I ρ ""

end

/-! ## Functions of elements -/

/-- A term that is the absent constant. -/
def Term.isAbsent : Term → Bool
  | constant .null => true
  | quote body => body.isAbsent
  | _ => false

namespace Interpretation

variable {V : Type} (I : Interpretation V)

/-- A comparison.  Equality with the absent constant is a test for absence. -/
def comparison (op : Comparison) (leftAbsent rightAbsent : Bool) (a b : V) : Truth :=
  if (op == .equal || op == .notEqual) && (rightAbsent || leftAbsent) then
    some (I.isNull (if rightAbsent then a else b) != (op == .notEqual))
  else I.compare op a b

/-- The value of an infix operator. -/
def infixValue (op : TermOperator) (leftAbsent rightAbsent : Bool) (a b : V) : V :=
  match op with
  | .and => I.ofTruth (Truth.and (I.toTruth a) (I.toTruth b))
  | .or => I.ofTruth (Truth.or (I.toTruth a) (I.toTruth b))
  | _ =>
    match op.comparison?, op.arithmetic? with
    | some c, _ => I.ofTruth (I.comparison c leftAbsent rightAbsent a b)
    | none, some op => I.binary op a b
    | none, none => if I.isNull a then b else a

end Interpretation

section

variable {V : Type} (I : Interpretation V) (param : String) (row : Element V)

mutual

/-- What the body of a function makes of an element. -/
def Term.eval : Term → Element V
  | .bound name => if name == param then row else .value I.unknown
  | .member owner name => (owner.eval.member? name).getD (.value I.unknown)
  | .constant c => .value (I.constant c)
  | .parameter name c => .value (I.parameter name c)
  | .binary op l r =>
    .value (I.infixValue op l.isAbsent r.isAbsent (l.eval.asValue I) (r.eval.asValue I))
  | .not t => .value (I.ofTruth (Truth.not (I.toTruth (t.eval.asValue I))))
  | .negate t => .value (I.negate (t.eval.asValue I))
  | .conditional test yes no =>
    .value (if I.toTruth (test.eval.asValue I) == some true then yes.eval.asValue I
      else no.eval.asValue I)
  | .convert t kind => .value (I.convert kind (t.eval.asValue I))
  | .record members | .entity _ members => .record (Members.ofList (evalMembers members))
  | .quote t => t.eval
  | _ => .value I.unknown
termination_by structural t => t

/-- What the members of a record are made of an element. -/
def evalMembers : List (String × Term) → List (String × Element V)
  | [] => []
  | (name, t) :: rest => (name, t.eval) :: evalMembers rest
termination_by structural ms => ms

end

/-- What a function of one argument makes of an element. -/
def Term.applyTo (f : Term) : Element V :=
  match f.functionOf 1 with
  | .ok ([param], body) => body.eval I param row
  | _ => .value I.unknown

end

/-! ## Shapes -/

/-- What is known of the elements of a sequence without a look at the rows. -/
inductive Shape where
  /-- One value, which may have been written as the absent constant. -/
  | value (absent : Bool)
  | record (members : List (String × Shape))
  deriving Inhabited

/-- The shape of an operator on single values. -/
def Shape.ofValues (shapes : List (Option Shape)) : Option Shape :=
  if shapes.all fun σ =>
    match σ with
    | some (.value _) => true
    | _ => false
  then some (.value false) else none

/-- Whether an operator asks for equality. -/
def TermOperator.isEquality (op : TermOperator) : Bool := op == .equal || op == .notEqual

/-- Whether an operand may have been written as the absent constant, but is not that constant
itself. -/
def Shape.hidesAbsence (isAbsent : Bool) : Option Shape → Bool
  | some (.value absent) => absent && !isAbsent
  | _ => false

section

variable (param : String) (σ : Shape)

mutual

/-- The shape of what the body of a function makes of elements of a given shape, if it is built
from members, constants and operators, and tests no member for equality that may have been written
as the absent constant. -/
def Term.shape? : Term → Option Shape
  | .bound name => if name == param then some σ else none
  | .member owner name =>
    match owner.shape? with
    | some (.record members) => Members.get? name members
    | _ => none
  | .constant c => some (.value c.isNull)
  | .parameter .. => some (.value false)
  | .binary op l r =>
    if op.isEquality &&
        (Shape.hidesAbsence l.isAbsent l.shape? || Shape.hidesAbsence r.isAbsent r.shape?) then none
    else Shape.ofValues [l.shape?, r.shape?]
  | .not t | .negate t | .convert t _ => Shape.ofValues [t.shape?]
  | .conditional test yes no => Shape.ofValues [test.shape?, yes.shape?, no.shape?]
  | .record members => (membersShape? members).map fun ms => .record (Members.ofList ms)
  | .entity _ members =>
    match membersShape? members with
    | some ms =>
      if ms.all fun m =>
        match m.2 with
        | .value _ => true
        | .record _ => false
      then some (.record (Members.ofList ms)) else none
    | none => none
  | .quote t => t.shape?
  | _ => none
termination_by structural t => t

/-- The shapes of the members of a record. -/
def membersShape? : List (String × Term) → Option (List (String × Shape))
  | [] => some []
  | (name, t) :: rest =>
    match t.shape?, membersShape? rest with
    | some τ, some shapes => some ((name, τ) :: shapes)
    | _, _ => none
termination_by structural ms => ms

end

/-- The shape of what a function of one argument makes of elements of a given shape. -/
def Term.functionShape? (f : Term) : Option Shape :=
  match f.functionOf 1 with
  | .ok ([param], body) => body.shape? param σ
  | _ => none

end

end SqlCompiler
