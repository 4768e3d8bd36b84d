import SqlCompiler.Proofs.Semantics.Elements

/-!
# Functions in a scope

A function may mention the variables of the functions around it beside its own arguments.  What
it makes of its arguments depends on the elements the variables stand for; a variable that stands
for groups is known by its key only.

Main results:

- Definition `Term.evalIn`, `Term.applyIn`: the value of a body, and of a function, in a scope.
- Definition `VariableShape`, `Term.shapeIn?`, `Term.functionShapeIn?`: their static shapes.
- Theorem `Term.evalIn_single`, `Term.shapeIn?_single`: in the scope of one variable these are the
  value and the shape of a function of one argument.
-/

namespace SqlCompiler

/-! ## Values -/

section

variable {V : Type} (I : Interpretation V) (scope : List (String × Element V))

mutual

/-- The value of the body of a function in a scope. -/
def Term.evalIn : Term → Element V
  | .bound name => (scope.lookup name).getD (.value I.unknown)
  | .member owner name => (owner.evalIn.member? name).getD (.value I.unknown)
  | .constant c => .value (I.constant c)
  | .parameter name c => .value (I.parameter name c)
  | .binary op l r =>
    .value (I.infixValue op l.isAbsent r.isAbsent (l.evalIn.asValue I) (r.evalIn.asValue I))
  | .not t => .value (I.ofTruth (Truth.not (I.toTruth (t.evalIn.asValue I))))
  | .negate t => .value (I.negate (t.evalIn.asValue I))
  | .conditional test yes no =>
    .value (if I.toTruth (test.evalIn.asValue I) == some true then yes.evalIn.asValue I
      else no.evalIn.asValue I)
  | .convert t kind => .value (I.convert kind (t.evalIn.asValue I))
  | .record members | .entity _ members => .record (Members.ofList (evalMembersIn members))
  | .quote t => t.evalIn
  | _ => .value I.unknown
termination_by structural t => t

/-- The values of the members of a record in a scope. -/
def evalMembersIn : List (String × Term) → List (String × Element V)
  | [] => []
  | (name, t) :: rest => (name, t.evalIn) :: evalMembersIn rest
termination_by structural ms => ms

end

/-- What a function in a scope makes of its arguments. -/
def Term.applyIn (f : Term) (args : List (Element V)) : Element V :=
  match f.functionOf args.length with
  | .ok (params, body) => body.evalIn I ((params.zip args).reverse ++ scope)
  | .error _ => .value I.unknown

end

section

variable {V : Type} (I : Interpretation V) (param : String) (row : Element V)

mutual

/-- In the scope of one variable, the value of a body is what the function makes of the variable. -/
theorem Term.evalIn_single (t : Term) : t.evalIn I [(param, row)] = t.eval I param row := by
  cases t with
  | bound name =>
    rw [Term.evalIn, Term.eval, List.lookup_cons, List.lookup_nil]
    cases name == param <;> rfl
  | member owner name => rw [Term.evalIn, Term.eval, Term.evalIn_single owner]
  | binary op l r => rw [Term.evalIn, Term.eval, Term.evalIn_single l, Term.evalIn_single r]
  | not t => rw [Term.evalIn, Term.eval, Term.evalIn_single t]
  | negate t => rw [Term.evalIn, Term.eval, Term.evalIn_single t]
  | conditional test yes no =>
    rw [Term.evalIn, Term.eval, Term.evalIn_single test, Term.evalIn_single yes,
      Term.evalIn_single no]
  | convert t kind => rw [Term.evalIn, Term.eval, Term.evalIn_single t]
  | record members => rw [Term.evalIn, Term.eval, evalMembersIn_single members]
  | entity name members => rw [Term.evalIn, Term.eval, evalMembersIn_single members]
  | quote t => exact Term.evalIn_single t
  | _ => rfl
termination_by structural t

theorem evalMembersIn_single (members : List (String × Term)) :
    evalMembersIn I [(param, row)] members = evalMembers I param row members := by
  cases members with
  | nil => rfl
  | cons m rest =>
    obtain ⟨name, t⟩ := m
    rw [evalMembersIn, evalMembers, Term.evalIn_single t, evalMembersIn_single rest]
termination_by structural members

end

end

/-! ## Shapes -/

/-- What is known of a variable without a look at the rows. -/
inductive VariableShape where
  /-- It stands for elements of a shape. -/
  | element (σ : Shape)
  /-- It stands for groups whose key has a shape. -/
  | group (key : Shape)
  deriving Inhabited

/-- The shape of a member of a variable that stands for groups. -/
def Term.groupMember? (scope : List (String × VariableShape)) (name : String) :
    Term → Option Shape
  | .bound group =>
    match scope.lookup group with
    | some (.group key) => if name == "Key" then some key else none
    | _ => none
  | _ => none

section

variable (scope : List (String × VariableShape))

mutual

/-- The shape of the body of a function in a scope, if it is built from members, constants and
operators, and tests no member for equality that may have been written as the absent constant. -/
def Term.shapeIn? : Term → Option Shape
  | .bound name =>
    match scope.lookup name with
    | some (.element σ) => some σ
    | _ => none
  | .member owner name =>
    match owner.groupMember? scope name, owner.shapeIn? with
    | some key, _ => some key
    | none, some (.record members) => Members.get? name members
    | none, _ => none
  | .constant c => some (.value c.isNull)
  | .parameter .. => some (.value false)
  | .binary op l r =>
    if op.isEquality && (Shape.hidesAbsence l.isAbsent l.shapeIn? ||
        Shape.hidesAbsence r.isAbsent r.shapeIn?) then none
    else Shape.ofValues [l.shapeIn?, r.shapeIn?]
  | .not t | .negate t | .convert t _ => Shape.ofValues [t.shapeIn?]
  | .conditional test yes no => Shape.ofValues [test.shapeIn?, yes.shapeIn?, no.shapeIn?]
  | .record members => (membersShapeIn? members).map fun ms => .record (Members.ofList ms)
  | .entity _ members =>
    match membersShapeIn? members with
    | some ms =>
      if ms.all fun m =>
        match m.2 with
        | .value _ => true
        | .record _ => false
      then some (.record (Members.ofList ms)) else none
    | none => none
  | .quote t => t.shapeIn?
  | _ => none
termination_by structural t => t

/-- The shapes of the members of a record in a scope. -/
def membersShapeIn? : List (String × Term) → Option (List (String × Shape))
  | [] => some []
  | (name, t) :: rest =>
    match t.shapeIn?, membersShapeIn? rest with
    | some τ, some shapes => some ((name, τ) :: shapes)
    | _, _ => none
termination_by structural ms => ms

end

/-- The shape of what a function in a scope makes of arguments of given shapes. -/
def Term.functionShapeIn? (f : Term) (args : List Shape) : Option Shape :=
  match f.functionOf args.length with
  | .ok (params, body) =>
    body.shapeIn? ((params.zip (args.map VariableShape.element)).reverse ++ scope)
  | .error _ => none

end

section

variable (param : String) (σ : Shape)

theorem Term.groupMember?_single (t : Term) (name : String) :
    t.groupMember? [(param, .element σ)] name = none := by
  unfold groupMember?
  split
  · next group =>
    rw [List.lookup_cons, List.lookup_nil]
    cases group == param <;> rfl
  · rfl

mutual

/-- In the scope of one variable, a body has the shape of the body of a function of it. -/
theorem Term.shapeIn?_single (t : Term) :
    t.shapeIn? [(param, .element σ)] = t.shape? param σ := by
  cases t with
  | bound name =>
    rw [Term.shapeIn?, Term.shape?, List.lookup_cons, List.lookup_nil]
    cases name == param <;> rfl
  | member owner name =>
    rewrite [Term.shapeIn?, Term.shape?, Term.groupMember?_single, Term.shapeIn?_single owner]
    rcases owner.shape? param σ with _ | ⟨_ | _⟩ <;> rfl
  | binary op l r => rw [Term.shapeIn?, Term.shape?, Term.shapeIn?_single l, Term.shapeIn?_single r]
  | not t => rw [Term.shapeIn?, Term.shape?, Term.shapeIn?_single t]
  | negate t => rw [Term.shapeIn?, Term.shape?, Term.shapeIn?_single t]
  | conditional test yes no =>
    rw [Term.shapeIn?, Term.shape?, Term.shapeIn?_single test, Term.shapeIn?_single yes,
      Term.shapeIn?_single no]
  | convert t kind => rw [Term.shapeIn?, Term.shape?, Term.shapeIn?_single t]
  | record members => rw [Term.shapeIn?, Term.shape?, membersShapeIn?_single members]
  | entity name members =>
    rewrite [Term.shapeIn?, Term.shape?, membersShapeIn?_single members]
    cases membersShape? param σ members <;> rfl
  | quote t => exact Term.shapeIn?_single t
  | _ => rfl
termination_by structural t

theorem membersShapeIn?_single (members : List (String × Term)) :
    membersShapeIn? [(param, .element σ)] members = membersShape? param σ members := by
  cases members with
  | nil => rfl
  | cons m rest =>
    obtain ⟨name, t⟩ := m
    rewrite [membersShapeIn?, membersShape?, Term.shapeIn?_single t, membersShapeIn?_single rest]
    cases t.shape? param σ <;> rfl
termination_by structural members

end

end

/-! ## Functions of one argument -/

/-- A function has as many parameters as it is asked for. -/
theorem Term.length_functionOf {f body : Term} {arity : Nat} {params : List String}
    (h : f.functionOf arity = .ok (params, body)) : params.length = arity := by
  fun_induction Term.functionOf arity f with
  | case1 params' body' hlength =>
    cases h
    exact eq_of_beq hlength
  | case2 => cases h
  | case3 inner ih => exact ih h
  | case4 => cases h

/-- Outside of other functions, a function makes of its argument what its body does. -/
theorem Term.applyIn_nil {V : Type} (I : Interpretation V) (f : Term) (row : Element V) :
    f.applyIn I [] [row] = f.applyTo I row := by
  rw [Term.applyIn, Term.applyTo, List.length_singleton]
  cases hf : f.functionOf 1 with
  | error e => rfl
  | ok r =>
    obtain ⟨params, body⟩ := r
    obtain ⟨param, rfl⟩ := List.length_eq_one_iff.mp (Term.length_functionOf hf)
    exact body.evalIn_single I param row

theorem Term.functionShapeIn?_nil (f : Term) (σ : Shape) :
    f.functionShapeIn? [] [σ] = f.functionShape? σ := by
  rw [Term.functionShapeIn?, Term.functionShape?, List.length_singleton]
  cases hf : f.functionOf 1 with
  | error e => rfl
  | ok r =>
    obtain ⟨params, body⟩ := r
    obtain ⟨param, rfl⟩ := List.length_eq_one_iff.mp (Term.length_functionOf hf)
    exact body.shapeIn?_single param σ

end SqlCompiler
