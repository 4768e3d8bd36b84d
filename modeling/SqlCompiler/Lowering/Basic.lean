import SqlCompiler.Lowering.Projection
import SqlCompiler.Provider.Basic
import SqlCompiler.Schema.Basic

/-!
# Lowering terms to queries

Lowering turns a term into a query of a store, with a projection of its elements and an outcome
that says what the query is for.

Main definitions:

- `Lowered`, `Outcome`: the result of lowering a sequence.
- `LowerM`: the steps of lowering.  They know the schema, the provider and the variables in
  scope, change a store, collect annotations and count the uses of rules.
- `Lowerer`: the functions that lower a part of a term.
-/

namespace SqlCompiler

/-! ## Results -/

/-- A merge that is not closed yet. -/
structure MergeDraft where
  target : TableRef
  targetProjection : Projection
  source : Option Projection := none
  on : Option Condition := none
  operations : List MergeOperation := []
  deriving Inhabited

/-- A multi-table insert that is not closed yet.  Its branches are either all unconditional, or
have a condition each but for one last branch. -/
structure MultiInsertDraft where
  inserts : List ConditionalInsert := []
  unconditional : Bool := false
  hasElse : Bool := false
  deriving Inhabited

/-- Whether a branch has a condition. -/
def MultiInsertDraft.hasWhen (d : MultiInsertDraft) : Bool :=
  d.inserts.any (·.condition.isSome)

/-- What a lowered term produces. -/
inductive Outcome where
  /-- The rows of the projection. -/
  | sequence
  /-- One row. -/
  | element (single orDefault : Bool)
  /-- One value. -/
  | scalar
  /-- A closed data modification or definition. -/
  | statement (body : StatementBody)
  /-- An insert of single values that is not closed yet. -/
  | insertValues (into : TableRef) (items : List Assignment)
  /-- An update that is not closed yet. -/
  | assignments (items : List Assignment)
  | merge (draft : MergeDraft)
  | multiInsert (draft : MultiInsertDraft)
  deriving Inhabited

/-- Whether the outcome is rows. -/
def Outcome.isSequence : Outcome → Bool
  | sequence => true
  | _ => false

/-- A lowered term. -/
structure Lowered where
  query : QueryRef
  projection : Projection
  outcome : Outcome := .sequence
  deriving Inhabited

/-! ## Steps -/

/-- A rule and how often it was used. -/
structure RuleUse where
  name : String
  /-- A fallback is asked after all the others. -/
  isFallback : Bool
  /-- The position at which the rule was given. -/
  order : Nat
  count : Nat := 0
  deriving DecidableEq, Repr, Inhabited

/-- The order in which rules are asked. -/
structure Ranking where
  uses : List RuleUse := []
  /-- Whether a rule has been used more often than the one before it. -/
  isOutdated : Bool := false
  deriving DecidableEq, Repr, Inhabited

/-- What lowering changes. -/
structure LowerState where
  store : Store := {}
  tags : List String := []
  hints : List String := []
  ranking : Ranking := {}
  deriving Inhabited

/-- What lowering knows. -/
structure LowerContext where
  schema : Schema
  provider : Provider
  /-- The variables in scope, the innermost first. -/
  scope : List (String × Projection) := []

/-- The steps of lowering. -/
abbrev LowerM := ReaderT LowerContext (ExceptT SqlError (StateM LowerState))

namespace LowerM

/-- Look at the store. -/
def store : LowerM Store := return (← get).store

/-- Change the store. -/
def modifyStore (f : Store → Store) : LowerM Unit :=
  modify fun s => { s with store := f s.store }

/-- Add to the store. -/
def allocate {α : Type} (f : Store → α × Store) : LowerM α :=
  modifyGet fun s => let (a, store) := f s.store; (a, { s with store })

/-- Change a query. -/
def modifyQuery (q : QueryRef) (f : Query → Query) : LowerM Unit :=
  modifyStore fun s => s.modifyQuery q f

/-- A step on the store alone. -/
def ofStoreM {α : Type} (step : StoreM α) : LowerM α := do
  match ← allocate step.runOn with
  | .ok a => return a
  | .error e => throw e

/-- A result that may be an error. -/
def ofExcept {α : Type} : Except SqlError α → LowerM α
  | .ok a => return a
  | .error e => throw e

/-- Fail because a term has no form in SQL. -/
def refuse {α : Type} (text reason : String) : LowerM α :=
  throw (.untranslatable text reason)

/-- Run a step with more variables in scope; of two of one name the later one counts. -/
def withVariables (bindings : List (String × Projection)) {α : Type} (step : LowerM α) : LowerM α :=
  withReader (fun c => { c with scope := bindings.reverse ++ c.scope }) step

/-- The projection of a variable. -/
def lookUp (name : String) : LowerM Projection := do
  match (← read).scope.lookup name with
  | some p => return p
  | none => throw (.resolution ("Parameter '" ++ name ++ "' is not in scope."))

end LowerM

/-! ## Lowering parts of a term -/

/-- The functions that lower a part of a term.  A sequence is lowered for an enclosing query, a
value as a part of a query. -/
structure Lowerer where
  sequence : Term → Option QueryRef → LowerM Lowered
  projection : Term → QueryRef → LowerM Projection
  scalar : Term → QueryRef → LowerM Scalar
  condition : Term → QueryRef → LowerM Condition

/-- The parameters and the body of a function of some number of arguments. -/
def Term.functionOf (arity : Nat) : Term → Except SqlError (List String × Term)
  | lambda params body =>
    if params.length == arity then .ok (params, body)
    else
      .error (.untranslatable (lambda params body).text
        ("expected a lambda with " ++ toString arity ++ " parameter(s), found " ++
          toString params.length))
  | quote inner => inner.functionOf arity
  | other => .error (.untranslatable other.text "expected a lambda")

namespace Lowerer

variable (l : Lowerer)

/-- Lower the body of a function of projections by the given function. -/
def apply {α : Type} (lower : Term → QueryRef → LowerM α) (f : Term) (args : List Projection)
    (q : QueryRef) : LowerM α := do
  let (params, body) ← LowerM.ofExcept (f.functionOf args.length)
  LowerM.withVariables (params.zip args) (lower body q)

/-- What a function makes of projections. -/
def applyProjection (f : Term) (args : List Projection) (q : QueryRef) : LowerM Projection :=
  apply l.projection f args q

/-- The scalar a function makes of projections. -/
def applyScalar (f : Term) (args : List Projection) (q : QueryRef) : LowerM Scalar :=
  apply l.scalar f args q

/-- The condition a function makes of projections. -/
def applyCondition (f : Term) (args : List Projection) (q : QueryRef) : LowerM Condition :=
  apply l.condition f args q

end Lowerer

end SqlCompiler
