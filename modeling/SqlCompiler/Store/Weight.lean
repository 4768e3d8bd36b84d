import SqlCompiler.Sql.Expression
import SqlCompiler.Store.Basic

/-!
# Weight of a store

The number of nodes of an expression is a bound on how deeply it is nested.  The weight of a store is
the number of nodes of everything it holds.  No chain of subexpressions, columns and queries that
meets no node twice is longer.
-/

namespace SqlCompiler

/-! ## Size of expressions -/

mutual

/-- The number of nodes of a scalar. -/
def Scalar.size : Scalar → Nat
  | .function call => call.size + 1
  | .binary l _ r _ => l.size + r.size + 1
  | .raw _ args _ _ => sizeOfScalars args + 1
  | .convert _ _ e _ => e.size + 1
  | .condition c => c.nodes + 1
  | .row items => sizeOfScalars items + 1
  | _ => 1
termination_by structural s => s

/-- The number of nodes of a list of scalars. -/
def sizeOfScalars : List Scalar → Nat
  | [] => 0
  | s :: rest => s.size + sizeOfScalars rest
termination_by structural ss => ss

/-- The number of nodes of a call's arguments. -/
def Call.size : Call → Nat
  | ⟨_, args, _, _, _⟩ => sizeOfScalars args + 1
termination_by structural c => c

/-- The number of nodes of a predicate. -/
def Predicate.size : Predicate → Nat
  | .compare l _ r _ | .isDistinct l r _ => l.size + r.size + 1
  | .like e p none _ => e.size + p.size + 1
  | .like e p (some s) _ => e.size + p.size + s.size + 1
  | .search e _ p _ _ => e.size + p.size + 1
  | .between e l h _ => e.size + l.size + h.size + 1
  | .isNull e _ | .notScalar e _ _ | .scalar e _ | .inQuery e _ _ => e.size + 1
  | .inList e items _ _ => e.size + sizeOfScalars items + 1
  | .functionLike call => call.size + 1
  | .nested c => c.nodes + 1
termination_by structural p => p

/-- The number of nodes of a branch. -/
def Branch.size : Branch → Nat
  | ⟨_, predicate, _⟩ => predicate.size + 1
termination_by structural b => b

/-- The number of nodes of a list of branches. -/
def sizeOfBranches : List Branch → Nat
  | [] => 0
  | b :: rest => b.size + sizeOfBranches rest
termination_by structural bs => bs

/-- The number of nodes of a condition. -/
def Condition.nodes : Condition → Nat
  | ⟨branches⟩ => sizeOfBranches branches + 1
termination_by structural c => c

end

/-! ## Weight -/

/-- The size of an optional scalar. -/
def sizeOfOption (e : Option Scalar) : Nat := (e.map Scalar.size).getD 0

/-- The size of the values of a list of assignments. -/
def sizeOfAssignments (items : List Assignment) : Nat :=
  items.foldl (fun n item => n + item.target.size + sizeOfOption item.value + 1) 0

/-- The size of an optional output clause. -/
def sizeOfOutput : Option OutputClause → Nat
  | none => 0
  | some o => sizeOfAssignments o.items + sizeOfScalars o.columns + 1

/-- The size of an optional condition. -/
def sizeOfCondition (c : Option Condition) : Nat := (c.map Condition.nodes).getD 0

/-- The size of the expressions of a query outside its columns. -/
def Query.weight (q : Query) : Nat :=
  sizeOfOption q.take + sizeOfOption q.skip + q.whereClause.nodes + q.having.nodes +
    sizeOfScalars q.grouping.items + sizeOfScalars (q.orderBy.map (·.expression)) +
    q.allSources.foldl
      (fun n source => n + source.joins.foldl (fun m j => m + j.condition.nodes + 1) 1) 0 +
    q.setOperators.length + q.columns.length + 1

/-- The size of the expressions of a table. -/
def Table.weight (t : Table) : Nat :=
  match t.kind with
  | .raw _ args => sizeOfScalars args + 1
  | .values rows => rows.foldl (fun n row => n + sizeOfScalars row + 1) 1
  | _ => 1

/-- The size of the expressions of a statement outside its query. -/
def StatementBody.weight : StatementBody → Nat
  | .insert i o => sizeOfAssignments i.items + sizeOfOutput o + 1
  | .update u o => sizeOfAssignments u.items + sizeOfAssignments u.keys + sizeOfOutput o + 1
  | .delete _ top o => sizeOfOption top + sizeOfOutput o + 1
  | .upsert i u =>
    sizeOfAssignments i.items + sizeOfAssignments u.items + sizeOfAssignments u.keys + 1
  | .merge on operations o _ =>
    on.nodes + sizeOfOutput o + operations.foldl (fun n operation =>
      n + sizeOfCondition operation.whereClause + sizeOfCondition operation.whereDelete +
        sizeOfAssignments operation.items + 1) 1
  | .multiInsert _ inserts => inserts.foldl (fun n branch =>
    n + sizeOfCondition branch.condition + sizeOfAssignments branch.insert.items + 1) 1
  | _ => 1

/-- The number of nodes of a store. -/
def Store.weight (s : Store) : Nat :=
  s.nodeCount +
    s.tables.foldl (fun n t => n + t.weight) 0 +
    s.queries.foldl (fun n q => n + q.weight) 0 +
    s.columns.foldl (fun n c => n + c.expression.size + 1) 0 +
    s.statements.foldl (fun n t => n + t.body.weight + t.ctes.length + 1) 0

end SqlCompiler
