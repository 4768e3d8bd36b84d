import SqlCompiler.Sql.Expression

/-!
# Traversals of expressions

The scalars inside an expression are listed in the order they are written, each before its own
parts.  A query in predicate position is listed as a scalar query; queries are not entered.

A transformer turns each scalar and each predicate into another one, children before parents, so
that a rule always sees transformed operands.

Main definitions:

- `Scalar.walk`, `Predicate.walk`, `Condition.walk`: the list of scalars.
- `Scalar.anyPart` and `Condition.hasAggregate`: searches in that list.
- `Transformer`: a rule for scalars and a rule for predicates.
- `Transformer.scalar`, `Transformer.predicate`, `Transformer.condition`: their application to every
  node of an expression.
-/

namespace SqlCompiler

/-! ## Subexpressions -/

mutual

/-- A scalar and the scalars inside it. -/
def Scalar.walk : Scalar → List Scalar
  | .function call => .function call :: call.walk
  | .binary l op r t => .binary l op r t :: (l.walk ++ r.walk)
  | .raw f args t p => .raw f args t p :: walkScalars args
  | .convert t s e k => .convert t s e k :: e.walk
  | .condition c => .condition c :: c.walk
  | .row items => .row items :: walkScalars items
  | leaf => [leaf]
termination_by structural s => s

/-- The scalars of a list. -/
def walkScalars : List Scalar → List Scalar
  | [] => []
  | s :: rest => s.walk ++ walkScalars rest
termination_by structural ss => ss

/-- The scalars inside the arguments of a call. -/
def Call.walk : Call → List Scalar
  | ⟨_, args, _, _, _⟩ => walkScalars args
termination_by structural c => c

/-- The scalars of a predicate. -/
def Predicate.walk : Predicate → List Scalar
  | .compare l _ r _ | .isDistinct l r _ => l.walk ++ r.walk
  | .like e p none _ => e.walk ++ p.walk
  | .like e p (some s) _ => e.walk ++ p.walk ++ s.walk
  | .search e _ p _ _ => e.walk ++ p.walk
  | .between e l h _ => e.walk ++ l.walk ++ h.walk
  | .isNull e _ | .notScalar e _ _ | .scalar e _ => e.walk
  | .inQuery e q _ => e.walk ++ [.query q]
  | .inList e items _ _ => e.walk ++ walkScalars items
  | .functionLike call => call.walk
  | .nested c => c.walk
termination_by structural p => p

/-- The scalars of a branch. -/
def Branch.walk : Branch → List Scalar
  | ⟨_, predicate, _⟩ => predicate.walk
termination_by structural b => b

/-- The scalars of a list of branches. -/
def walkBranches : List Branch → List Scalar
  | [] => []
  | b :: rest => b.walk ++ walkBranches rest
termination_by structural bs => bs

/-- The scalars of a condition. -/
def Condition.walk : Condition → List Scalar
  | ⟨branches⟩ => walkBranches branches
termination_by structural c => c

end

/-- Whether the scalar or a part of it satisfies a test. -/
def Scalar.anyPart (test : Scalar → Bool) (s : Scalar) : Bool :=
  s.walk.any test

/-- Whether an aggregate function occurs in the condition. -/
def Condition.hasAggregate (c : Condition) : Bool :=
  c.walk.any Scalar.isAggregate

/-- The queries among a list of scalars. -/
def queriesOf (scalars : List Scalar) : List QueryRef :=
  scalars.filterMap fun
    | .query q => some q
    | _ => none

/-- The columns among a list of scalars. -/
def columnsOf (scalars : List Scalar) : List ColumnRef :=
  scalars.filterMap fun
    | .column c => some c
    | _ => none

/-! ## Bottom-up transformation -/

/-- A rule for each kind of expression. -/
structure Transformer where
  onScalar : Scalar → Scalar
  onPredicate : Predicate → Predicate

/-- The transformer that changes nothing. -/
def Transformer.id : Transformer := ⟨fun s => s, fun p => p⟩

mutual

/-- Transform the parts of a scalar, then the scalar. -/
def Transformer.scalar (w : Transformer) : Scalar → Scalar
  | .function call => w.onScalar (.function (w.call call))
  | .binary l op r t => w.onScalar (.binary (w.scalar l) op (w.scalar r) t)
  | .raw f args t p => w.onScalar (.raw f (w.scalars args) t p)
  | .convert t s e k => w.onScalar (.convert t s (w.scalar e) k)
  | .condition c => w.onScalar (.condition (w.condition c))
  | .row items => w.onScalar (.row (w.scalars items))
  | leaf => w.onScalar leaf
termination_by structural s => s

/-- Transform every scalar of a list. -/
def Transformer.scalars (w : Transformer) : List Scalar → List Scalar
  | [] => []
  | s :: rest => w.scalar s :: w.scalars rest
termination_by structural ss => ss

/-- Transform the arguments of a call. -/
def Transformer.call (w : Transformer) : Call → Call
  | ⟨name, args, type, isAggregate, keep⟩ => ⟨name, w.scalars args, type, isAggregate, keep⟩
termination_by structural c => c

/-- Transform the parts of a predicate, then the predicate. -/
def Transformer.predicate (w : Transformer) : Predicate → Predicate
  | .compare l op r n => w.onPredicate (.compare (w.scalar l) op (w.scalar r) n)
  | .like e p none n => w.onPredicate (.like (w.scalar e) (w.scalar p) none n)
  | .like e p (some s) n =>
    w.onPredicate (.like (w.scalar e) (w.scalar p) (some (w.scalar s)) n)
  | .search e k p c n => w.onPredicate (.search (w.scalar e) k (w.scalar p) c n)
  | .between e l h n => w.onPredicate (.between (w.scalar e) (w.scalar l) (w.scalar h) n)
  | .isNull e n => w.onPredicate (.isNull (w.scalar e) n)
  | .isDistinct l r n => w.onPredicate (.isDistinct (w.scalar l) (w.scalar r) n)
  | .inQuery e q n => w.onPredicate (.inQuery (w.scalar e) q n)
  | .inList e items n wn => w.onPredicate (.inList (w.scalar e) (w.scalars items) n wn)
  | .functionLike call => w.onPredicate (.functionLike (w.call call))
  | .notScalar e n p => w.onPredicate (.notScalar (w.scalar e) n p)
  | .scalar e p => w.onPredicate (.scalar (w.scalar e) p)
  | .nested c => w.onPredicate (.nested (w.condition c))
termination_by structural p => p

/-- Transform the predicate of a branch. -/
def Transformer.branch (w : Transformer) : Branch → Branch
  | ⟨negated, predicate, joinsOr⟩ => ⟨negated, w.predicate predicate, joinsOr⟩
termination_by structural b => b

/-- Transform every branch of a list. -/
def Transformer.branches (w : Transformer) : List Branch → List Branch
  | [] => []
  | b :: rest => w.branch b :: w.branches rest
termination_by structural bs => bs

/-- Transform every branch of a condition. -/
def Transformer.condition (w : Transformer) : Condition → Condition
  | ⟨branches⟩ => ⟨w.branches branches⟩
termination_by structural c => c

end

end SqlCompiler
