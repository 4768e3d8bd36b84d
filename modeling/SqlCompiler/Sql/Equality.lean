import SqlCompiler.Sql.Expression

/-!
# Equality of expressions

Two expressions are equal if they have the same shape and equal constants.  References are
compared as references, never by what they refer to.
-/

namespace SqlCompiler

mutual

/-- Equality of scalars. -/
def Scalar.beq : Scalar → Scalar → Bool
  | .value a, .value b => a == b
  | .parameter a, .parameter b => a == b
  | .field a, .field b => a == b
  | .allFields a, .allFields b => a == b
  | .column a, .column b => a == b
  | .function a, .function b => a.beq b
  | .binary l op r t, .binary l' op' r' t' => l.beq l' && op == op' && r.beq r' && t == t'
  | .raw f as t p, .raw f' as' t' p' => f == f' && beqScalars as as' && t == t' && p == p'
  | .convert t s e k, .convert t' s' e' k' => t == t' && s == s' && e.beq e' && k == k'
  | .condition a, .condition b => a.beq b
  | .query a, .query b => a == b
  | .type a, .type b => a == b
  | .row as, .row bs => beqScalars as bs
  | .tableSource a, .tableSource b => a == b
  | .deferredName a, .deferredName b => a == b
  | _, _ => false
termination_by structural a => a

/-- Equality of lists of scalars. -/
def beqScalars : List Scalar → List Scalar → Bool
  | [], [] => true
  | a :: as, b :: bs => a.beq b && beqScalars as bs
  | _, _ => false
termination_by structural as => as

/-- Equality of calls. -/
def Call.beq : Call → Call → Bool
  | ⟨n, as, t, g, k⟩, ⟨n', as', t', g', k'⟩ =>
    n == n' && beqScalars as as' && t == t' && g == g' && k == k'
termination_by structural a => a

/-- Equality of predicates. -/
def Predicate.beq : Predicate → Predicate → Bool
  | .compare l op r n, .compare l' op' r' n' => l.beq l' && op == op' && r.beq r' && n == n'
  | .like e p none n, .like e' p' none n' => e.beq e' && p.beq p' && n == n'
  | .like e p (some s) n, .like e' p' (some s') n' =>
    e.beq e' && p.beq p' && s.beq s' && n == n'
  | .search e k p c n, .search e' k' p' c' n' =>
    e.beq e' && k == k' && p.beq p' && c == c' && n == n'
  | .between e l h n, .between e' l' h' n' => e.beq e' && l.beq l' && h.beq h' && n == n'
  | .isNull e n, .isNull e' n' => e.beq e' && n == n'
  | .isDistinct l r n, .isDistinct l' r' n' => l.beq l' && r.beq r' && n == n'
  | .inQuery e q n, .inQuery e' q' n' => e.beq e' && q == q' && n == n'
  | .inList e xs n w, .inList e' xs' n' w' => e.beq e' && beqScalars xs xs' && n == n' && w == w'
  | .functionLike a, .functionLike b => a.beq b
  | .notScalar e n p, .notScalar e' n' p' => e.beq e' && n == n' && p == p'
  | .scalar e p, .scalar e' p' => e.beq e' && p == p'
  | .nested a, .nested b => a.beq b
  | _, _ => false
termination_by structural a => a

/-- Equality of branches. -/
def Branch.beq : Branch → Branch → Bool
  | ⟨n, p, o⟩, ⟨n', p', o'⟩ => n == n' && p.beq p' && o == o'
termination_by structural a => a

/-- Equality of lists of branches. -/
def beqBranches : List Branch → List Branch → Bool
  | [], [] => true
  | a :: as, b :: bs => a.beq b && beqBranches as bs
  | _, _ => false
termination_by structural as => as

/-- Equality of conditions. -/
def Condition.beq : Condition → Condition → Bool
  | ⟨as⟩, ⟨bs⟩ => beqBranches as bs
termination_by structural a => a

end

instance : BEq Scalar := ⟨Scalar.beq⟩
instance : BEq Predicate := ⟨Predicate.beq⟩
instance : BEq Condition := ⟨Condition.beq⟩

end SqlCompiler
