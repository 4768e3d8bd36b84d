import SqlCompiler.Data.Constant
import SqlCompiler.Term.Operator

/-!
# Query terms

A query is a chain of operators whose first argument is a sequence, with functions for
conditions, selectors and setters.

Main definitions:

- `Term` and its equality.
- `Term.apply`, `Term.filter`, `Term.select` and the other ways to extend a term.
- `Term.children`, `Term.withChildren`: the children of a node, and the node with others.
- `Term.mapChildren`, `Term.replaceDown`, `Term.gather`: traversals.
-/

namespace SqlCompiler

/-- A query term. -/
inductive Term where
  | constant (value : Constant)
  /-- A value bound when the statement is executed. -/
  | parameter (name : String) (value : Constant)
  /-- A reference to an argument of an enclosing function. -/
  | bound (name : String)
  /-- Every row of a mapped entity. -/
  | table (entity : String)
  | member (owner : Term) (name : String)
  /-- An operator applied to a sequence, the first argument. -/
  | call (operator : SequenceOperator) (args : List Term)
  /-- A member function of a scalar, the first argument. -/
  | function (name : String) (args : List Term)
  | lambda (params : List String) (body : Term)
  | binary (operator : TermOperator) (left right : Term)
  | not (operand : Term)
  | negate (operand : Term)
  | conditional (test yes no : Term)
  | convert (operand : Term) (target : TypeKind)
  /-- A record of named members. -/
  | record (members : List (String × Term))
  /-- An entity with some of its members. -/
  | entity (name : String) (members : List (String × Term))
  /-- A query held as a value. -/
  | quote (body : Term)
  deriving Inhabited

namespace Term

/-! ## Equality and size -/

mutual

/-- Equality of terms; a number that is not a number differs from itself. -/
def beq : Term → Term → Bool
  | constant a, constant b => a == b
  | parameter n a, parameter m b => n == m && a == b
  | bound n, bound m | table n, table m => n == m
  | member a n, member b m => n == m && a.beq b
  | call f as, call g bs => f == g && beqTerms as bs
  | function n as, function m bs => n == m && beqTerms as bs
  | lambda ps a, lambda qs b => ps == qs && a.beq b
  | binary f a b, binary g c d => f == g && a.beq c && b.beq d
  | not a, not b | negate a, negate b | quote a, quote b => a.beq b
  | conditional a b c, conditional d e f => a.beq d && b.beq e && c.beq f
  | convert a t, convert b u => t == u && a.beq b
  | record as, record bs => beqMembers as bs
  | entity n as, entity m bs => n == m && beqMembers as bs
  | _, _ => false
termination_by structural t => t

/-- Equality of lists of terms. -/
def beqTerms : List Term → List Term → Bool
  | [], [] => true
  | a :: as, b :: bs => a.beq b && beqTerms as bs
  | _, _ => false
termination_by structural ts => ts

/-- Equality of members, in order. -/
def beqMembers : List (String × Term) → List (String × Term) → Bool
  | [], [] => true
  | (n, a) :: as, (m, b) :: bs => n == m && a.beq b && beqMembers as bs
  | _, _ => false
termination_by structural ms => ms

end

instance : BEq Term := ⟨beq⟩

mutual

/-- The number of nodes of a term. -/
def size : Term → Nat
  | constant _ | parameter .. | bound _ | table _ => 1
  | member t _ | not t | negate t | convert t _ | quote t | lambda _ t => t.size + 1
  | call _ args | function _ args => sizeOfTerms args + 1
  | binary _ a b => a.size + b.size + 1
  | conditional a b c => a.size + b.size + c.size + 1
  | record members | entity _ members => sizeOfMembers members + 1
termination_by structural t => t

/-- The number of nodes of a list of terms. -/
def sizeOfTerms : List Term → Nat
  | [] => 0
  | t :: rest => t.size + sizeOfTerms rest
termination_by structural ts => ts

/-- The number of nodes of members. -/
def sizeOfMembers : List (String × Term) → Nat
  | [] => 0
  | (_, t) :: rest => t.size + sizeOfMembers rest
termination_by structural ms => ms

end

/-! ## Building terms -/

/-- A function of one argument. -/
def fn (param : String) (body : Term) : Term := lambda [param] body

/-- The absent value. -/
def null : Term := constant .null

/-- Apply an operator to a sequence. -/
def apply (source : Term) (operator : SequenceOperator) (args : List Term) : Term :=
  call operator (source :: args)

/-- Call a member function. -/
def invoke (receiver : Term) (name : String) (args : List Term) : Term :=
  function name (receiver :: args)

/-- The elements that satisfy a condition. -/
def filter (source condition : Term) : Term := source.apply .filter [condition]

/-- What a selector makes of each element. -/
def select (source selector : Term) : Term := source.apply .select [selector]

/-! ## Taking terms apart -/

/-- Parameters and body of a function. -/
def asLambda? : Term → Option (List String × Term)
  | lambda params body => some (params, body)
  | _ => none

/-- Whether a term is a function of some number of arguments. -/
def isLambda (arity : Nat) (t : Term) : Bool :=
  match t.asLambda? with
  | some (params, _) => params.length == arity
  | none => false

/-- The sequence an operator is applied to. -/
def source? : Term → Option Term
  | call _ (source :: _) => some source
  | _ => none

/-! ## Nodes and their children -/

/-- The children of a node, from left to right. -/
def children : Term → List Term
  | member t _ | not t | negate t | convert t _ | quote t | lambda _ t => [t]
  | call _ args | function _ args => args
  | binary _ a b => [a, b]
  | conditional a b c => [a, b, c]
  | record members | entity _ members => members.map (·.2)
  | _ => []

/-- Members of the same names with other terms. -/
def renewMembers (members : List (String × Term)) (terms : List Term) : List (String × Term) :=
  (members.map (·.1)).zip terms

/-- A node with other children. -/
def withChildren (t : Term) (terms : List Term) : Term :=
  match t, terms with
  | member _ name, [owner] => member owner name
  | not _, [operand] => not operand
  | negate _, [operand] => negate operand
  | convert _ target, [operand] => convert operand target
  | quote _, [body] => quote body
  | lambda params _, [body] => lambda params body
  | call operator _, args => call operator args
  | function name _, args => function name args
  | binary operator _ _, [left, right] => binary operator left right
  | conditional _ _ _, [test, yes, no] => conditional test yes no
  | record members, terms => record (renewMembers members terms)
  | entity name members, terms => entity name (renewMembers members terms)
  | t, _ => t

/-! ## Traversals -/

/-- Change every child, from left to right. -/
def mapChildren {m : Type → Type} [Monad m] (f : Term → m Term) : Term → m Term
  | member owner name => return member (← f owner) name
  | call operator args => return call operator (← args.mapM f)
  | function name args => return function name (← args.mapM f)
  | lambda params body => return lambda params (← f body)
  | binary operator left right => return binary operator (← f left) (← f right)
  | not operand => return not (← f operand)
  | negate operand => return negate (← f operand)
  | conditional test yes no => return conditional (← f test) (← f yes) (← f no)
  | convert operand target => return convert (← f operand) target
  | record members => return record (← members.mapM fun (name, t) => return (name, ← f t))
  | entity name members =>
    return entity name (← members.mapM fun (name, t) => return (name, ← f t))
  | quote body => return quote (← f body)
  | leaf => return leaf

mutual

/-- Replace the outermost nodes a rule applies to. -/
def replaceDown (rule : Term → Option Term) (t : Term) : Term :=
  match rule t with
  | some new => new
  | none =>
    match t with
    | member owner name => member (owner.replaceDown rule) name
    | call operator args => call operator (replaceTerms rule args)
    | function name args => function name (replaceTerms rule args)
    | lambda params body => lambda params (body.replaceDown rule)
    | binary operator left right =>
      binary operator (left.replaceDown rule) (right.replaceDown rule)
    | not operand => not (operand.replaceDown rule)
    | negate operand => negate (operand.replaceDown rule)
    | conditional test yes no =>
      conditional (test.replaceDown rule) (yes.replaceDown rule) (no.replaceDown rule)
    | convert operand target => convert (operand.replaceDown rule) target
    | record members => record (replaceMembers rule members)
    | entity name members => entity name (replaceMembers rule members)
    | quote body => quote (body.replaceDown rule)
    | leaf => leaf
termination_by structural t

/-- Replace nodes in a list of terms. -/
def replaceTerms (rule : Term → Option Term) : List Term → List Term
  | [] => []
  | t :: rest => t.replaceDown rule :: replaceTerms rule rest
termination_by structural ts => ts

/-- Replace nodes in members. -/
def replaceMembers (rule : Term → Option Term) : List (String × Term) → List (String × Term)
  | [] => []
  | (name, t) :: rest => (name, t.replaceDown rule) :: replaceMembers rule rest
termination_by structural ms => ms

end

mutual

/-- What a test finds at the outermost nodes it knows an answer for, from left to right. -/
def gather {α : Type} (test : Term → Option (List α)) (t : Term) : List α :=
  match test t with
  | some found => found
  | none =>
    match t with
    | member t _ | not t | negate t | convert t _ | quote t | lambda _ t => t.gather test
    | call _ args | function _ args => gatherTerms test args
    | binary _ a b => a.gather test ++ b.gather test
    | conditional a b c => a.gather test ++ b.gather test ++ c.gather test
    | record members | entity _ members => gatherMembers test members
    | _ => []
termination_by structural t

/-- What a test finds in a list of terms. -/
def gatherTerms {α : Type} (test : Term → Option (List α)) : List Term → List α
  | [] => []
  | t :: rest => t.gather test ++ gatherTerms test rest
termination_by structural ts => ts

/-- What a test finds in members. -/
def gatherMembers {α : Type} (test : Term → Option (List α)) : List (String × Term) → List α
  | [] => []
  | (_, t) :: rest => t.gather test ++ gatherMembers test rest
termination_by structural ms => ms

end

/-- Replace the free occurrences of an argument. -/
def substitute (t : Term) (name : String) (replacement : Term) : Term :=
  t.replaceDown fun node =>
    match node with
    | bound other => if other == name then some replacement else none
    | lambda params _ => if params.contains name then some node else none
    | _ => none

/-- Whether a table occurs anywhere in the term. -/
def readsTable (t : Term) : Bool :=
  !(t.gather fun node =>
    match node with
    | table _ => some [node]
    | _ => none).isEmpty

end Term

end SqlCompiler
