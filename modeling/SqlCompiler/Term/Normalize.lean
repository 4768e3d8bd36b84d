import SqlCompiler.Term.Basic

/-!
# Normal forms of terms

Terms are brought into a normal form, so that each operator is left in the one way of writing it
that has a counterpart in SQL:

- quotes and `AsQueryable` disappear;
- `seq.Count` becomes `seq.Count()`;
- a condition given to `Count`, `First`, `Any` and the like becomes a `Where`, a selector given
  to `Min`, `Max`, `Sum` and `Average` a `Select`;
- `ElementAt(i)` becomes `Skip(i).First()`;
- consecutive `Select`s become one;
- a member of `First()` becomes `Select(x => x.Member).First()`;
- a computed grouping key is first selected as a member of a record;
- aggregates over tables in a `Where` are first selected as members of a record.

Main definitions:

- `Term.step?`: one of these rules applied to a node.
- `Term.normalizing`: the rules applied from the leaves up, until none applies.
- `Term.normalize`: the normal form of a term.
-/

namespace SqlCompiler

namespace Term

/-- Steps that make up names and may give up. -/
abbrev NameM := StateT Nat Option

/-- A new name.  No name a user writes has a dollar sign in it. -/
def fresh (start : String) : NameM String := do
  let n ← get
  set (n + 1)
  return start ++ "$" ++ toString (n + 1)

mutual

/-- Whether a grouping key is computed.  Variables, their members, conversions and records of
those can be grouped by directly. -/
def isComputed : Term → Bool
  | bound _ => false
  | member owner _ => owner.isComputed
  | convert operand _ => operand.isComputed
  | record members | entity _ members => anyComputed members
  | _ => true
termination_by structural t => t

/-- Whether a member is computed. -/
def anyComputed : List (String × Term) → Bool
  | [] => false
  | (_, t) :: rest => t.isComputed || anyComputed rest
termination_by structural ms => ms

end

/-- Whether a term is a sequence for sure. -/
def isSequence : Term → Bool
  | table _ => true
  | call operator _ => operator.returnsSequence
  | _ => false

/-! ## Rules -/

/-- `Select(x => f).Select(y => g)` as `Select(x => g[y := f])`. -/
def mergeSelects? (source selector : Term) : Option Term :=
  match source, selector with
  | call .select [inner, lambda [param] body], lambda [outer] result =>
    some (inner.select (fn param (result.substitute outer body)))
  | _, _ => none

/-- A function that may be quoted. -/
def quotedLambda? : Term → Option (List String × Term)
  | lambda params body => some (params, body)
  | quote body => body.quotedLambda?
  | _ => none

/-- The element and result functions among the ones after the key. -/
def groupFunctions (rest : List (List String × Term)) :
    Option (String × Term) × Option (List String × Term) :=
  match rest with
  | ([param], body) :: rest => (some (param, body), rest.head?)
  | rest => (none, rest.head?)

/-- `GroupBy(x => key, x => element, (k, g) => result)` with the key and the element selected
first, and the result selected afterwards. -/
def selectKeyFirst (source : Term) (functions : List (List String × Term)) : NameM Term := do
  match functions with
  | (param :: _, key) :: rest =>
    let (element, result) := groupFunctions rest
    let element :=
      match element with
      | some (other, body) => body.substitute other (bound param)
      | none => bound param
    let group ← fresh "g"
    let grouped := (source.select (fn param (record [("Key", key), ("Element", element)]))).apply
      .groupBy [fn group (member (bound group) "Key"), fn group (member (bound group) "Element")]
    match result with
    | some ([k, g], body) =>
      let row ← fresh "g"
      let body := (body.substitute k (member (bound row) "Key")).substitute g (bound row)
      return grouped.select (fn row body)
    | _ => return grouped
  | _ => return source

/-- The aggregates that read a table, outside of nested functions, each once. -/
def tableAggregates (t : Term) : List Term :=
  let found := t.gather fun node =>
    match node with
    | call operator _ => if operator.isAggregate && node.readsTable then some [node] else none
    | lambda .. => some []
    | _ => none
  found.foldl (fun distinct t => if distinct.any (· == t) then distinct else distinct ++ [t]) []

/-- The name of the member for the aggregate of that number. -/
def aggregateName (index : Nat) : String := "Agg" ++ toString (index + 1)

/-- A condition over the record of the row and its aggregates. -/
def overHolder (aggregates : List Term) (param holder : String) (condition : Term) : Term :=
  condition.replaceDown fun node =>
    match aggregates.findIdx? (· == node) with
    | some index => some (member (bound holder) (aggregateName index))
    | none =>
      match node with
      | bound name => if name == param then some (member (bound holder) "Row") else none
      | lambda params _ => if params.contains param then some node else none
      | _ => none

/-- `Where(x => condition)` with the aggregates over tables selected first. -/
def selectAggregatesFirst? (source : Term) (param : String) (condition : Term) :
    Option (NameM Term) :=
  let aggregates := condition.tableAggregates
  let isGrouped : Bool :=
    match source with
    | call .groupBy _ => true
    | _ => false
  if isGrouped || aggregates.isEmpty then none
  else some do
    let holder ← fresh "h"
    let members := aggregates.zipIdx.map fun (t, index) => (aggregateName index, t)
    return ((source.select (fn param (record (("Row", bound param) :: members)))).filter
      (fn holder (condition.overHolder aggregates param holder))).select
        (fn holder (member (bound holder) "Row"))

/-- The rules for operators. -/
def callStep? (operator : SequenceOperator) (args : List Term) : Option (NameM Term) :=
  match operator, args with
  | .asQueryable, [source] => some (return source)
  | .count, [source, f] | .longCount, [source, f] | .first, [source, f]
  | .firstOrDefault, [source, f] | .single, [source, f] | .singleOrDefault, [source, f]
  | .any, [source, f] =>
    if f.isLambda 1 then some (return (source.filter f).apply operator []) else none
  | .min, [source, f] | .max, [source, f] | .sum, [source, f] | .average, [source, f] =>
    if f.isLambda 1 then some (return (source.select f).apply operator []) else none
  | .elementAt, [source, index] =>
    some (return (source.apply .skip [index]).apply .first [])
  | .select, [source, selector] => (mergeSelects? source selector).map pure
  | .groupBy, source :: lambda [param] key :: rest =>
    if key.isComputed then
      some (source.selectKeyFirst (([param], key) :: rest.filterMap quotedLambda?))
    else none
  | .filter, [source, lambda [param] condition] =>
    source.selectAggregatesFirst? param condition
  | _, _ => none

/-- The rule that applies to a node, if one does. -/
def step? (t : Term) : Option (NameM Term) :=
  match t with
  | quote body => some (return body)
  | member owner name =>
    if owner.isSequence && name == "Count" then some (return owner.apply .count [])
    else if owner.isSequence && name == "LongCount" then some (return owner.apply .longCount [])
    else
      match owner with
      | call operator [source] =>
        if operator.isElement then some do
          let param ← fresh "e"
          return (source.select (fn param (member (bound param) name))).apply operator []
        else none
      | _ => none
  | call operator args => callStep? operator args
  | _ => none

/-! ## Normal forms -/

/-- Apply the rules from the leaves up until none applies, given how many names have been made up
before.  A term to which there always is a rule to apply has no result. -/
def normalizing (t : Term) (names : Nat) : Option (Term × Nat) := do
  let (parts, names) ← (t.children.mapM (m := NameM) fun c names => c |>.normalizing names).run names
  let t := t.withChildren parts
  match t.step? with
  | some step =>
    let (t, names) ← step.run names
    t |>.normalizing names
  | none => return (t, names)
partial_fixpoint

/-- The normal form of a term; a term without one stays as it is. -/
def normalize (t : Term) : Term :=
  match normalizing t 0 with
  | some (normal, _) => normal
  | none => t

end Term

end SqlCompiler
