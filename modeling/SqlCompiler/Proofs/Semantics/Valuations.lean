import Mathlib.Logic.Basic
import SqlCompiler.Legalize.TargetCopy
import SqlCompiler.Proofs.Semantics.Evaluation

/-!
# Values of whole expressions

What any expression is worth at a place of a statement: on the rows that are in view there, with
the rows that every nested query has there.  A valuation says what the operators, functions and
texts of SQL do with values; nothing but the rules of `NULL` and of single values is fixed.

Main results:

- Definitions `Valuation`, `Scene`, `Place`: what operators do, and what is known at a place.
- Definition `Scalar.valueIn`, `Condition.truthIn`: the value of an expression at a place.
- Theorem `Condition.truthIn_conjoinAll`: the truth of a conjunction.
- Theorem `Scalar.valueIn_renamed`: fields that are renamed are read under their new names.
- Theorem `Scalar.valueIn_congr`, `Condition.truthIn_congr`: only what an expression refers to
  counts.
-/

namespace SqlCompiler

/-! ## Valuations and places -/

/-- A truth value, or its negation. -/
def Truth.signed (negated : Bool) (t : Truth) : Truth := if negated then not t else t

/-- A domain of values, and what the operators, functions and texts of SQL do on it. -/
structure Valuation (V : Type) where
  null : V
  constant : TypedValue → V
  parameter : Parameter → V
  function : String → SqlType → List V → V
  binary : BinaryOperator → SqlType → V → V → V
  raw : String → SqlType → List V → V
  convert : SqlType → SqlType → V → V
  row : List V → V
  typeName : SqlType → V
  tableName : DeferredName → V
  isNull : V → Bool
  /-- A truth value as a value. -/
  ofTruth : Truth → V
  /-- A value as a truth value. -/
  toTruth : V → Truth
  compare : Comparison → V → V → Truth
  /-- A comparison in which absent operands may compare like values. -/
  compareNull : Bool → Comparison → V → V → Truth
  like : V → V → Option V → Truth
  search : SearchKind → Bool → V → V → Truth
  between : V → V → V → Truth
  isDistinct : V → V → Bool
  inList : Option Bool → V → List V → Truth
  /-- Membership of a value in the rows of a query. -/
  inRows : V → List (List V) → Truth
  /-- The rows of a query as one value. -/
  single : List (List V) → V
  isNull_null : isNull null = true
  single_singleton : ∀ v, single [[v]] = v
  equal_self : ∀ v, isNull v = false → compare .equal v v = some true
  /-- Nothing is equal to an absent value. -/
  equal_null : ∀ v w, isNull v = true ∨ isNull w = true → compare .equal v w = none

/-- The nodes of a store, with the rows of every table and every query for what is in view around
it.  The rows of a table are known by the names of its columns, those of a query by position. -/
structure Scene (V : Type) where
  store : Store
  tableRows : ObjectName → TableKind → Env V → List (String → V)
  queryRows : QueryRef → Env V → List (List V)

/-- A place of a statement: a scene, and what is in view there. -/
structure Place (V : Type) extends Scene V where
  env : Env V

/-- The place where something is in view. -/
def Scene.place {V : Type} (S : Scene V) (ρ : Env V) : Place V := ⟨S, ρ⟩

/-- The query that `EXISTS` is asked of. -/
def Call.existsQuery? : Call → Option QueryRef
  | ⟨"EXISTS", [.query q], _, _, _⟩ => some q
  | _ => none

/-! ## Values -/

section

variable {V : Type} (R : Valuation V) (P : Place V)

/-- The values of a whole row of a table. -/
def Place.tableValues (t : TableRef) : List V := (P.store.table t).fields.map P.env.field

/-- The rows of a nested query. -/
def Place.rowsOf (q : QueryRef) : List (List V) := P.queryRows q P.env

mutual

/-- The value of a scalar at a place. -/
def Scalar.valueIn : Scalar → V
  | .value v => R.constant v
  | .parameter p => R.parameter p
  | .field f => P.env.field f
  | .allFields t | .tableSource t => R.row (P.tableValues t)
  | .column c => P.env.column c
  | .function call => call.valueIn
  | .binary l op r type => R.binary op type l.valueIn r.valueIn
  | .raw format args type _ => R.raw format type (valuesIn args)
  | .convert target source e _ => R.convert target source e.valueIn
  | .condition c => R.ofTruth c.truthIn
  | .query q => R.single (P.rowsOf q)
  | .type type => R.typeName type
  | .row items => R.row (valuesIn items)
  | .deferredName name => R.tableName name
termination_by structural e => e

/-- The values of some scalars at a place. -/
def valuesIn : List Scalar → List V
  | [] => []
  | e :: rest => e.valueIn :: valuesIn rest
termination_by structural es => es

/-- The value of a call at a place. -/
def Call.valueIn : Call → V
  | ⟨name, args, type, _, _⟩ => R.function name type (valuesIn args)
termination_by structural c => c

/-- The truth of a predicate at a place. -/
def Predicate.truthIn : Predicate → Truth
  | .compare l op r none => R.compare op l.valueIn r.valueIn
  | .compare l op r (some withNull) => R.compareNull withNull op l.valueIn r.valueIn
  | .like e pattern none negated => (R.like e.valueIn pattern.valueIn none).signed negated
  | .like e pattern (some escape) negated =>
    (R.like e.valueIn pattern.valueIn (some escape.valueIn)).signed negated
  | .search e kind pattern caseSensitive negated =>
    (R.search kind caseSensitive e.valueIn pattern.valueIn).signed negated
  | .between e low high negated =>
    (R.between e.valueIn low.valueIn high.valueIn).signed negated
  | .isNull e negated => Truth.signed negated (some (R.isNull e.valueIn))
  | .isDistinct l r negated => Truth.signed negated (some (R.isDistinct l.valueIn r.valueIn))
  | .inQuery e q negated => (R.inRows e.valueIn (P.rowsOf q)).signed negated
  | .inList e items negated withNull =>
    (R.inList withNull e.valueIn (valuesIn items)).signed negated
  | .functionLike call =>
    match call.existsQuery? with
    | some q => some (!(P.rowsOf q).isEmpty)
    | none => R.toTruth call.valueIn
  | .notScalar e negated _ => (R.toTruth e.valueIn).signed negated
  | .scalar e _ => R.toTruth e.valueIn
  | .nested c => c.truthIn
termination_by structural p => p

/-- The truth of a branch at a place. -/
def Branch.truthIn : Branch → Truth
  | ⟨negated, predicate, _⟩ => predicate.truthIn.signed negated
termination_by structural b => b

/-- The truth of branches at a place, after a conjunction of given truth. -/
def branchesTruthIn : List Branch → Truth → Truth
  | [], acc => acc
  | b :: rest, acc =>
    let acc := Truth.and acc b.truthIn
    if rest.isEmpty then acc
    else if b.joinsOr then Truth.or acc (branchesTruthIn rest (some true))
    else branchesTruthIn rest acc
termination_by structural bs => bs

/-- The truth of a condition at a place. -/
def Condition.truthIn : Condition → Truth
  | ⟨branches⟩ => branchesTruthIn branches (some true)
termination_by structural c => c

end

end

section

variable {V : Type} {R : Valuation V} {P : Place V}

theorem branchesTruthIn_eq (branches : List Branch) (acc : Truth) :
    branchesTruthIn R P branches acc = truthOfBranches (Predicate.truthIn R P) acc branches := by
  induction branches generalizing acc with
  | nil => rfl
  | cons b rest ih =>
    cases b
    simp only [branchesTruthIn, truthOfBranches, ih]
    rfl

/-- The truth of a condition follows from that of its predicates. -/
theorem Condition.truthIn_eq (c : Condition) :
    c.truthIn R P = c.truthBy (Predicate.truthIn R P) := by
  cases c
  exact branchesTruthIn_eq _ _

namespace Condition

variable {c d : Condition}

@[simp]
theorem truthIn_empty : empty.truthIn R P = some true := rfl

@[simp]
theorem truthIn_conjoinAll : (c.conjoinAll d).truthIn R P =
    Truth.and (c.truthIn R P) (d.truthIn R P) := by
  simp only [truthIn_eq]
  exact truthBy_conjoinAll fun c => truthIn_eq c

/-- Conditions that are conjoined one after the other hold together. -/
theorem truthIn_foldl_conjoinAll (conditions : List Condition) :
    ((conditions.foldl conjoinAll c).truthIn R P == some true) =
      (c.truthIn R P == some true && conditions.all fun d => d.truthIn R P == some true) := by
  induction conditions generalizing c with
  | nil => simp
  | cons d rest ih =>
    rw [List.foldl_cons, ih, truthIn_conjoinAll, Truth.and_beq_true, List.all_cons,
      Bool.and_assoc]

end Condition

end

/-! ## Renamed fields -/

/-- What a field is renamed to. -/
def renamedField (mapping : List (FieldRef × FieldRef)) (f : FieldRef) : FieldRef :=
  (Store.paired mapping f).getD f

/-- Whether a part of an expression is read at one place as it is, with renamed fields, at another
one.  Only references are asked for. -/
def ReadAlike {V : Type} (mapping : List (FieldRef × FieldRef)) (P P' : Place V) : Scalar → Prop
  | .field f => P'.env.field (renamedField mapping f) = P.env.field f
  | .allFields t | .tableSource t => P'.tableValues t = P.tableValues t
  | .column c => P'.env.column c = P.env.column c
  | .query q => P'.rowsOf q = P.rowsOf q
  | _ => True

section

variable {V : Type} {R : Valuation V} {mapping : List (FieldRef × FieldRef)} {P P' : Place V}

/-- What holds of all parts of two lists holds of those of each. -/
theorem forall_append {α : Type} {p : α → Prop} {xs ys : List α} (h : ∀ a ∈ xs ++ ys, p a) :
    (∀ a ∈ xs, p a) ∧ ∀ a ∈ ys, p a :=
  List.forall_mem_append.mp h

theorem existsQuery?_renamed (c : Call) :
    ((fieldRenaming mapping).call c).existsQuery? = c.existsQuery? := by
  obtain ⟨name, args, type, isAggregate, keep⟩ := c
  by_cases hname : name = "EXISTS"
  · subst hname
    cases args with
    | nil => rfl
    | cons e rest =>
      cases rest with
      | nil => cases e <;> rfl
      | cons e' rest =>
        cases e <;> rfl
  · simp [Call.existsQuery?, Transformer.call, hname]

theorem query_mem_walk_of_existsQuery? {c : Call} {q : QueryRef} (h : c.existsQuery? = some q) :
    .query q ∈ c.walk := by
  unfold Call.existsQuery? at h
  split at h
  · cases h
    exact List.mem_cons_self
  · cases h

mutual

/-- Fields that are renamed are read under their new names. -/
theorem Scalar.valueIn_renamed (e : Scalar) (h : ∀ p ∈ e.walk, ReadAlike mapping P P' p) :
    ((fieldRenaming mapping).scalar e).valueIn R P' = e.valueIn R P := by
  cases e with
  | field f => exact h _ List.mem_cons_self
  | allFields t => exact congrArg R.row (h (.allFields t) List.mem_cons_self)
  | tableSource t => exact congrArg R.row (h (.tableSource t) List.mem_cons_self)
  | column c => exact h (.column c) List.mem_cons_self
  | query q => exact congrArg R.single (h (.query q) List.mem_cons_self)
  | function call =>
    exact Call.valueIn_renamed call fun p hp => h p (List.mem_cons_of_mem _ hp)
  | binary l op r type =>
    have hparts := forall_append fun p hp => h p (List.mem_cons_of_mem _ hp)
    exact congrArg₂ (R.binary op type) (Scalar.valueIn_renamed l hparts.1)
      (Scalar.valueIn_renamed r hparts.2)
  | raw format args type precedence =>
    exact congrArg (R.raw format type)
      (valuesIn_renamed args fun p hp => h p (List.mem_cons_of_mem _ hp))
  | convert target source e keep =>
    exact congrArg (R.convert target source)
      (Scalar.valueIn_renamed e fun p hp => h p (List.mem_cons_of_mem _ hp))
  | condition c =>
    exact congrArg R.ofTruth
      (Condition.truthIn_renamed c fun p hp => h p (List.mem_cons_of_mem _ hp))
  | row items =>
    exact congrArg R.row
      (valuesIn_renamed items fun p hp => h p (List.mem_cons_of_mem _ hp))
  | value v => rfl
  | parameter p => rfl
  | type type => rfl
  | deferredName name => rfl
termination_by structural e

theorem valuesIn_renamed (items : List Scalar)
    (h : ∀ p ∈ walkScalars items, ReadAlike mapping P P' p) :
    valuesIn R P' ((fieldRenaming mapping).scalars items) = valuesIn R P items := by
  cases items with
  | nil => rfl
  | cons e rest =>
    have hparts := forall_append h
    exact congrArg₂ List.cons (Scalar.valueIn_renamed e hparts.1)
      (valuesIn_renamed rest hparts.2)
termination_by structural items

theorem Call.valueIn_renamed (c : Call) (h : ∀ p ∈ c.walk, ReadAlike mapping P P' p) :
    ((fieldRenaming mapping).call c).valueIn R P' = c.valueIn R P := by
  cases c with
  | mk name args type isAggregate keep =>
    exact congrArg (R.function name type) (valuesIn_renamed args h)
termination_by structural c

theorem Predicate.truthIn_renamed (p : Predicate) (h : ∀ e ∈ p.walk, ReadAlike mapping P P' e) :
    ((fieldRenaming mapping).predicate p).truthIn R P' = p.truthIn R P := by
  cases p with
  | compare l op r withNull =>
    have hparts := forall_append h
    have hl := Scalar.valueIn_renamed l hparts.1
    have hr := Scalar.valueIn_renamed r hparts.2
    cases withNull with
    | none => exact congrArg₂ (R.compare op) hl hr
    | some b => exact congrArg₂ (R.compareNull b op) hl hr
  | like e pattern escape negated =>
    cases escape with
    | none =>
      have hparts := forall_append h
      have he := Scalar.valueIn_renamed e hparts.1
      have hpattern := Scalar.valueIn_renamed pattern hparts.2
      exact congrArg₂ (fun v w => (R.like v w none).signed negated) he hpattern
    | some escape =>
      have hparts := forall_append h
      have hfirst := forall_append hparts.1
      have he := Scalar.valueIn_renamed e hfirst.1
      have hpattern := Scalar.valueIn_renamed pattern hfirst.2
      have hescape := Scalar.valueIn_renamed escape hparts.2
      change (R.like _ _ (some _)).signed negated = (R.like _ _ (some _)).signed negated
      rw [he, hpattern, hescape]
  | search e kind pattern caseSensitive negated =>
    have hparts := forall_append h
    have he := Scalar.valueIn_renamed e hparts.1
    have hpattern := Scalar.valueIn_renamed pattern hparts.2
    exact congrArg₂ (fun v w => (R.search kind caseSensitive v w).signed negated) he hpattern
  | between e low high negated =>
    have hparts := forall_append h
    have hfirst := forall_append hparts.1
    have he := Scalar.valueIn_renamed e hfirst.1
    have hlow := Scalar.valueIn_renamed low hfirst.2
    have hhigh := Scalar.valueIn_renamed high hparts.2
    change (R.between _ _ _).signed negated = (R.between _ _ _).signed negated
    rw [he, hlow, hhigh]
  | isNull e negated =>
    exact congrArg (fun v => Truth.signed negated (some (R.isNull v)))
      (Scalar.valueIn_renamed e h)
  | isDistinct l r negated =>
    have hparts := forall_append h
    exact congrArg₂ (fun v w => Truth.signed negated (some (R.isDistinct v w)))
      (Scalar.valueIn_renamed l hparts.1) (Scalar.valueIn_renamed r hparts.2)
  | inQuery e q negated =>
    have hparts := forall_append h
    have hq : P'.rowsOf q = P.rowsOf q := hparts.2 (.query q) List.mem_cons_self
    exact congrArg₂ (fun v rows => (R.inRows v rows).signed negated)
      (Scalar.valueIn_renamed e hparts.1) hq
  | inList e items negated withNull =>
    have hparts := forall_append h
    exact congrArg₂ (fun v vs => (R.inList withNull v vs).signed negated)
      (Scalar.valueIn_renamed e hparts.1) (valuesIn_renamed items hparts.2)
  | functionLike call =>
    have hvalue := Call.valueIn_renamed call h
    change (match ((fieldRenaming mapping).call call).existsQuery? with
      | some q => some (!(P'.rowsOf q).isEmpty)
      | none => R.toTruth (((fieldRenaming mapping).call call).valueIn R P')) = _
    rw [existsQuery?_renamed, hvalue, Predicate.truthIn]
    split
    · next q hq =>
      have hmem : .query q ∈ call.walk := query_mem_walk_of_existsQuery? hq
      have hrows : P'.rowsOf q = P.rowsOf q := h _ hmem
      rw [hrows]
    · rfl
  | notScalar e negated precedence =>
    exact congrArg (fun v => (R.toTruth v).signed negated) (Scalar.valueIn_renamed e h)
  | scalar e precedence => exact congrArg R.toTruth (Scalar.valueIn_renamed e h)
  | nested c => exact Condition.truthIn_renamed c h
termination_by structural p

theorem Branch.truthIn_renamed (b : Branch) (h : ∀ e ∈ b.walk, ReadAlike mapping P P' e) :
    ((fieldRenaming mapping).branch b).truthIn R P' = b.truthIn R P := by
  cases b with
  | mk negated predicate joinsOr =>
    exact congrArg (Truth.signed negated) (Predicate.truthIn_renamed predicate h)
termination_by structural b

theorem branchesTruthIn_renamed (items : List Branch) (acc : Truth)
    (h : ∀ e ∈ walkBranches items, ReadAlike mapping P P' e) :
    branchesTruthIn R P' ((fieldRenaming mapping).branches items) acc =
      branchesTruthIn R P items acc := by
  cases items with
  | nil => rfl
  | cons b rest =>
    have hparts := forall_append h
    have hb := Branch.truthIn_renamed b hparts.1
    have hempty : ((fieldRenaming mapping).branches rest).isEmpty = rest.isEmpty := by
      cases rest <;> rfl
    have hjoins : ((fieldRenaming mapping).branch b).joinsOr = b.joinsOr := by
      cases b
      rfl
    rw [Transformer.branches, branchesTruthIn, branchesTruthIn, hb, hempty, hjoins,
      branchesTruthIn_renamed rest _ hparts.2, branchesTruthIn_renamed rest _ hparts.2]
termination_by structural items

theorem Condition.truthIn_renamed (c : Condition) (h : ∀ e ∈ c.walk, ReadAlike mapping P P' e) :
    ((fieldRenaming mapping).condition c).truthIn R P' = c.truthIn R P := by
  cases c with
  | mk branches => exact branchesTruthIn_renamed branches (some true) h
termination_by structural c

end

end

/-! ## What counts -/

mutual

/-- Nothing changes where nothing is renamed. -/
theorem scalar_renamed_nil (e : Scalar) : (fieldRenaming []).scalar e = e := by
  cases e with
  | function call => exact congrArg Scalar.function (call_renamed_nil call)
  | binary l op r type =>
    exact congrArg₂ (Scalar.binary · op · type) (scalar_renamed_nil l) (scalar_renamed_nil r)
  | raw format args type precedence =>
    exact congrArg (Scalar.raw format · type precedence) (scalars_renamed_nil args)
  | convert target source e keep =>
    exact congrArg (Scalar.convert target source · keep) (scalar_renamed_nil e)
  | condition c => exact congrArg Scalar.condition (condition_renamed_nil c)
  | row items => exact congrArg Scalar.row (scalars_renamed_nil items)
  | _ => rfl
termination_by structural e

theorem scalars_renamed_nil (items : List Scalar) : (fieldRenaming []).scalars items = items := by
  cases items with
  | nil => rfl
  | cons e rest => exact congrArg₂ List.cons (scalar_renamed_nil e) (scalars_renamed_nil rest)
termination_by structural items

theorem call_renamed_nil (c : Call) : (fieldRenaming []).call c = c := by
  cases c with
  | mk name args type isAggregate keep =>
    exact congrArg (Call.mk name · type isAggregate keep) (scalars_renamed_nil args)
termination_by structural c

theorem predicate_renamed_nil (p : Predicate) : (fieldRenaming []).predicate p = p := by
  cases p with
  | compare l op r withNull =>
    exact congrArg₂ (Predicate.compare · op · withNull) (scalar_renamed_nil l)
      (scalar_renamed_nil r)
  | like e pattern escape negated =>
    have he := scalar_renamed_nil e
    have hpattern := scalar_renamed_nil pattern
    cases escape with
    | none => exact congrArg₂ (Predicate.like · · none negated) he hpattern
    | some escape =>
      change Predicate.like _ _ (some _) negated = _
      rw [he, hpattern, scalar_renamed_nil escape]
  | search e kind pattern caseSensitive negated =>
    exact congrArg₂ (Predicate.search · kind · caseSensitive negated) (scalar_renamed_nil e)
      (scalar_renamed_nil pattern)
  | between e low high negated =>
    change Predicate.between _ _ _ negated = _
    rw [scalar_renamed_nil e, scalar_renamed_nil low, scalar_renamed_nil high]
  | isNull e negated => exact congrArg (Predicate.isNull · negated) (scalar_renamed_nil e)
  | isDistinct l r negated =>
    exact congrArg₂ (Predicate.isDistinct · · negated) (scalar_renamed_nil l)
      (scalar_renamed_nil r)
  | inQuery e q negated => exact congrArg (Predicate.inQuery · q negated) (scalar_renamed_nil e)
  | inList e items negated withNull =>
    exact congrArg₂ (Predicate.inList · · negated withNull) (scalar_renamed_nil e)
      (scalars_renamed_nil items)
  | functionLike call => exact congrArg Predicate.functionLike (call_renamed_nil call)
  | notScalar e negated precedence =>
    exact congrArg (Predicate.notScalar · negated precedence) (scalar_renamed_nil e)
  | scalar e precedence => exact congrArg (Predicate.scalar · precedence) (scalar_renamed_nil e)
  | nested c => exact congrArg Predicate.nested (condition_renamed_nil c)
termination_by structural p

theorem branch_renamed_nil (b : Branch) : (fieldRenaming []).branch b = b := by
  cases b with
  | mk negated predicate joinsOr =>
    exact congrArg (Branch.mk negated · joinsOr) (predicate_renamed_nil predicate)
termination_by structural b

theorem branches_renamed_nil (items : List Branch) :
    (fieldRenaming []).branches items = items := by
  cases items with
  | nil => rfl
  | cons b rest => exact congrArg₂ List.cons (branch_renamed_nil b) (branches_renamed_nil rest)
termination_by structural items

theorem condition_renamed_nil (c : Condition) : (fieldRenaming []).condition c = c := by
  cases c with
  | mk branches => exact congrArg Condition.mk (branches_renamed_nil branches)
termination_by structural c

end

section

variable {V : Type} {R : Valuation V} {P P' : Place V}

/-- Only what an expression refers to counts for its value. -/
theorem Scalar.valueIn_congr (e : Scalar) (h : ∀ p ∈ e.walk, ReadAlike [] P P' p) :
    e.valueIn R P' = e.valueIn R P := by
  have hrenamed := Scalar.valueIn_renamed (R := R) e h
  rwa [scalar_renamed_nil] at hrenamed

/-- Only what a condition refers to counts for its truth. -/
theorem Condition.truthIn_congr (c : Condition) (h : ∀ p ∈ c.walk, ReadAlike [] P P' p) :
    c.truthIn R P' = c.truthIn R P := by
  have hrenamed := Condition.truthIn_renamed (R := R) c h
  rwa [condition_renamed_nil] at hrenamed

end

/-! ## Nullable integers -/

/-- Whether one of some truths holds. -/
def Truth.any (truths : List Truth) : Truth := truths.foldr or (some false)

/-- Integers that may be absent, read as SQL reads them.  Texts have no value here. -/
def Valuation.nullableIntegers : Valuation (Option Int) where
  null := none
  constant v := v.value.nullableInteger
  parameter p := p.value.nullableInteger
  function name _ args := Interpretation.nullableIntegers.call name args
  binary op _ := Interpretation.nullableIntegers.binary op
  raw _ _ _ := none
  convert _ _ v := v
  row _ := none
  typeName _ := none
  tableName _ := none
  isNull := Option.isNone
  ofTruth := Interpretation.nullableIntegers.ofTruth
  toTruth := Interpretation.nullableIntegers.toTruth
  compare := Interpretation.nullableIntegers.compare
  compareNull _ := Interpretation.nullableIntegers.compare
  like _ _ _ := none
  search _ _ _ _ := none
  between v low high :=
    Truth.and (Interpretation.nullableIntegers.compare .greaterOrEqual v low)
      (Interpretation.nullableIntegers.compare .lessOrEqual v high)
  isDistinct v w := v != w
  inList _ v vs := Truth.any (vs.map (Interpretation.nullableIntegers.compare .equal v))
  inRows v rows :=
    Truth.any (rows.map fun row => Interpretation.nullableIntegers.compare .equal v row.head?.join)
  single rows := rows.head?.bind fun row => row.head?.join
  isNull_null := rfl
  single_singleton v := by cases v <;> rfl
  equal_self v hv := by
    cases v with
    | none => cases hv
    | some n => exact congrArg some (beq_self_eq_true n)
  equal_null v w h := by
    cases v with
    | none => rfl
    | some n =>
      cases w with
      | none => rfl
      | some m => simp at h

end SqlCompiler
