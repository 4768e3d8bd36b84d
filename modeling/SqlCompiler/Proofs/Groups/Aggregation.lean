import SqlCompiler.Lowering.Grouped
import SqlCompiler.Proofs.Lowering.Pipelines
import SqlCompiler.Proofs.Lowering.Sequences
import SqlCompiler.Proofs.Lowering.Shapes
import SqlCompiler.Proofs.Semantics.Rows

/-!
# Aggregates over a group

An aggregate function has one value over the rows of a group: it counts the rows, or it computes
with the values of its argument that are not absent, each one once if the argument says so.  An
aggregate of a sequence counts the elements, or computes with their values.  A chain of conditions,
selectors and `Distinct` makes a sequence of the elements of a group; its operators are merged into one
condition, one selector and one `Distinct` at the end.

An aggregate of a chain of operators on a group is lowered to a call of the aggregate function.
Over the rows of the group the call has the value of the aggregate of the merged chain: conditions
and selectors are applied in their order, and `Distinct` at the end, or not at all if elements are
counted.

Main results:

- Definition `Aggregates`: what aggregate functions make of values.
- Definition `Aggregates.valueOf`: the value of a call of an aggregate function over some rows.
- Definition `Aggregates.ofElements`: the aggregate of a sequence of elements.
- Definition `Aggregates.nullableIntegers`: the aggregates of integers that may be absent.
- Definition `GroupChain`, with `GroupChain.term`, `GroupChain.shape?` and `GroupChain.run`.
- Definition `GroupChain.merged`: the chain with its `Distinct` operators dropped or moved to the
  end.
- Theorem `GroupChain.ofElements_merged`: for which chains that makes no difference to an aggregate.
- Definition `GroupRows.Represents`: the invariant of reading a chain.
- Theorem `GroupChain.groupSource_gives`: the rows that are read from a chain represent it.
- Theorem `GroupRows.Represents.aggregate`: the value of the call.
- Theorem `GroupChain.aggregate_value`: what an aggregate over a group is lowered to, and when it
  has the value of the aggregate of the chain.
-/

namespace SqlCompiler

/-! ## Values of aggregates -/

/-- What aggregate functions make of values none of which is absent. -/
structure Aggregates {V : Type} (I : Interpretation V) where
  count : Nat → V
  min : List V → V
  max : List V → V
  sum : List V → V
  average : List V → V
  /-- How often a value occurs does not matter to the least and the greatest one. -/
  min_congr : ∀ {vs ws : List V}, (∀ v, v ∈ vs ↔ v ∈ ws) → min vs = min ws
  max_congr : ∀ {vs ws : List V}, (∀ v, v ∈ vs ↔ v ∈ ws) → max vs = max ws
  /-- The absent constant is absent. -/
  isNull_null : I.isNull (I.constant .null) = true
  /-- The number that marks a row to be counted is not. -/
  isNull_one : I.isNull (I.constant (.integer 1)) = false

/-- The values that are not absent. -/
def Interpretation.present {V : Type} (I : Interpretation V) (values : List V) : List V :=
  values.filter fun v => !I.isNull v

namespace Aggregates

variable {V : Type} [DecidableEq V] {I : Interpretation V} (A : Aggregates I)

/-- What the function of a name makes of values none of which is absent. -/
def named (name : String) (values : List V) : V :=
  match name with
  | "Count" => A.count values.length
  | "Min" => A.min values
  | "Max" => A.max values
  | "Sum" => A.sum values
  | "Avg" => A.average values
  | _ => I.unknown

/-- The value of an aggregate function over rows: `Count(*)`, a function of distinct values, or a
function of all values of its argument. -/
def ofArguments (rows : List (Env V)) (name : String) : List Scalar → V
  | [] => if name == "Count" then A.count rows.length else I.unknown
  | [.raw "DISTINCT {0}" [e] _ _] =>
    A.named name (firstOfEach id (I.present (rows.map fun ρ => e.eval I ρ)))
  | [e] => A.named name (I.present (rows.map fun ρ => e.eval I ρ))
  | _ => I.unknown

/-- The value of a call of an aggregate function over rows. -/
def valueOf (rows : List (Env V)) : Scalar → V
  | .function ⟨name, args, _, true, _⟩ => A.ofArguments rows name args
  | _ => I.unknown

omit [DecidableEq V] in
/-- The aggregate of a sequence.  Absent values count, and are ignored otherwise. -/
def ofElements (operator : SequenceOperator) (elements : List (Element V)) : V :=
  let values := I.present (elements.map (Element.asValue I))
  match operator with
  | .count | .longCount => A.count elements.length
  | .min => A.min values
  | .max => A.max values
  | .sum => A.sum values
  | .average => A.average values
  | _ => I.unknown

/-- An argument that is no text is computed with as it is. -/
theorem ofArguments_single (rows : List (Env V)) (name : String) {e : Scalar}
    (h : e.isRaw = false) :
    A.ofArguments rows name [e] = A.named name (I.present (rows.map fun ρ => e.eval I ρ)) := by
  cases e with
  | raw format args type precedence => cases h
  | _ => rfl

/-! ## Nullable integers -/

/-- What is chosen among integers by how it compares to them depends on their set only. -/
theorem chosen_congr {choose : List Int → Option Int} {R : Int → Int → Prop}
    (hchoose : ∀ {xs a}, choose xs = some a ↔ a ∈ xs ∧ ∀ b ∈ xs, R a b) {xs ys : List Int}
    (h : ∀ a, a ∈ xs ↔ a ∈ ys) : choose xs = choose ys :=
  Option.ext fun a => by simp only [hchoose, h]

/-- The integers among some values. -/
theorem mem_filterMap_congr {vs ws : List (Option Int)} (h : ∀ v, v ∈ vs ↔ v ∈ ws) (a : Int) :
    a ∈ vs.filterMap id ↔ a ∈ ws.filterMap id := by
  simp [h]

/-- The aggregates of integers; of no integers there is only the number. -/
def nullableIntegers : Aggregates .nullableIntegers where
  count n := some n
  min values := (values.filterMap id).min?
  max values := (values.filterMap id).max?
  sum values := if values.isEmpty then none else some ((values.filterMap id).foldl (· + ·) 0)
  average values :=
    if values.isEmpty then none else some ((values.filterMap id).foldl (· + ·) 0 / values.length)
  min_congr h := chosen_congr List.min?_eq_some_iff (mem_filterMap_congr h)
  max_congr h := chosen_congr List.max?_eq_some_iff (mem_filterMap_congr h)
  isNull_null := rfl
  isNull_one := rfl

end Aggregates

/-! ## Chains -/

/-- A chain of operators on the elements of a group. -/
inductive GroupChain where
  | elements
  | filter (source : GroupChain) (condition : Term)
  | select (source : GroupChain) (selector : Term)
  | distinct (source : GroupChain)
  deriving Inhabited

namespace GroupChain

/-- The chain as a query term about the groups of a variable. -/
def term (group : String) : GroupChain → Term
  | elements => .bound group
  | filter source condition => (source.term group).filter condition
  | select source selector => (source.term group).select selector
  | distinct source => (source.term group).apply .distinct []

/-- The shape of what a chain makes of elements of a shape, if its functions have one in scope. -/
def shape? (Γ : List (String × VariableShape)) (σ : Shape) : GroupChain → Option Shape
  | elements => some σ
  | filter source condition =>
    match source.shape? Γ σ with
    | some τ =>
      match condition.functionShapeIn? Γ [τ] with
      | some (.value _) => some τ
      | _ => none
    | none => none
  | select source selector =>
    match source.shape? Γ σ with
    | some τ => selector.functionShapeIn? Γ [τ]
    | none => none
  | distinct source => source.shape? Γ σ

section

variable {V : Type} [DecidableEq V] (I : Interpretation V) (scope : List (String × Element V))
  (items : List (Element V))

/-- What a chain makes of elements, where the variables around stand for given ones. -/
def run : GroupChain → List (Element V)
  | elements => items
  | filter source condition =>
    source.run.filter fun e => I.toTruth ((condition.applyIn I scope [e]).asValue I) == some true
  | select source selector => source.run.map fun e => selector.applyIn I scope [e]
  | distinct source => distinctElements source.run

end

/-! ## Merging the operators -/

/-- Whether the chain has a `Distinct`. -/
def hasDistinct : GroupChain → Bool
  | elements => false
  | filter source _ | select source _ => source.hasDistinct
  | distinct _ => true

/-- The chain without `Distinct`. -/
def withoutDistinct : GroupChain → GroupChain
  | elements => elements
  | filter source condition => filter source.withoutDistinct condition
  | select source selector => select source.withoutDistinct selector
  | distinct source => source.withoutDistinct

/-- The chain an aggregate is computed of: nothing is made distinct if the elements are counted,
and else it is at the end. -/
def merged (c : GroupChain) (operator : SequenceOperator) : GroupChain :=
  if c.hasDistinct && !operator.isCount then distinct c.withoutDistinct else c.withoutDistinct

/-- Whether no selector comes after a `Distinct`. -/
def selectsFirst : GroupChain → Bool
  | elements => true
  | filter source _ | distinct source => source.selectsFirst
  | select source _ => !source.hasDistinct

/-- Whether an aggregate of the chain is not changed by merging: there is no `Distinct`, or the
aggregate does not depend on how often a value occurs, or `Distinct` may be moved to the end. -/
def isMergeable (c : GroupChain) (operator : SequenceOperator) : Bool :=
  !c.hasDistinct || operator == .min || operator == .max ||
    (c.selectsFirst && !operator.isCount)

section

variable {V : Type} [DecidableEq V] {I : Interpretation V} {scope : List (String × Element V)}
  {items : List (Element V)} {c : GroupChain}

theorem withoutDistinct_eq_self (h : c.hasDistinct = false) : c.withoutDistinct = c := by
  induction c with
  | elements => rfl
  | filter source condition ih => rw [withoutDistinct, ih h]
  | select source selector ih => rw [withoutDistinct, ih h]
  | distinct source ih => cases h

/-- Which elements there are does not depend on `Distinct`. -/
theorem mem_run_withoutDistinct (c : GroupChain) (e : Element V) :
    e ∈ c.withoutDistinct.run I scope items ↔ e ∈ c.run I scope items := by
  induction c generalizing e with
  | elements => exact Iff.rfl
  | filter source condition ih => simp only [withoutDistinct, run, List.mem_filter, ih]
  | select source selector ih => simp only [withoutDistinct, run, List.mem_map, ih]
  | distinct source ih => exact (ih e).trans mem_firstOfEach_id.symm

/-- Without a selector after `Distinct`, elements may be made distinct at the end. -/
theorem run_of_selectsFirst (h : c.selectsFirst = true) :
    c.run I scope items =
      if c.hasDistinct then distinctElements (c.withoutDistinct.run I scope items)
      else c.withoutDistinct.run I scope items := by
  induction c with
  | elements => rfl
  | filter source condition ih =>
    rw [run, ih h, withoutDistinct, run, hasDistinct]
    split
    · exact (firstOfEach_filter (fun a b hab => by rw [show a = b from hab]) _).symm
    · rfl
  | select source selector _ =>
    have hnone : source.hasDistinct = false := by simpa [selectsFirst] using h
    have hself : (select source selector).withoutDistinct = select source selector :=
      withoutDistinct_eq_self (c := select source selector) hnone
    rw [hself, hasDistinct, hnone]
    rfl
  | distinct source ih =>
    rw [run, ih h, withoutDistinct, hasDistinct, if_pos rfl]
    split
    · exact distinctElements_distinctElements _
    · rfl

omit [DecidableEq V] in
/-- The values that are not absent are the same if the elements are. -/
theorem mem_present_congr {es es' : List (Element V)} (h : ∀ e, e ∈ es ↔ e ∈ es') (v : V) :
    v ∈ I.present (es.map (Element.asValue I)) ↔ v ∈ I.present (es'.map (Element.asValue I)) := by
  simp only [Interpretation.present, List.mem_filter, List.mem_map, h]

/-- An aggregate of a chain may be computed of the merged chain. -/
theorem ofElements_merged (A : Aggregates I) {operator : SequenceOperator}
    (hoperator : operator.isAggregate = true) (h : c.isMergeable operator = true) :
    A.ofElements operator ((c.merged operator).run I scope items) =
      A.ofElements operator (c.run I scope items) := by
  cases hdistinct : c.hasDistinct with
  | false =>
    have hmerged : c.merged operator = c := by
      rw [merged, hdistinct]
      exact withoutDistinct_eq_self hdistinct
    rw [hmerged]
  | true =>
    have hsame : ∀ e, e ∈ (c.merged operator).run I scope items ↔ e ∈ c.run I scope items := by
      intro e
      rw [merged]
      split
      · exact mem_firstOfEach_id.trans (mem_run_withoutDistinct c e)
      · exact mem_run_withoutDistinct c e
    rw [isMergeable, hdistinct] at h
    have hmoved : operator.isCount = false → c.selectsFirst = true →
        (c.merged operator).run I scope items = c.run I scope items := by
      intro hcount hfirst
      rw [run_of_selectsFirst hfirst, merged, hdistinct, hcount]
      rfl
    cases operator with
    | min => exact A.min_congr (mem_present_congr hsame)
    | max => exact A.max_congr (mem_present_congr hsame)
    | sum => rw [hmoved rfl (by simpa [SequenceOperator.isCount] using h)]
    | average => rw [hmoved rfl (by simpa [SequenceOperator.isCount] using h)]
    | count => simp [SequenceOperator.isCount] at h
    | longCount => simp [SequenceOperator.isCount] at h
    | _ => cases hoperator

end

end GroupChain

variable {V : Type} [DecidableEq V] {I : Interpretation V} {ctx : LowerContext} {st : LowerState}
  {s : Store} {q : QueryRef} {Γ : List (String × VariableShape)}
  {scope : List (String × Projection)} {element : Projection} {σ τ : Shape} {chain : GroupChain}
  {rows : GroupRows}

/-! ## Reading a chain -/

/-- The rows a condition holds on. -/
def Condition.kept (I : Interpretation V) (c : Condition) (group : List (Env V)) : List (Env V) :=
  group.filter fun ρ => c.truth I ρ == some true

/-- The rows of a group that an aggregate runs over, where they are those of a chain without
`Distinct` on the elements of the group.  The variables around the chain stand for the same
elements on every row of a group. -/
structure GroupRows.Represents (I : Interpretation V) (s : Store) (q : QueryRef)
    (scope : List (String × Projection)) (element : Projection) (chain : GroupChain) (τ : Shape)
    (rows : GroupRows) : Prop where
  fits : rows.projection.Fits τ
  parts : rows.projection.All (Scalar.IsPart s q)
  distinct : rows.distinct = chain.hasDistinct
  run : ∀ (group : List (Env V)) (around : List (String × Element V)),
    (∀ ρ ∈ group, elementsOf I scope ρ = around) →
      (rows.filter.kept I group).map (fun ρ => rows.projection.denote I ρ) =
        chain.withoutDistinct.run I around (group.map fun ρ => element.denote I ρ)

theorem GroupRows.Represents.argument (h : rows.Represents I s q scope element chain τ) :
    FitArguments s q [rows.projection] [τ] :=
  .cons ⟨h.fits, h.parts⟩ .nil

omit [DecidableEq V] in
theorem Condition.kept_conjoinAll (c d : Condition) (group : List (Env V)) :
    (c.conjoinAll d).kept I group = d.kept I (c.kept I group) := by
  rw [kept, kept, kept, List.filter_filter]
  refine List.filter_congr fun ρ _ => ?_
  rw [truth_conjoinAll, Truth.and_beq_true, Bool.and_comm]

omit [DecidableEq V] in
theorem Condition.kept_of_isEmpty {c : Condition} (h : c.isEmpty = true) (group : List (Env V)) :
    c.kept I group = group := by
  obtain ⟨branches⟩ := c
  cases branches with
  | nil => exact List.filter_eq_self.mpr fun _ _ => rfl
  | cons b rest => cases h

/-- The rows of the group itself. -/
theorem GroupRows.represents_elements (hfits : element.Fits σ)
    (hparts : element.All (Scalar.IsPart s q)) :
    GroupRows.Represents I s q scope element .elements σ { projection := element } where
  fits := hfits
  parts := hparts
  distinct := rfl
  run group around _ := by
    rw [Condition.kept_of_isEmpty rfl]
    rfl

/-- A condition is added to the condition of the rows. -/
theorem GroupRows.Represents.filter (h : rows.Represents I st.store q scope element chain τ)
    (rules : List Rule) (hscope : ctx.Binds st.store q Γ scope) {f : Term} {absent : Bool} {n : Nat}
    (hf : f.functionShapeIn? Γ [τ] = some (.value absent)) (hn : 4 * f.size ≤ n) :
    ∃ c, ((lowererWithin rules n).applyCondition f [rows.projection] q).Gives ctx st c st ∧
      GroupRows.Represents I st.store q scope element (chain.filter f) τ
        { rows with filter := rows.filter.conjoinAll c } := by
  obtain ⟨c, hc, -, htruth⟩ :=
    LowerM.Gives.applyCondition (I := I) rules hscope h.argument hf hn
  refine ⟨c, hc, h.fits, h.parts, h.distinct, fun group around haround => ?_⟩
  rw [Condition.kept_conjoinAll, GroupChain.withoutDistinct, GroupChain.run,
    ← h.run group around haround, List.filter_map]
  congr 1
  refine List.filter_congr fun ρ hρ => ?_
  rw [htruth, haround ρ (List.mem_filter.mp hρ).1]
  rfl

/-- A selector replaces the projection of the rows. -/
theorem GroupRows.Represents.select (h : rows.Represents I st.store q scope element chain σ)
    (rules : List Rule) (hscope : ctx.Binds st.store q Γ scope) {f : Term} {n : Nat}
    (hf : f.functionShapeIn? Γ [σ] = some τ) (hn : 4 * f.size ≤ n) :
    ∃ r, ((lowererWithin rules n).applyProjection f [rows.projection] q).Gives ctx st r st ∧
      GroupRows.Represents I st.store q scope element (chain.select f) τ
        { rows with projection := r } := by
  obtain ⟨r, hr, hfits, hparts, hdenote⟩ :=
    LowerM.Gives.applyProjection (I := I) rules hscope h.argument hf hn
  refine ⟨r, hr, hfits, hparts, h.distinct, fun group around haround => ?_⟩
  rw [GroupChain.withoutDistinct, GroupChain.run, ← h.run group around haround, List.map_map]
  refine List.map_congr_left fun ρ hρ => ?_
  rw [hdenote, haround ρ (List.mem_filter.mp hρ).1]
  rfl

/-- What is read from a chain represents it. -/
theorem GroupChain.groupSource_gives {group : String} {key : Projection} (rules : List Rule)
    (hgroup : ctx.scope.lookup group = some (.grouping key element)) (hfits : element.Fits σ)
    (hparts : element.All (Scalar.IsPart st.store q)) (hscope : ctx.Binds st.store q Γ scope)
    (chain : GroupChain) {τ : Shape} {n : Nat} (hshape : chain.shape? Γ σ = some τ)
    (hn : 4 * (chain.term group).size ≤ n) :
    ∃ rows, ((lowererWithin rules n).groupSource q (chain.term group)).Gives ctx st (some rows) st ∧
      rows.Represents I st.store q scope element chain τ := by
  induction chain generalizing τ with
  | elements =>
    cases hshape
    refine ⟨_, ?_, GroupRows.represents_elements hfits hparts⟩
    rw [term, Lowerer.groupSource]
    exact (LowerM.Gives.lookUp hgroup).bind (LowerM.Gives.pure _)
  | filter source f ih =>
    rw [shape?] at hshape
    split at hshape
    · next υ hsource =>
      split at hshape
      · next hf =>
        cases hshape
        have hsize : ((filter source f).term group).size =
            (source.term group).size + (f.size + 0) + 1 := rfl
        obtain ⟨rows, hrows, hrepresents⟩ := ih hsource (by omega)
        obtain ⟨c, hc, hrepresents'⟩ := hrepresents.filter rules hscope (n := n) hf (by omega)
        refine ⟨_, ?_, hrepresents'⟩
        rw [term, Term.filter, Term.apply, Lowerer.groupSource]
        exact hrows.bind ((LowerM.Gives.pure f).bind (hc.bind (LowerM.Gives.pure _)))
      · cases hshape
    · cases hshape
  | select source f ih =>
    rw [shape?] at hshape
    split at hshape
    · next υ hsource =>
      have hsize : ((select source f).term group).size =
          (source.term group).size + (f.size + 0) + 1 := rfl
      obtain ⟨rows, hrows, hrepresents⟩ := ih hsource (by omega)
      obtain ⟨r, hr, hrepresents'⟩ := hrepresents.select rules hscope (n := n) hshape (by omega)
      refine ⟨_, ?_, hrepresents'⟩
      rw [term, Term.select, Term.apply, Lowerer.groupSource]
      exact hrows.bind ((LowerM.Gives.pure f).bind (hr.bind (LowerM.Gives.pure _)))
    · cases hshape
  | distinct source ih =>
    have hsize : ((distinct source).term group).size = (source.term group).size + 0 + 1 := rfl
    obtain ⟨rows, hrows, hrepresents⟩ := ih hshape (by omega)
    refine ⟨{ rows with distinct := true }, ?_,
      hrepresents.fits, hrepresents.parts, rfl, hrepresents.run⟩
    rw [term, Term.apply, Lowerer.groupSource]
    exact hrows.bind (LowerM.Gives.pure _)

/-! ## The value of the call -/

section

variable (A : Aggregates I) {operator : SequenceOperator}

omit [DecidableEq V] in
theorem Aggregates.ofElements_count (hcount : operator.isCount = true)
    (elements : List (Element V)) :
    A.ofElements operator elements = A.count elements.length := by
  cases operator with
  | count | longCount => rfl
  | _ => cases hcount

omit [DecidableEq V] in
/-- An aggregate that does not count computes with the values of the elements. -/
theorem Aggregates.ofElements_named (hoperator : operator.isAggregate = true)
    (hcount : operator.isCount = false) (elements : List (Element V)) :
    A.ofElements operator elements =
      A.named operator.functionName (I.present (elements.map (Element.asValue I))) := by
  cases operator with
  | min | max | sum | average => rfl
  | count | longCount => cases hcount
  | _ => cases hoperator

omit [DecidableEq V] in
/-- Values that are absent on some rows, of which only the others matter. -/
theorem Aggregates.present_guarded (A : Aggregates I) {f g : Env V → V} {p : Env V → Bool}
    (h : ∀ ρ, g ρ = if p ρ then f ρ else I.constant .null) (group : List (Env V)) :
    I.present (group.map g) = I.present ((group.filter p).map f) := by
  induction group with
  | nil => rfl
  | cons ρ rest ih =>
    unfold Interpretation.present at ih ⊢
    rw [List.map_cons, h ρ]
    cases hp : p ρ with
    | true => simp only [if_true, List.filter_cons, hp, List.map_cons, ih]
    | false => simp [hp, A.isNull_null, ih]

omit [DecidableEq V] in
theorem GroupRows.present_filtered (A : Aggregates I) (e : Scalar) (group : List (Env V)) :
    I.present (group.map fun ρ => (rows.filtered e).eval I ρ) =
      I.present ((rows.filter.kept I group).map fun ρ => e.eval I ρ) := by
  unfold filtered
  split
  · next hempty => rw [Condition.kept_of_isEmpty hempty]
  · refine A.present_guarded (fun ρ => ?_) group
    change (if I.toTruth (I.ofTruth (rows.filter.truth I ρ)) == some true then e.eval I ρ
      else I.constant .null) = _
    rw [I.toTruth_ofTruth]

omit [DecidableEq V] in
theorem Element.map_asValue (values : List V) :
    (values.map Element.value).map (Element.asValue I) = values := by
  rw [List.map_map]
  exact List.map_id values

/-- Distinct elements that are single values have distinct values. -/
theorem present_distinctElements (values : List V) :
    I.present ((distinctElements (values.map Element.value)).map (Element.asValue I)) =
      firstOfEach id (I.present values) := by
  have hsame : firstOfEach (fun v : V => Element.value v) values = firstOfEach id values :=
    firstOfEach_congr fun a _ b _ => by simp
  rw [distinctElements, firstOfEach_map, hsame, Element.map_asValue, Interpretation.present,
    Interpretation.present]
  exact (firstOfEach_filter (fun a b hab => by rw [show a = b from hab]) _).symm

theorem GroupRows.isRaw_filtered {e : Scalar} (h : e.isRaw = false) :
    (rows.filtered e).isRaw = false := by
  unfold filtered
  split
  · exact h
  · rfl

/-- The number of rows that are kept. -/
theorem GroupRows.Represents.count (h : rows.Represents I s q scope element chain τ)
    (hcount : operator.isCount = true) {group : List (Env V)}
    {around : List (String × Element V)} (haround : ∀ ρ ∈ group, elementsOf I scope ρ = around) :
    A.ofArguments group "Count" (if rows.filter.isEmpty then [] else [rows.filtered (.int 1)]) =
      A.ofElements operator
        ((chain.merged operator).run I around (group.map fun ρ => element.denote I ρ)) := by
  have hmerged : chain.merged operator = chain.withoutDistinct := by
    rw [GroupChain.merged, hcount, Bool.not_true, Bool.and_false]
    rfl
  rw [A.ofElements_count hcount, hmerged, ← h.run group around haround, List.length_map]
  split
  · next hempty =>
    rw [Condition.kept_of_isEmpty hempty]
    rfl
  · rw [A.ofArguments_single group "Count" (GroupRows.isRaw_filtered rfl),
      GroupRows.present_filtered A]
    have hpresent : I.present ((rows.filter.kept I group).map fun ρ => (Scalar.int 1).eval I ρ) =
        (rows.filter.kept I group).map fun ρ => (Scalar.int 1).eval I ρ := by
      refine List.filter_eq_self.mpr fun v hv => ?_
      obtain ⟨ρ, -, rfl⟩ := List.mem_map.mp hv
      change (!I.isNull (I.constant (.integer 1))) = true
      rw [A.isNull_one]
      rfl
    rw [hpresent]
    exact congrArg A.count (List.length_map _)

/-- The aggregate of the values on the rows that are kept. -/
theorem GroupRows.Represents.compute {e : Scalar} {absent : Bool}
    (h : rows.Represents I s q scope element chain (.value absent))
    (he : rows.projection = .scalar e) (hoperator : operator.isAggregate = true)
    (hcount : operator.isCount = false) (type : SqlType) {group : List (Env V)}
    {around : List (String × Element V)} (haround : ∀ ρ ∈ group, elementsOf I scope ρ = around) :
    A.ofArguments group operator.functionName [rows.deduplicated (rows.filtered e) type] =
      A.ofElements operator
        ((chain.merged operator).run I around (group.map fun ρ => element.denote I ρ)) := by
  have hrun := h.run group around haround
  have hraw : e.isRaw = false := (Projection.all_scalar.mp (he ▸ h.parts)).raw
  have hvalues : (rows.filter.kept I group).map (fun ρ => rows.projection.denote I ρ) =
      ((rows.filter.kept I group).map fun ρ => e.eval I ρ).map Element.value := by
    rw [he, List.map_map]
    rfl
  rw [hvalues] at hrun
  rw [A.ofElements_named hoperator hcount, GroupChain.merged, hcount, Bool.not_false,
    Bool.and_true, GroupRows.deduplicated, h.distinct]
  cases chain.hasDistinct with
  | true =>
    rw [if_pos rfl, if_pos rfl, GroupChain.run, ← hrun, present_distinctElements,
      ← GroupRows.present_filtered A]
    rfl
  | false =>
    rw [if_neg Bool.false_ne_true, if_neg Bool.false_ne_true, ← hrun, Element.map_asValue,
      A.ofArguments_single group _ (GroupRows.isRaw_filtered hraw),
      GroupRows.present_filtered A]

/-- The call of the aggregate function has the value of the aggregate of the merged chain. -/
theorem GroupRows.Represents.aggregate (h : rows.Represents I st.store q scope element chain τ)
    (whole : Term) (hoperator : operator.isAggregate = true)
    (hsingle : operator.isCount = true ∨ ∃ absent, τ = .value absent) :
    ∃ e, (rows.aggregate whole operator).Gives ctx st e st ∧
      ∀ (A : Aggregates I) (group : List (Env V)) (around : List (String × Element V)),
        (∀ ρ ∈ group, elementsOf I scope ρ = around) → A.valueOf group e = A.ofElements operator
          ((chain.merged operator).run I around (group.map fun ρ => element.denote I ρ)) := by
  cases hcount : operator.isCount with
  | true =>
    refine ⟨.function (.aggregate "Count"
        (if rows.filter.isEmpty then [] else [rows.filtered (.int 1)])
        (operator.aggregateType .undefined)), ?_,
      fun A group around haround => h.count A hcount haround⟩
    rw [GroupRows.aggregate, hcount]
    exact LowerM.Gives.pure _
  | false =>
    obtain ⟨absent, rfl⟩ := hsingle.resolve_left (by simp [hcount])
    obtain ⟨e, he, -⟩ := h.fits.scalar
    let type := st.store.typeOf e
    refine ⟨.function (.aggregate operator.functionName
        [rows.deduplicated (rows.filtered e) type] (operator.aggregateType type)), ?_,
      fun A group around haround => h.compute A he hoperator hcount type haround⟩
    rw [GroupRows.aggregate, hcount, he]
    exact (LowerM.Gives.pure e).bind (LowerM.Gives.store.bind (LowerM.Gives.pure _))

end

/-! ## Lowering an aggregate -/

namespace GroupChain

/-- An aggregate of a chain on a group is lowered to one call of the aggregate function, without
a change to the store.  Over the rows of a group, on which the variables around the chain do not
change, the call has the value of the aggregate of the merged chain; so it has the value of the
aggregate of the chain itself if that may be merged. -/
theorem aggregate_value (I : Interpretation V) (rules : List Rule) {group : String}
    {key : Projection} (hgroup : ctx.scope.lookup group = some (.grouping key element))
    (hfits : element.Fits σ) (hparts : element.All (Scalar.IsPart st.store q))
    (hscope : ctx.Binds st.store q Γ scope) {operator : SequenceOperator}
    (hoperator : operator.isAggregate = true) (hshape : chain.shape? Γ σ = some τ)
    (hsingle : operator.isCount = true ∨ ∃ absent, τ = .value absent) {n : Nat}
    (hn : 4 * (chain.term group).size ≤ n) :
    ∃ e, ((lowererWithin rules n).callOf operator [chain.term group] q).Gives ctx st e st ∧
      ∀ (A : Aggregates I) (rows : List (Env V)) (around : List (String × Element V)),
        (∀ ρ ∈ rows, elementsOf I scope ρ = around) →
          A.valueOf rows e = A.ofElements operator
              ((chain.merged operator).run I around (rows.map fun ρ => element.denote I ρ)) ∧
            (chain.isMergeable operator = true → A.valueOf rows e = A.ofElements operator
              (chain.run I around (rows.map fun ρ => element.denote I ρ))) := by
  obtain ⟨read, hread, hrepresents⟩ :=
    groupSource_gives (I := I) rules hgroup hfits hparts hscope chain hshape hn
  obtain ⟨e, he, hvalue⟩ :=
    hrepresents.aggregate (.call operator [chain.term group]) hoperator hsingle
  refine ⟨e, ?_, fun A rows around haround => ?_⟩
  · rw [Lowerer.callOf, hoperator]
    exact (LowerM.Gives.pure (chain.term group)).bind (hread.bind he)
  · have hmerged := hvalue A rows around haround
    exact ⟨hmerged, fun hmergeable => hmerged.trans (ofElements_merged A hoperator hmergeable)⟩

/-- The element of a group of people: their age. -/
def personAge : Projection := .record [("Age", .scalar (.field ⟨1⟩))]

/-- People by the decade of their age. -/
def ageGroups : Projection := .grouping (.record [("Decade", .scalar (.field ⟨0⟩))]) personAge

/-- The distinct ages above the decade of a group. -/
def distinctAges : GroupChain :=
  .filter (.distinct (.select .elements (.fn "e" (.member (.bound "e") "Age"))))
    (.fn "a" (.binary .greater (.bound "a") (.member (.member (.bound "g") "Key") "Decade")))

/-- A row with a decade and an age. -/
def ageRow (decade age : Int) : Env (Option Int) where
  field f := if f == ⟨0⟩ then some decade else some age
  column _ := none

/-- The sum of the distinct ages above the decade of a group is lowered to a call with that
value. -/
theorem aggregate_value_distinctAges :
    ∃ e, ((lowererWithin standardRules 100).callOf .sum [distinctAges.term "g"] ⟨0⟩).Gives
        { Pipeline.personContext with scope := [("g", ageGroups)] } {} e {} ∧
      Aggregates.nullableIntegers.valueOf
        [ageRow 30 30, ageRow 30 34, ageRow 30 37, ageRow 30 34] e = some 71 := by
  let st : LowerState := {}
  have hpart : ∀ f : FieldRef, (Scalar.field f).IsPart st.store ⟨0⟩ := fun _ => .of_plain rfl
  let key : Shape := .record [("Decade", .value false)]
  let element : Shape := .record [("Age", .value false)]
  have hfits : personAge.Fits element := ⟨_, rfl, _, _, rfl, fun h => h, rfl⟩
  have hparts : personAge.All (Scalar.IsPart st.store ⟨0⟩) := ⟨hpart ⟨1⟩, trivial⟩
  have hshows : ageGroups.Shows (.group key) := ⟨_, rfl, _, _, rfl, fun h => h, rfl⟩
  have hscope : LowerContext.Binds { Pipeline.personContext with scope := [("g", ageGroups)] }
      st.store ⟨0⟩ [("g", .group key)] [("g", ageGroups)] :=
    (Pipeline.personContext.binds_nil st.store ⟨0⟩).cons "g" hshows ⟨hpart ⟨0⟩, trivial⟩
  have hshape : distinctAges.shape? [("g", .group key)] element = some (.value false) := rfl
  obtain ⟨e, he, hvalue⟩ := aggregate_value .nullableIntegers standardRules rfl hfits
    hparts hscope (show SequenceOperator.sum.isAggregate = true from rfl) hshape
    (.inr ⟨false, rfl⟩) (show 4 * (distinctAges.term "g").size ≤ 100 by decide)
  have hsum := (hvalue .nullableIntegers
    [ageRow 30 30, ageRow 30 34, ageRow 30 37, ageRow 30 34]
    [("g", .record [("Key", .record [("Decade", .value (some 30))])])]
    (by simp only [List.forall_mem_cons]; exact ⟨rfl, rfl, rfl, rfl, by simp⟩)).2 rfl
  exact ⟨e, he, hsum.trans (by decide)⟩

end GroupChain

end SqlCompiler
