import SqlCompiler.Proofs.Lowering.Shapes
import SqlCompiler.Proofs.Lowering.Steps
import SqlCompiler.Proofs.Semantics.Functions

/-!
# Bodies of functions

The body of a function that has a shape is lowered without a change to the store, to expressions
that have the value of the body on every row.

Main results:

- Definition `LowerContext.Binds`: what is known of the variables of the function.
- Definition `Lowerer.Lowers`: a body can be lowered to a projection, to a scalar and to a
  condition.
- Theorem `Term.lowers`: every body with a shape can, with fuel for four levels per node.
-/

namespace SqlCompiler

/-! ## Variables -/

/-- Whether a projection is that of a variable of a shape. -/
def Projection.Shows : Projection → VariableShape → Prop
  | p, .element σ => p.Fits σ
  | .grouping key _, .group σ => key.Fits σ
  | _, .group _ => False

@[simp]
theorem Projection.shows_element {p : Projection} {σ : Shape} :
    p.Shows (.element σ) ↔ p.Fits σ := by
  cases p <;> exact Iff.rfl

/-- The elements that the variables in scope stand for on a row. -/
def elementsOf {V : Type} (I : Interpretation V) (scope : List (String × Projection))
    (ρ : Env V) : List (String × Element V) :=
  scope.map fun v => (v.1, v.2.denote I ρ)

section

variable {V : Type} {I : Interpretation V} {ρ : Env V} {scope : List (String × Projection)}

theorem lookup_elementsOf (name : String) :
    (elementsOf I scope ρ).lookup name = (scope.lookup name).map fun p => p.denote I ρ := by
  induction scope with
  | nil => rfl
  | cons v rest ih =>
    obtain ⟨key, p⟩ := v
    rw [elementsOf, List.map_cons, List.lookup_cons, List.lookup_cons]
    cases name == key with
    | true => rfl
    | false => exact ih

@[simp]
theorem elementsOf_append (scope scope' : List (String × Projection)) :
    elementsOf I (scope ++ scope') ρ = elementsOf I scope ρ ++ elementsOf I scope' ρ :=
  List.map_append

/-- Arguments in scope stand for their elements. -/
theorem elementsOf_arguments (params : List String) (args : List Projection) :
    elementsOf I (params.zip args).reverse ρ =
      (params.zip (args.map fun p => p.denote I ρ)).reverse := by
  rw [elementsOf, List.map_reverse, List.zip_map_right]
  rfl

end

/-- What is known of the variables that the body of a function may mention: they are in scope for
projections of their shapes. -/
def LowerContext.Binds (ctx : LowerContext) (s : Store) (q : QueryRef)
    (Γ : List (String × VariableShape))
    (scope : List (String × Projection)) : Prop :=
  ∀ name v, Γ.lookup name = some v → ∃ p, ctx.scope.lookup name = some p ∧
    scope.lookup name = some p ∧ p.Shows v ∧ p.All (Scalar.IsPart s q)

/-! ## What a body is lowered to -/

section

variable {V : Type} (I : Interpretation V) (s : Store) (q : QueryRef)
  (scope : List (String × Projection))

/-- A projection that stands for a body. -/
structure BodyProjection (t : Term) (τ : Shape) (r : Projection) : Prop where
  fits : r.Fits τ
  absent : t.isAbsent = true → ∀ e, r = .scalar e → e.isNullValue = true
  parts : r.All (Scalar.IsPart s q)
  denote_eq : ∀ ρ, r.denote I ρ = t.evalIn I (elementsOf I scope ρ)

/-- A scalar that stands for a body, the absent constant if the body is, and not unless the
shape says so. -/
structure BodyScalar (t : Term) (absent : Bool) (e : Scalar) : Prop where
  fits : e.Fits (.value absent)
  absent : t.isAbsent = true → e.isNullValue = true
  part : e.IsPart s q
  eval_eq : ∀ ρ, e.eval I ρ = (t.evalIn I (elementsOf I scope ρ)).asValue I

/-- A condition that stands for a body. -/
structure BodyCondition (t : Term) (c : Condition) : Prop where
  solid : c.isSolid = true
  truth_eq : ∀ ρ, c.truth I ρ = I.toTruth ((t.evalIn I (elementsOf I scope ρ)).asValue I)

/-- A lowerer turns a body into expressions that stand for it. -/
structure Lowerer.Lowers (l : Lowerer) (ctx : LowerContext) (st : LowerState) (t : Term)
    (τ : Shape) : Prop where
  projection : ∃ r, (l.projection t q).Gives ctx st r st ∧ BodyProjection I st.store q scope t τ r
  scalar : ∀ absent, τ = .value absent →
    ∃ e, (l.scalar t q).Gives ctx st e st ∧ BodyScalar I st.store q scope t absent e
  condition : ∀ absent, τ = .value absent →
    ∃ c, (l.condition t q).Gives ctx st c st ∧ BodyCondition I scope t c

/-- The condition a scalar is, or the test for its truth. -/
def Scalar.asCondition : Scalar → Condition
  | .condition c => c
  | e => .ofPredicate (.ofScalar e)

variable {I s q scope} {t : Term} {τ : Shape} {absent : Bool}

/-! ## From one kind of expression to another -/

theorem BodyScalar.asCondition {e : Scalar} (h : BodyScalar I s q scope t absent e) :
    BodyCondition I scope t e.asCondition := by
  unfold Scalar.asCondition
  split
  · next c =>
    refine ⟨h.part.solid c rfl, fun ρ => ?_⟩
    rw [← h.eval_eq, Scalar.eval, I.toTruth_ofTruth]
  · refine ⟨rfl, fun ρ => ?_⟩
    rw [Condition.truth_ofPredicate, Predicate.ofScalar, Predicate.truth, h.eval_eq]

theorem BodyCondition.scalar {c : Condition} (h : BodyCondition I scope t c)
    (habsent : t.isAbsent = false)
    (hvalue : ∀ ρ, ∃ a, t.evalIn I (elementsOf I scope ρ) = .value (I.ofTruth a)) :
    BodyScalar I s q scope t false (.condition c) where
  fits := fun hnull => hnull
  absent := fun heq => by rw [habsent] at heq; cases heq
  part := {
    solid := fun _ heq => by cases heq; exact h.solid
    column := fun _ heq => by cases heq
    raw := rfl }
  eval_eq ρ := by
    obtain ⟨a, ha⟩ := hvalue ρ
    rw [Scalar.eval, h.truth_eq, ha, Element.asValue, I.toTruth_ofTruth]

theorem BodyScalar.projection {e : Scalar} (h : BodyScalar I s q scope t absent e)
    (hvalue : ∀ ρ, ∃ v, t.evalIn I (elementsOf I scope ρ) = .value v) :
    BodyProjection I s q scope t (.value absent) (.scalar e) where
  fits := h.fits
  absent habsent e' heq := by cases heq; exact h.absent habsent
  parts := Projection.all_scalar.mpr h.part
  denote_eq ρ := by
    obtain ⟨v, hv⟩ := hvalue ρ
    rw [Projection.denote, h.eval_eq, hv, Element.asValue]

theorem BodyProjection.scalar {r : Projection}
    (h : BodyProjection I s q scope t (.value absent) r) :
    ∃ e, r = .scalar e ∧ BodyScalar I s q scope t absent e := by
  obtain ⟨e, rfl, hfits⟩ := h.fits.scalar
  refine ⟨e, rfl, hfits, fun habsent => h.absent habsent e rfl, Projection.all_scalar.mp h.parts,
    fun ρ => ?_⟩
  rw [← h.denote_eq, Projection.denote, Element.asValue]

end

/-! ## Levels of lowering -/

/-- Lowering to a condition by way of a scalar. -/
def Lowerer.byScalar (l : Lowerer) (t : Term) (q : QueryRef) : LowerM Condition := do
  match ← l.scalar t q with
  | .condition c => return c
  | e => return .ofPredicate (.ofScalar e)

theorem LowerM.Gives.byScalar {l : Lowerer} {t : Term} {q : QueryRef} {ctx : LowerContext}
    {st st' : LowerState} {e : Scalar} (h : (l.scalar t q).Gives ctx st e st') :
    (l.byScalar t q).Gives ctx st e.asCondition st' := by
  refine h.bind ?_
  cases e <;> exact pure _

section

variable {V : Type} {I : Interpretation V} {rules : List Rule} {ctx : LowerContext}
  {st : LowerState} {q : QueryRef} {scope : List (String × Projection)} {t : Term} {τ : Shape}
  {absent a b d : Bool} {k n : Nat}

/-- A body that is lowered to a projection in the first place. -/
theorem lowers_of_projection
    (hscalar : ∀ l : Lowerer,
      l.scalarOf t q = do LowerM.ofExcept ((← l.projection t q).toScalar t))
    (hcondition : ∀ l : Lowerer, l.conditionOf t q = l.byScalar t q)
    (hdirect : ∀ m, k ≤ m → ∃ r, ((lowererWithin rules m).projectionOf t q).Gives ctx st r st ∧
      BodyProjection I st.store q scope t τ r)
    (hn : k + 4 ≤ n) : (lowererWithin rules n).Lowers I q scope ctx st t τ := by
  have hscalars : ∀ m, k + 1 ≤ m → ∀ absent, τ = .value absent →
      ∃ e, ((lowererWithin rules m).scalarOf t q).Gives ctx st e st ∧
        BodyScalar I st.store q scope t absent e := by
    intro m hm absent hτ
    obtain ⟨m, rfl⟩ := Nat.exists_eq_add_of_le' (Nat.le_of_add_left_le hm)
    obtain ⟨r, hr, hbody⟩ := hdirect m (by omega)
    obtain ⟨e, rfl, he⟩ := (hτ ▸ hbody).scalar
    refine ⟨e, ?_, he⟩
    rw [hscalar]
    exact LowerM.Gives.bind hr (LowerM.Gives.pure e)
  obtain ⟨n, rfl⟩ := Nat.exists_eq_add_of_le' hn
  constructor
  · exact hdirect (n + (k + 3)) (by omega)
  · exact hscalars (n + (k + 3)) (by omega)
  · intro absent hτ
    obtain ⟨e, he, hbody⟩ := hscalars (n + (k + 2)) (by omega) absent hτ
    refine ⟨e.asCondition, ?_, hbody.asCondition⟩
    change ((lowererWithin rules (n + (k + 2) + 1)).conditionOf t q).Gives _ _ _ _
    rw [hcondition]
    exact LowerM.Gives.byScalar he

/-- A body that is lowered to a scalar in the first place. -/
theorem lowers_of_scalar
    (hvalue : ∀ rows, ∃ v, t.evalIn I rows = .value v)
    (hprojection : ∀ l : Lowerer, l.projectionOf t q = do return .scalar (← l.scalar t q))
    (hcondition : ∀ l : Lowerer, l.conditionOf t q = l.byScalar t q)
    (hdirect : ∀ m, k ≤ m → ∃ e, ((lowererWithin rules m).scalarOf t q).Gives ctx st e st ∧
      BodyScalar I st.store q scope t absent e)
    (hn : k + 4 ≤ n) : (lowererWithin rules n).Lowers I q scope ctx st t (.value absent) := by
  obtain ⟨n, rfl⟩ := Nat.exists_eq_add_of_le' hn
  obtain ⟨e, he, hbody⟩ := hdirect (n + (k + 2)) (by omega)
  constructor
  · refine ⟨.scalar e, ?_, hbody.projection fun ρ => hvalue _⟩
    change ((lowererWithin rules (n + (k + 2) + 1)).projectionOf t q).Gives _ _ _ _
    rw [hprojection]
    exact LowerM.Gives.bind he (LowerM.Gives.pure _)
  · rintro _ ⟨⟩
    exact hdirect (n + (k + 3)) (by omega)
  · intro _ _
    refine ⟨e.asCondition, ?_, hbody.asCondition⟩
    change ((lowererWithin rules (n + (k + 2) + 1)).conditionOf t q).Gives _ _ _ _
    rw [hcondition]
    exact LowerM.Gives.byScalar he

/-- A body that is lowered to a condition in the first place. -/
theorem lowers_of_condition (habsent : t.isAbsent = false)
    (hvalue : ∀ rows, ∃ a, t.evalIn I rows = .value (I.ofTruth a))
    (hprojection : ∀ l : Lowerer, l.projectionOf t q = do return .scalar (← l.scalar t q))
    (hscalar : ∀ l : Lowerer, l.scalarOf t q = do return .condition (← l.condition t q))
    (hdirect : ∀ m, k ≤ m → ∃ c, ((lowererWithin rules m).conditionOf t q).Gives ctx st c st ∧
      BodyCondition I scope t c)
    (hn : k + 4 ≤ n) : (lowererWithin rules n).Lowers I q scope ctx st t (.value false) := by
  have hscalars : ∀ m, k + 1 ≤ m →
      ∃ e, ((lowererWithin rules m).scalarOf t q).Gives ctx st e st ∧
        BodyScalar I st.store q scope t false e := by
    intro m hm
    obtain ⟨m, rfl⟩ := Nat.exists_eq_add_of_le' (Nat.le_of_add_left_le hm)
    obtain ⟨c, hc, hbody⟩ := hdirect m (by omega)
    refine ⟨.condition c, ?_, hbody.scalar habsent fun ρ => hvalue _⟩
    rw [hscalar]
    exact LowerM.Gives.bind hc (LowerM.Gives.pure _)
  obtain ⟨n, rfl⟩ := Nat.exists_eq_add_of_le' hn
  constructor
  · obtain ⟨e, he, hbody⟩ := hscalars (n + (k + 2)) (by omega)
    refine ⟨.scalar e, ?_, hbody.projection fun ρ => ?_⟩
    · change ((lowererWithin rules (n + (k + 2) + 1)).projectionOf t q).Gives _ _ _ _
      rw [hprojection]
      exact LowerM.Gives.bind he (LowerM.Gives.pure _)
    · obtain ⟨a, ha⟩ := hvalue (elementsOf I scope ρ)
      exact ⟨_, ha⟩
  · rintro _ ⟨⟩
    exact hscalars (n + (k + 3)) (by omega)
  · intro _ _
    exact hdirect (n + (k + 3)) (by omega)

/-! ## Terms that are projections -/

variable {Γ : List (String × VariableShape)}

theorem lowers_bound {name : String} (hscope : ctx.Binds st.store q Γ scope)
    (hshape : Γ.lookup name = some (.element τ)) (hn : 4 ≤ n) :
    (lowererWithin rules n).Lowers I q scope ctx st (.bound name) τ := by
  obtain ⟨p, hp, hmem, hfits, hparts⟩ := hscope name _ hshape
  refine lowers_of_projection (k := 0) (fun _ => rfl) (fun _ => rfl) (fun m _ => ?_) (by omega)
  refine ⟨p, LowerM.Gives.lookUp hp, hfits, (fun h => by cases h), hparts, fun ρ => ?_⟩
  rw [Term.evalIn, lookup_elementsOf, hmem]
  rfl

/-- A group that is a variable has its key. -/
theorem lowers_groupMember {owner : Term} {name : String} (hscope : ctx.Binds st.store q Γ scope)
    (hkey : owner.groupMember? Γ name = some τ) (hn : 5 ≤ n) :
    (lowererWithin rules n).Lowers I q scope ctx st (.member owner name) τ := by
  unfold Term.groupMember? at hkey
  split at hkey
  · next group =>
    split at hkey
    · next key hgroup =>
      split at hkey
      · next hname =>
        cases hkey
        cases eq_of_beq hname
        obtain ⟨p, hp, hmem, hshows, hparts⟩ := hscope group _ hgroup
        cases p with
        | grouping keys element =>
          refine lowers_of_projection (k := 1) (fun _ => rfl) (fun _ => rfl) (fun m hm => ?_) hn
          obtain ⟨m, rfl⟩ := Nat.exists_eq_add_of_le' hm
          refine ⟨keys, LowerM.Gives.bind (LowerM.Gives.lookUp hp) (LowerM.Gives.pure keys),
            hshows, (fun h => by cases h), hparts, fun ρ => ?_⟩
          rw [Term.evalIn, Term.evalIn, lookup_elementsOf, hmem]
          rfl
        | _ => exact hshows.elim
      · cases hkey
    · cases hkey
  · cases hkey

theorem lowers_member {owner : Term} {name : String} {members : List (String × Shape)}
    (howner : ∀ m, k ≤ m →
      (lowererWithin rules m).Lowers I q scope ctx st owner (.record members))
    (hget : Members.get? name members = some τ)
    (hn : k + 4 ≤ n) : (lowererWithin rules n).Lowers I q scope ctx st (.member owner name) τ := by
  refine lowers_of_projection (fun _ => rfl) (fun _ => rfl) (fun m hm => ?_) hn
  obtain ⟨r, hr, hbody⟩ := (howner m hm).projection
  obtain ⟨found, hfound, hfits⟩ := hbody.fits.member? hget
  have hmember : r.member name = .ok found := by rw [Projection.member, hfound]
  refine ⟨found, hr.bind ?_, hfits, (fun h => by cases h), hbody.parts.member? hfound,
    fun ρ => ?_⟩
  · cases r with
    | scalar e => cases hfound
    | _ => exact LowerM.Gives.ofExcept hmember
  · rw [Term.evalIn, ← hbody.denote_eq, Projection.member?_denote I ρ hfound, Option.getD_some]

theorem lowers_quote {body : Term}
    (hlowers : ∀ m, k ≤ m → (lowererWithin rules m).Lowers I q scope ctx st body τ)
    (hn : k + 4 ≤ n) : (lowererWithin rules n).Lowers I q scope ctx st (.quote body) τ := by
  refine lowers_of_projection (fun _ => rfl) (fun _ => rfl) (fun m hm => ?_) hn
  obtain ⟨r, hr, hbody⟩ := (hlowers m hm).projection
  exact ⟨r, hr, hbody.fits, hbody.absent, hbody.parts, hbody.denote_eq⟩

/-! ## Records -/

/-- A member of a record can be lowered. -/
structure MemberLowers (l : Lowerer) (I : Interpretation V) (q : QueryRef)
    (scope : List (String × Projection)) (ctx : LowerContext) (st : LowerState) (m : String × Term)
    (shape : String × Shape) : Prop where
  name : m.1 = shape.1
  lowers : l.Lowers I q scope ctx st m.2 shape.2

theorem projections_of_members {l : Lowerer} {members : List (String × Term)}
    {shapes : List (String × Shape)}
    (h : List.Forall₂ (MemberLowers l I q scope ctx st) members shapes) :
    ∃ rs : List (String × Projection),
      LowerM.Gives
        (members.mapM fun (name, t) => return (name, ← l.projection t q)) ctx st rs st ∧
      membersFit rs shapes ∧ (∀ m ∈ rs, m.2.All (Scalar.IsPart st.store q)) ∧
      ∀ ρ, denoteMembers I ρ rs = evalMembersIn I (elementsOf I scope ρ) members := by
  induction h with
  | nil => exact ⟨[], LowerM.Gives.pure _, membersFit_nil.mpr rfl, by simp, fun _ => rfl⟩
  | @cons m shape members shapes hm _ ih =>
    obtain ⟨rs, hrs, hfit, hparts, hdenote⟩ := ih
    obtain ⟨name, t⟩ := m
    obtain ⟨_, τ⟩ := shape
    obtain ⟨rfl, hlowers⟩ := hm
    obtain ⟨r, hr, hbody⟩ := hlowers.projection
    refine ⟨(name, r) :: rs, ?_, ?_, ?_, fun ρ => ?_⟩
    · rw [List.mapM_cons]
      exact (hr.bind (LowerM.Gives.pure (name, r))).bind
        (hrs.bind (LowerM.Gives.pure ((name, r) :: rs)))
    · rw [membersFit_cons]
      exact ⟨τ, shapes, rfl, hbody.fits, hfit⟩
    · intro m hm
      rcases List.mem_cons.mp hm with rfl | hm
      · exact hbody.parts
      · exact hparts m hm
    · rw [denoteMembers, evalMembersIn, hbody.denote_eq, hdenote]

theorem lowers_record {members : List (String × Term)} {shapes : List (String × Shape)}
    (h : ∀ m, k ≤ m →
      List.Forall₂ (MemberLowers (lowererWithin rules m) I q scope ctx st) members shapes)
    (hn : k + 4 ≤ n) :
    (lowererWithin rules n).Lowers I q scope ctx st (.record members)
      (.record (Members.ofList shapes)) := by
  refine lowers_of_projection (fun _ => rfl) (fun _ => rfl) (fun m hm => ?_) hn
  obtain ⟨rs, hrs, hfit, hparts, hdenote⟩ := projections_of_members (h m hm)
  refine ⟨.record (Members.ofList rs), hrs.bind (LowerM.Gives.pure _), ?_, (fun h => by cases h),
    ?_, fun ρ => ?_⟩
  · exact ⟨_, rfl, membersFit_ofList hfit⟩
  · refine Projection.all_record.mpr fun m hm => ?_
    obtain ⟨source, hsource, heq⟩ := Members.exists_of_mem_ofList hm
    exact heq ▸ hparts source hsource
  · rw [Projection.denote, Term.evalIn, denoteMembers_ofList, hdenote]

theorem scalars_of_members {l : Lowerer} {members : List (String × Term)}
    {shapes : List (String × Shape)}
    (h : List.Forall₂ (MemberLowers l I q scope ctx st) members shapes)
    (hvalues : ∀ shape ∈ shapes, ∃ absent, shape.2 = .value absent) :
    ∃ es : List (String × Scalar),
      LowerM.Gives
        (members.mapM fun (name, t) => return (name, ← l.scalar t q)) ctx st es st ∧
      List.Forall₂ (fun m shape => m.1 = shape.1 ∧ m.2.Fits shape.2) es shapes ∧
      (∀ m ∈ es, m.2.IsPart st.store q) ∧
      ∀ ρ, es.map (fun m => (m.1, Element.value (m.2.eval I ρ))) =
        evalMembersIn I (elementsOf I scope ρ) members := by
  induction h with
  | nil => exact ⟨[], LowerM.Gives.pure _, .nil, by simp, fun _ => rfl⟩
  | @cons m shape members shapes hm _ ih =>
    obtain ⟨es, hes, hshapes, hparts, heval⟩ := ih fun other hother =>
      hvalues other (List.mem_cons_of_mem _ hother)
    obtain ⟨name, t⟩ := m
    obtain ⟨_, τ⟩ := shape
    obtain ⟨rfl, hlowers⟩ := hm
    obtain ⟨absent, hτ⟩ : ∃ absent, τ = .value absent := hvalues _ List.mem_cons_self
    obtain ⟨e, he, hbody⟩ := hlowers.scalar absent hτ
    refine ⟨(name, e) :: es, ?_, .cons ⟨rfl, hτ ▸ hbody.fits⟩ hshapes, ?_, fun ρ => ?_⟩
    · rw [List.mapM_cons]
      exact (he.bind (LowerM.Gives.pure (name, e))).bind
        (hes.bind (LowerM.Gives.pure ((name, e) :: es)))
    · intro m hm
      rcases List.mem_cons.mp hm with rfl | hm
      · exact hbody.part
      · exact hparts m hm
    · obtain ⟨r, _, hr⟩ := hlowers.projection
      obtain ⟨e', rfl, he'⟩ := (hτ ▸ hr).scalar
      have hvalue : t.evalIn I (elementsOf I scope ρ) = .value (e'.eval I ρ) :=
        (hr.denote_eq ρ).symm
      rw [List.map_cons, evalMembersIn, heval, hbody.eval_eq, hvalue, Element.asValue]

theorem lowers_entity {name : String} {members : List (String × Term)}
    {shapes : List (String × Shape)}
    (h : ∀ m, k ≤ m →
      List.Forall₂ (MemberLowers (lowererWithin rules m) I q scope ctx st) members shapes)
    (hvalues : ∀ shape ∈ shapes, ∃ absent, shape.2 = .value absent) (hn : k + 4 ≤ n) :
    (lowererWithin rules n).Lowers I q scope ctx st (.entity name members)
      (.record (Members.ofList shapes)) := by
  refine lowers_of_projection (fun _ => rfl) (fun _ => rfl) (fun m hm => ?_) hn
  obtain ⟨es, hes, hshapes, hparts, heval⟩ := scalars_of_members (h m hm) hvalues
  refine ⟨.entity name none (Members.ofList es), hes.bind (LowerM.Gives.pure _), ?_,
    (fun h => by cases h), ?_, fun ρ => ?_⟩
  · refine ⟨_, rfl, membersFit_scalars.mp ?_⟩
    rw [← Members.ofList_map fun e => Projection.scalar e]
    exact membersFit_ofList (membersFit_scalars.mpr hshapes)
  · refine Projection.all_entity.mpr fun m hm => ?_
    obtain ⟨source, hsource, heq⟩ := Members.exists_of_mem_ofList hm
    exact heq ▸ hparts source hsource
  · rw [Term.evalIn, ← heval, Members.ofList_map fun e : Scalar => Element.value (e.eval I ρ)]
    rfl

/-! ## Terms that are scalars -/

/-- A scalar that is no condition, no column and no text. -/
def Scalar.isPlain : Scalar → Bool
  | .condition _ | .column _ | .raw .. => false
  | _ => true

theorem Scalar.IsPart.of_plain {s : Store} {e : Scalar} (h : e.isPlain = true) : e.IsPart s q := by
  cases e with
  | condition | column | raw => cases h
  | _ => exact ⟨nofun, nofun, rfl⟩

theorem LowerM.Gives.typeOf (e : Scalar) :
    LowerM.Gives (do return (← LowerM.store).typeOf e) ctx st (st.store.typeOf e) st :=
  LowerM.Gives.store.bind (LowerM.Gives.pure _)

/-- What a body of single values lowers to. -/
theorem Lowerer.Lowers.value {l : Lowerer} (h : l.Lowers I q scope ctx st t (.value absent)) :
    ∃ e, (l.scalar t q).Gives ctx st e st ∧ BodyScalar I st.store q scope t absent e :=
  h.scalar absent rfl

/-- A scalar of a kind of its own stands for a body of its value. -/
theorem BodyScalar.of_plain {e : Scalar} (habsent : t.isAbsent = false)
    (hnull : e.isNullValue = false) (hplain : e.isPlain = true)
    (heval : ∀ ρ, e.eval I ρ = (t.evalIn I (elementsOf I scope ρ)).asValue I) :
    BodyScalar I st.store q scope t false e where
  fits h := by rw [hnull] at h; cases h
  absent h := by rw [habsent] at h; cases h
  part := .of_plain hplain
  eval_eq := heval

theorem lowers_constant {c : Constant} (hn : 4 ≤ n) :
    (lowererWithin rules n).Lowers I q scope ctx st (.constant c) (.value c.isNull) := by
  have hbody : BodyScalar I st.store q scope (.constant c) c.isNull (.constant c) := {
    fits := fun hnull => hnull
    absent := fun habsent => by cases c <;> first | rfl | cases habsent
    part := .of_plain rfl
    eval_eq := fun _ => rfl }
  have hscalars : ∀ m, ((lowererWithin rules (m + 1)).scalar (.constant c) q).Gives ctx st
      (.constant c) st := fun m => LowerM.Gives.pure _
  obtain ⟨n, rfl⟩ := Nat.exists_eq_add_of_le' hn
  constructor
  · exact ⟨.scalar (.constant c), (hscalars (n + 2)).bind (LowerM.Gives.pure _),
      hbody.projection fun ρ => ⟨I.constant c, rfl⟩⟩
  · rintro _ ⟨⟩
    exact ⟨.constant c, hscalars (n + 3), hbody⟩
  · refine fun _ _ => ⟨(Scalar.constant c).asCondition, ?_, hbody.asCondition⟩
    cases c with
    | boolean b => exact LowerM.Gives.pure _
    | _ => exact LowerM.Gives.byScalar (hscalars (n + 2))

theorem lowers_parameter {name : String} {c : Constant} (hn : 4 ≤ n) :
    (lowererWithin rules n).Lowers I q scope ctx st (.parameter name c) (.value false) := by
  refine lowers_of_scalar (k := 0) (fun _ => ⟨_, rfl⟩) (fun _ => rfl) (fun _ => rfl)
    (fun m _ => ?_) (by omega)
  exact ⟨.parameter (.natural name c), LowerM.Gives.pure _,
    .of_plain rfl rfl rfl fun _ => rfl⟩

theorem lowers_negate {operand : Term}
    (h : ∀ m, k ≤ m → (lowererWithin rules m).Lowers I q scope ctx st operand (.value a))
    (hn : k + 4 ≤ n) :
    (lowererWithin rules n).Lowers I q scope ctx st (.negate operand) (.value false) := by
  refine lowers_of_scalar (fun _ => ⟨_, rfl⟩) (fun _ => rfl) (fun _ => rfl) (fun m hm => ?_) hn
  obtain ⟨e, he, hbody⟩ := (h m hm).value
  refine ⟨_, he.bind ((LowerM.Gives.typeOf e).bind (LowerM.Gives.pure _)),
    .of_plain rfl rfl rfl fun ρ => ?_⟩
  rw [Scalar.eval, hbody.eval_eq]
  exact I.negate_eq _

theorem lowers_convert {operand : Term} {target : TypeKind}
    (h : ∀ m, k ≤ m → (lowererWithin rules m).Lowers I q scope ctx st operand (.value a))
    (hn : k + 4 ≤ n) :
    (lowererWithin rules n).Lowers I q scope ctx st (.convert operand target) (.value false) := by
  refine lowers_of_scalar (fun _ => ⟨_, rfl⟩) (fun _ => rfl) (fun _ => rfl) (fun m hm => ?_) hn
  obtain ⟨e, he, hbody⟩ := (h m hm).value
  refine ⟨_, he.bind ((LowerM.Gives.typeOf e).bind (LowerM.Gives.pure _)),
    .of_plain rfl rfl rfl fun ρ => ?_⟩
  rw [Scalar.cast, Scalar.eval, hbody.eval_eq]
  rfl

theorem lowers_conditional {test yes no : Term}
    (htest : ∀ m, k ≤ m → (lowererWithin rules m).Lowers I q scope ctx st test (.value a))
    (hyes : ∀ m, k ≤ m → (lowererWithin rules m).Lowers I q scope ctx st yes (.value b))
    (hno : ∀ m, k ≤ m → (lowererWithin rules m).Lowers I q scope ctx st no (.value d))
    (hn : k + 4 ≤ n) :
    (lowererWithin rules n).Lowers I q scope ctx st (.conditional test yes no) (.value false) := by
  refine lowers_of_scalar (fun _ => ⟨_, rfl⟩) (fun _ => rfl) (fun _ => rfl) (fun m hm => ?_) hn
  obtain ⟨c, hc, hcbody⟩ := (htest m hm).condition a rfl
  obtain ⟨e, he, hbody⟩ := (hyes m hm).value
  obtain ⟨e', he', hbody'⟩ := (hno m hm).value
  refine ⟨_, hc.bind (he.bind (he'.bind ((LowerM.Gives.typeOf e).bind (LowerM.Gives.pure _)))),
    .of_plain rfl rfl rfl fun ρ => ?_⟩
  change (if I.toTruth (I.ofTruth (c.truth I ρ)) == some true then e.eval I ρ
    else e'.eval I ρ) = _
  rw [I.toTruth_ofTruth, hcbody.truth_eq, hbody.eval_eq, hbody'.eval_eq]
  rfl

/-- What an operator that gives a value is lowered to. -/
def Scalar.ofArithmetic (op : TermOperator) (e e' : Scalar) (type : SqlType) : Scalar :=
  match op.arithmetic? with
  | some op => .binary e op e' type
  | none => .call "Coalesce" [e, e'] type

/-- A comparison tests for absence where a side is the absent constant. -/
theorem Comparison.truth_predicate (op : Comparison) (e e' : Scalar) (ρ : Env V) :
    (op.predicate e e').truth I ρ =
      I.comparison op e.isNullValue e'.isNullValue (e.eval I ρ) (e'.eval I ρ) := by
  unfold Comparison.predicate Interpretation.comparison
  split
  · cases e'.isNullValue <;> rfl
  · rfl

/-- Which sides are the absent constant matters to equality only. -/
theorem Interpretation.comparison_congr {op : Comparison} {l l' r r' : Bool}
    (h : (op == .equal || op == .notEqual) = true → l = l' ∧ r = r') (v w : V) :
    I.comparison op l r v w = I.comparison op l' r' v w := by
  unfold Interpretation.comparison
  cases hop : op == .equal || op == .notEqual with
  | false => rfl
  | true => rw [(h hop).1, (h hop).2]

/-! ## Terms that are conditions -/

theorem lowers_not {operand : Term}
    (h : ∀ m, k ≤ m → (lowererWithin rules m).Lowers I q scope ctx st operand (.value a))
    (hn : k + 4 ≤ n) :
    (lowererWithin rules n).Lowers I q scope ctx st (.not operand) (.value false) := by
  refine lowers_of_condition rfl (fun _ => ⟨_, rfl⟩) (fun _ => rfl) (fun _ => rfl)
    (fun m hm => ?_) hn
  obtain ⟨c, hc, hbody⟩ := (h m hm).condition a rfl
  refine ⟨c.negation, hc.bind (LowerM.Gives.pure _), Condition.isSolid_negation hbody.solid,
    fun ρ => ?_⟩
  rw [Condition.truth_negation, hbody.truth_eq, Term.evalIn, Element.asValue, I.toTruth_ofTruth]

/-! ## Operators on two operands -/

section

variable {op : TermOperator} {left right : Term}
  (hleft : ∀ m, k ≤ m → (lowererWithin rules m).Lowers I q scope ctx st left (.value a))
  (hright : ∀ m, k ≤ m → (lowererWithin rules m).Lowers I q scope ctx st right (.value b))
  (hn : k + 4 ≤ n)
include hleft hright hn

/-- An operator that gives a value, not a truth value. -/
theorem lowers_arithmetic (hop : (op.comparison?.isSome || op.isLogical) = false) :
    (lowererWithin rules n).Lowers I q scope ctx st (.binary op left right) (.value false) := by
  refine lowers_of_scalar (fun _ => ⟨_, rfl⟩) (fun _ => rfl) (fun _ => ?_) (fun m hm => ?_) hn
  · cases op <;> first | rfl | cases hop
  obtain ⟨e, he, hbody⟩ := (hleft m hm).value
  obtain ⟨e', he', hbody'⟩ := (hright m hm).value
  have hgives : ∃ type, ((lowererWithin rules m).scalarOf (.binary op left right) q).Gives ctx st
      (.ofArithmetic op e e' type) st := by
    unfold Scalar.ofArithmetic
    rw [Lowerer.scalarOf, hop]
    by_cases htype : st.store.typeOf e = .undefined
    · refine ⟨st.store.typeOf e', he.bind (he'.bind ((LowerM.Gives.typeOf e).bind ?_))⟩
      rw [htype]
      refine (LowerM.Gives.typeOf e').bind ?_
      cases op.arithmetic? <;> exact LowerM.Gives.pure _
    · refine ⟨st.store.typeOf e, he.bind (he'.bind ((LowerM.Gives.typeOf e).bind ?_))⟩
      rw [beq_eq_false_iff_ne.mpr htype]
      refine (LowerM.Gives.pure (st.store.typeOf e)).bind ?_
      cases op.arithmetic? <;> exact LowerM.Gives.pure _
  obtain ⟨type, hgives⟩ := hgives
  refine ⟨_, hgives, ?_⟩
  unfold Scalar.ofArithmetic
  refine .of_plain rfl ?_ ?_ fun ρ => ?_
  · cases op.arithmetic? <;> rfl
  · cases op.arithmetic? <;> rfl
  · rw [Term.evalIn, Element.asValue, ← hbody.eval_eq, ← hbody'.eval_eq]
    cases op <;> first | rfl | cases hop

theorem lowers_and :
    (lowererWithin rules n).Lowers I q scope ctx st (.binary .and left right) (.value false) := by
  refine lowers_of_condition rfl (fun _ => ⟨_, rfl⟩) (fun _ => rfl) (fun _ => rfl)
    (fun m hm => ?_) hn
  obtain ⟨c, hc, hbody⟩ := (hleft m hm).condition a rfl
  obtain ⟨d, hd, hbody'⟩ := (hright m hm).condition b rfl
  refine ⟨c.conjoinAll d, hc.bind (hd.bind (LowerM.Gives.pure _)),
    Condition.isSolid_conjoinAll hbody.solid hbody'.solid, fun ρ => ?_⟩
  rw [Condition.truth_conjoinAll, hbody.truth_eq, hbody'.truth_eq, Term.evalIn, Element.asValue,
    Interpretation.infixValue, I.toTruth_ofTruth]

theorem lowers_or :
    (lowererWithin rules n).Lowers I q scope ctx st (.binary .or left right) (.value false) := by
  refine lowers_of_condition rfl (fun _ => ⟨_, rfl⟩) (fun _ => rfl) (fun _ => rfl)
    (fun m hm => ?_) hn
  obtain ⟨c, hc, hbody⟩ := (hleft m hm).condition a rfl
  obtain ⟨d, hd, hbody'⟩ := (hright m hm).condition b rfl
  refine ⟨c.disjunction d, hc.bind (hd.bind (LowerM.Gives.pure _)),
    Condition.isSolid_disjunction hbody.solid hbody'.solid, fun ρ => ?_⟩
  rw [Condition.truth_disjunction hbody.solid, hbody.truth_eq, hbody'.truth_eq, Term.evalIn,
    Element.asValue, Interpretation.infixValue, I.toTruth_ofTruth]

theorem lowers_comparison {comparison : Comparison}
    (hop : op.comparison? = some comparison)
    (ha : op.isEquality = true → a = true → left.isAbsent = true)
    (hb : op.isEquality = true → b = true → right.isAbsent = true) :
    (lowererWithin rules n).Lowers I q scope ctx st (.binary op left right) (.value false) := by
  have heval : ∀ rows, (Term.binary op left right).evalIn I rows = .value (I.ofTruth
      (I.comparison comparison left.isAbsent right.isAbsent
        ((left.evalIn I rows).asValue I) ((right.evalIn I rows).asValue I))) := by
    intro rows
    cases op <;> cases hop <;> rfl
  refine lowers_of_condition rfl (fun row => ⟨_, heval row⟩) (fun _ => rfl) (fun l => ?_)
    (fun m hm => ?_) hn
  · cases op <;> first | rfl | cases hop
  obtain ⟨e, he, hbody⟩ := (hleft m hm).value
  obtain ⟨e', he', hbody'⟩ := (hright m hm).value
  have hequality : (comparison == .equal || comparison == .notEqual) = op.isEquality := by
    cases op <;> cases hop <;> rfl
  refine ⟨.ofPredicate (comparison.predicate e e'), ?_, ?_, fun ρ => ?_⟩
  · have hcondition : (lowererWithin rules m).conditionOf (.binary op left right) q = (do
        let left ← (lowererWithin rules m).scalar left q
        let right ← (lowererWithin rules m).scalar right q
        return .ofPredicate (comparison.predicate left right)) := by
      cases op <;> cases hop <;> rfl
    rw [hcondition]
    exact he.bind (he'.bind (LowerM.Gives.pure _))
  · rw [Condition.isSolid_ofPredicate]
    unfold Comparison.predicate
    split <;> rfl
  · rw [Condition.truth_ofPredicate, Comparison.truth_predicate, hbody.eval_eq, hbody'.eval_eq,
      heval, Element.asValue, I.toTruth_ofTruth]
    refine I.comparison_congr (fun hop => ?_) _ _
    rw [hequality] at hop
    exact ⟨Bool.eq_iff_iff.mpr ⟨fun hnull => ha hop (hbody.fits hnull), hbody.absent⟩,
      Bool.eq_iff_iff.mpr ⟨fun hnull => hb hop (hbody'.fits hnull), hbody'.absent⟩⟩

theorem lowers_binary (ha : op.isEquality = true → a = true → left.isAbsent = true)
    (hb : op.isEquality = true → b = true → right.isAbsent = true) :
    (lowererWithin rules n).Lowers I q scope ctx st (.binary op left right) (.value false) := by
  cases hop : op.comparison? with
  | some comparison => exact lowers_comparison hleft hright hn hop ha hb
  | none =>
    cases op with
    | and => exact lowers_and hleft hright hn
    | or => exact lowers_or hleft hright hn
    | _ => first | exact lowers_arithmetic hleft hright hn rfl | cases hop

end

/-! ## Every body with a shape -/

theorem Term.size_pos (t : Term) : 0 < t.size := by
  cases t <;> simp [Term.size]

/-- An operator on single values has a shape if its operands are single values. -/
theorem Shape.ofValues_eq_some {shapes : List (Option Shape)}
    (h : Shape.ofValues shapes = some τ) :
    τ = .value false ∧ ∀ υ ∈ shapes, ∃ absent, υ = some (.value absent) := by
  unfold Shape.ofValues at h
  split at h
  · next hall =>
    cases h
    refine ⟨rfl, fun υ hυ => ?_⟩
    have hvalue := List.all_eq_true.mp hall υ hυ
    split at hvalue
    · next absent => exact ⟨absent, rfl⟩
    · cases hvalue
  · cases h

/-- An operand that hides no absence is the absent constant if its shape says it may be. -/
theorem Shape.isAbsent_of_hidesAbsence {isAbsent absent : Bool}
    (h : Shape.hidesAbsence isAbsent (some (.value absent)) = false) (habsent : absent = true) :
    isAbsent = true := by
  subst habsent
  simpa [Shape.hidesAbsence] using h

mutual

/-- Every body with a shape can be lowered. -/
theorem Term.lowers (hscope : ctx.Binds st.store q Γ scope) (t : Term) {τ : Shape}
    (hshape : t.shapeIn? Γ = some τ) {n : Nat} (hn : 4 * t.size ≤ n) :
    (lowererWithin rules n).Lowers I q scope ctx st t τ := by
  cases t with
  | constant c =>
    cases hshape
    exact lowers_constant (by simpa [Term.size] using hn)
  | parameter name c =>
    cases hshape
    exact lowers_parameter (by simpa [Term.size] using hn)
  | bound name =>
    rw [Term.shapeIn?] at hshape
    split at hshape
    · next σ hvariable =>
      cases hshape
      exact lowers_bound hscope hvariable (by simpa [Term.size] using hn)
    · cases hshape
  | member owner name =>
    rw [Term.shapeIn?] at hshape
    rw [Term.size] at hn
    have hsize := owner.size_pos
    split at hshape
    · next key hkey =>
      cases hshape
      exact lowers_groupMember hscope hkey (by omega)
    · next members _ howner =>
      exact lowers_member (k := 4 * owner.size)
        (fun m hm => Term.lowers hscope owner howner hm) hshape (by omega)
    · cases hshape
  | binary op left right =>
    rw [Term.shapeIn?] at hshape
    split at hshape
    · cases hshape
    · next hhides =>
      obtain ⟨rfl, hvalues⟩ := Shape.ofValues_eq_some hshape
      obtain ⟨a, hleft⟩ := hvalues (left.shapeIn? Γ) (by simp)
      obtain ⟨b, hright⟩ := hvalues (right.shapeIn? Γ) (by simp)
      have hplain : op.isEquality = true →
          Shape.hidesAbsence left.isAbsent (some (.value a)) = false ∧
            Shape.hidesAbsence right.isAbsent (some (.value b)) = false := by
        intro hop
        rw [hop, hleft, hright, Bool.true_and, Bool.not_eq_true, Bool.or_eq_false_iff] at hhides
        exact hhides
      exact lowers_binary (k := 4 * (left.size + right.size))
        (fun m hm => Term.lowers hscope left hleft (by omega))
        (fun m hm => Term.lowers hscope right hright (by omega)) (by rw [Term.size] at hn; omega)
        (fun hop => Shape.isAbsent_of_hidesAbsence (hplain hop).1)
        (fun hop => Shape.isAbsent_of_hidesAbsence (hplain hop).2)
  | not operand =>
    obtain ⟨rfl, hvalues⟩ := Shape.ofValues_eq_some hshape
    obtain ⟨a, hoperand⟩ := hvalues (operand.shapeIn? Γ) (by simp)
    exact lowers_not (k := 4 * operand.size)
      (fun m hm => Term.lowers hscope operand hoperand hm) (by rw [Term.size] at hn; omega)
  | negate operand =>
    obtain ⟨rfl, hvalues⟩ := Shape.ofValues_eq_some hshape
    obtain ⟨a, hoperand⟩ := hvalues (operand.shapeIn? Γ) (by simp)
    exact lowers_negate (k := 4 * operand.size)
      (fun m hm => Term.lowers hscope operand hoperand hm) (by rw [Term.size] at hn; omega)
  | convert operand target =>
    obtain ⟨rfl, hvalues⟩ := Shape.ofValues_eq_some hshape
    obtain ⟨a, hoperand⟩ := hvalues (operand.shapeIn? Γ) (by simp)
    exact lowers_convert (k := 4 * operand.size)
      (fun m hm => Term.lowers hscope operand hoperand hm) (by rw [Term.size] at hn; omega)
  | conditional test yes no =>
    obtain ⟨rfl, hvalues⟩ := Shape.ofValues_eq_some hshape
    obtain ⟨a, htest⟩ := hvalues (test.shapeIn? Γ) (by simp)
    obtain ⟨b, hyes⟩ := hvalues (yes.shapeIn? Γ) (by simp)
    obtain ⟨d, hno⟩ := hvalues (no.shapeIn? Γ) (by simp)
    exact lowers_conditional (k := 4 * (test.size + yes.size + no.size))
      (fun m hm => Term.lowers hscope test htest (by omega))
      (fun m hm => Term.lowers hscope yes hyes (by omega))
      (fun m hm => Term.lowers hscope no hno (by omega)) (by rw [Term.size] at hn; omega)
  | record members =>
    obtain ⟨shapes, hmembers, rfl⟩ := Option.map_eq_some_iff.mp hshape
    exact lowers_record (k := 4 * Term.sizeOfMembers members)
      (fun m hm => membersLower hscope members hmembers hm) (by rw [Term.size] at hn; omega)
  | entity name members =>
    rw [Term.shapeIn?] at hshape
    split at hshape
    · next shapes hmembers =>
      split at hshape
      · next hall =>
        cases hshape
        refine lowers_entity (k := 4 * Term.sizeOfMembers members)
          (fun m hm => membersLower hscope members hmembers hm) (fun shape hmem => ?_)
          (by rw [Term.size] at hn; omega)
        have hvalue := List.all_eq_true.mp hall shape hmem
        split at hvalue
        · next absent heq => exact ⟨absent, heq⟩
        · cases hvalue
      · cases hshape
    · cases hshape
  | quote body =>
    exact lowers_quote (k := 4 * body.size)
      (fun m hm => Term.lowers hscope body hshape hm) (by rw [Term.size] at hn; omega)
  | _ => cases hshape
termination_by structural t

/-- Every member of a record with a shape can be lowered. -/
theorem membersLower (hscope : ctx.Binds st.store q Γ scope) (members : List (String × Term))
    {shapes : List (String × Shape)} (hshapes : membersShapeIn? Γ members = some shapes)
    {n : Nat} (hn : 4 * Term.sizeOfMembers members ≤ n) :
    List.Forall₂ (MemberLowers (lowererWithin rules n) I q scope ctx st) members shapes := by
  cases members with
  | nil =>
    cases hshapes
    exact .nil
  | cons m rest =>
    obtain ⟨name, t⟩ := m
    rw [membersShapeIn?] at hshapes
    rw [Term.sizeOfMembers] at hn
    split at hshapes
    · next τ others hshape hrest =>
      cases hshapes
      exact .cons ⟨rfl, Term.lowers hscope t hshape (by omega)⟩
        (membersLower hscope rest hrest (by omega))
    · cases hshapes
termination_by structural members

end

/-! ## Functions -/

/-- One more variable in scope. -/
theorem LowerContext.Binds.cons {s : Store} (h : ctx.Binds s q Γ scope) (name : String)
    {p : Projection} {v : VariableShape} (hshows : p.Shows v) (hparts : p.All (Scalar.IsPart s q)) :
    LowerContext.Binds { ctx with scope := (name, p) :: ctx.scope } s q ((name, v) :: Γ)
      ((name, p) :: scope) := by
  intro other w hlookup
  simp only [List.lookup_cons] at hlookup ⊢
  cases hname : other == name with
  | true =>
    rw [hname] at hlookup
    cases hlookup
    exact ⟨p, rfl, rfl, hshows, hparts⟩
  | false =>
    rw [hname] at hlookup
    exact h other w hlookup

/-- Projections that stand for arguments of some shapes. -/
def FitArguments (s : Store) (q : QueryRef) (args : List Projection) (σs : List Shape) : Prop :=
  List.Forall₂ (fun p σ => p.Fits σ ∧ p.All (Scalar.IsPart s q)) args σs

/-- The arguments of a function are in scope in its body. -/
theorem LowerContext.Binds.arguments {s : Store} {args : List Projection} {σs : List Shape}
    (hargs : FitArguments s q args σs) :
    ∀ (params : List String) {ctx : LowerContext} {Γ : List (String × VariableShape)}
      {scope : List (String × Projection)}, ctx.Binds s q Γ scope →
        LowerContext.Binds { ctx with scope := (params.zip args).reverse ++ ctx.scope } s q
          ((params.zip (σs.map VariableShape.element)).reverse ++ Γ)
          ((params.zip args).reverse ++ scope) := by
  induction hargs with
  | nil =>
    intro params ctx Γ scope h
    simpa using h
  | cons harg _ ih =>
    intro params ctx Γ scope h
    cases params with
    | nil => exact h
    | cons param params =>
      simpa using ih params (h.cons param (Projection.shows_element.mpr harg.1) harg.2)

theorem Term.size_functionOf {f body : Term} {arity : Nat} {params : List String}
    (h : f.functionOf arity = .ok (params, body)) : body.size < f.size := by
  fun_induction Term.functionOf arity f with
  | case1 params' body' hlength =>
    cases h
    rw [Term.size]
    exact Nat.lt_succ_self _
  | case2 => cases h
  | case3 inner ih =>
    rw [Term.size]
    exact Nat.lt_succ_of_lt (ih h)
  | case4 => cases h

variable {args : List Projection} {σs : List Shape} {f : Term}

/-- The body of a function with a shape can be lowered where its arguments are in scope. -/
theorem Term.bodyLowers (rules : List Rule) (hscope : ctx.Binds st.store q Γ scope)
    (hargs : FitArguments st.store q args σs) (hf : f.functionShapeIn? Γ σs = some τ)
    (hn : 4 * f.size ≤ n) :
    ∃ params body, f.functionOf args.length = .ok (params, body) ∧
      (lowererWithin rules n).Lowers I q ((params.zip args).reverse ++ scope)
        { ctx with scope := (params.zip args).reverse ++ ctx.scope } st body τ ∧
      ∀ ρ, f.applyIn I (elementsOf I scope ρ) (args.map fun p => p.denote I ρ) =
        body.evalIn I (elementsOf I ((params.zip args).reverse ++ scope) ρ) := by
  have hlength : args.length = σs.length := List.Forall₂.length_eq hargs
  unfold Term.functionShapeIn? at hf
  split at hf
  · next params body hfunction =>
    rw [← hlength] at hfunction
    have hsize := Term.size_functionOf hfunction
    refine ⟨params, body, hfunction, ?_, fun ρ => ?_⟩
    · exact Term.lowers (hscope.arguments hargs params) body hf (by omega)
    · rw [Term.applyIn, List.length_map, hfunction, elementsOf_append, elementsOf_arguments]
  · cases hf

/-- A function with a shape is lowered to a projection that stands for what it makes of its
arguments. -/
theorem LowerM.Gives.applyProjection (rules : List Rule) (hscope : ctx.Binds st.store q Γ scope)
    (hargs : FitArguments st.store q args σs) (hf : f.functionShapeIn? Γ σs = some τ)
    (hn : 4 * f.size ≤ n) :
    ∃ r, ((lowererWithin rules n).applyProjection f args q).Gives ctx st r st ∧ r.Fits τ ∧
      r.All (Scalar.IsPart st.store q) ∧ ∀ ρ : Env V, r.denote I ρ =
        f.applyIn I (elementsOf I scope ρ) (args.map fun p => p.denote I ρ) := by
  obtain ⟨params, body, hfunction, hlowers, happly⟩ :=
    Term.bodyLowers (I := I) rules hscope hargs hf hn
  obtain ⟨r, hr, hbody⟩ := hlowers.projection
  exact ⟨r, (LowerM.Gives.ofExcept hfunction).bind (LowerM.Gives.withVariables hr), hbody.fits,
    hbody.parts, fun ρ => (hbody.denote_eq ρ).trans (happly ρ).symm⟩

/-- A function of a single value is lowered to a condition that holds where it gives a true
value. -/
theorem LowerM.Gives.applyCondition (rules : List Rule) (hscope : ctx.Binds st.store q Γ scope)
    (hargs : FitArguments st.store q args σs)
    (hf : f.functionShapeIn? Γ σs = some (.value absent)) (hn : 4 * f.size ≤ n) :
    ∃ c, ((lowererWithin rules n).applyCondition f args q).Gives ctx st c st ∧
      c.isSolid = true ∧ ∀ ρ : Env V, c.truth I ρ = I.toTruth
        ((f.applyIn I (elementsOf I scope ρ) (args.map fun p => p.denote I ρ)).asValue I) := by
  obtain ⟨params, body, hfunction, hlowers, happly⟩ :=
    Term.bodyLowers (I := I) rules hscope hargs hf hn
  obtain ⟨c, hc, hbody⟩ := hlowers.condition absent rfl
  exact ⟨c, (LowerM.Gives.ofExcept hfunction).bind (LowerM.Gives.withVariables hc), hbody.solid,
    fun ρ => (hbody.truth_eq ρ).trans (by rw [happly])⟩

/-- A function of a single value is lowered to a scalar with that value. -/
theorem LowerM.Gives.applyScalar (rules : List Rule) (hscope : ctx.Binds st.store q Γ scope)
    (hargs : FitArguments st.store q args σs)
    (hf : f.functionShapeIn? Γ σs = some (.value absent)) (hn : 4 * f.size ≤ n) :
    ∃ e, ((lowererWithin rules n).applyScalar f args q).Gives ctx st e st ∧
      e.IsPart st.store q ∧ ∀ ρ : Env V, e.eval I ρ =
        (f.applyIn I (elementsOf I scope ρ) (args.map fun p => p.denote I ρ)).asValue I := by
  obtain ⟨params, body, hfunction, hlowers, happly⟩ :=
    Term.bodyLowers (I := I) rules hscope hargs hf hn
  obtain ⟨e, he, hbody⟩ := hlowers.scalar absent rfl
  exact ⟨e, (LowerM.Gives.ofExcept hfunction).bind (LowerM.Gives.withVariables he), hbody.part,
    fun ρ => (hbody.eval_eq ρ).trans (by rw [happly])⟩

end

end SqlCompiler
