import SqlCompiler.Proofs.Columns.Following
import SqlCompiler.Proofs.Modifications.Combinations

/-!
# What cannot be absent

Whether an expression may be absent is decided by its parts: by the declarations of its fields, and
for a column of a nested query by the expression that the first block of the query selects.  What
stands between the field and the expression is not asked for.  This module says when the answer may
be trusted: on rows where the sources that are read have a row themselves, where operators and
functions make nothing absent of what is present, and where all blocks of a set operator are alike.
The field of a source that has no row in an outer join is absent, whatever its declaration says.

Main results:

- Definitions `Visible`, `Query.certain`: what has a row in every combination of the sources.
- Theorem `Scene.shows_certain`: it does.
- Definition `Scalar.mayBe`: the values that an expression may have on a row or a group of rows.
- Definition `Store.Settles`: expressions that read only what has a row.
- Theorem `Scene.canBeNull_sound`: for these the answer is right, and for a source without a row it
  is not.
-/

namespace SqlCompiler

/-! ## What has a row -/

/-- Something in view that has a row there, with what has a row where its own rows are computed. -/
inductive Visible where
  | mk (item : SourceItem) (around : List Visible)

/-- What has the row. -/
def Visible.item : Visible → SourceItem
  | mk item _ => item

/-- What is in view behind some sources. -/
def outside (items : List SourceItem) (visible : List Visible) : List Visible :=
  visible.filter fun v => v.item ∉ items

theorem mem_outside {items : List SourceItem} {visible : List Visible} {v : Visible} :
    v ∈ outside items visible ↔ v ∈ visible ∧ v.item ∉ items := by
  simp [outside]

mutual

/-- What has a row in every combination of a source and the sources joined to it, where some things
are in view around them. -/
def Source.certain : Source → List Visible → List Visible
  | ⟨item, _, joins⟩, around => certainJoins joins around [item] [⟨item, around⟩]
termination_by structural source => source

/-- What has a row after a join: a side that may be left without a match is not counted on. -/
def Join.certain : Join → List Visible → List SourceItem → List Visible → List Visible
  | ⟨kind, source, _⟩, around, items, left =>
    (if kind.keepsRight then [] else left) ++
      outside items (if kind.keepsLeft then []
        else source.certain (if kind.isApply then left ++ outside items around else around))
termination_by structural join => join

/-- What has a row after some joins. -/
def certainJoins : List Join → List Visible → List SourceItem → List Visible → List Visible
  | [], _, _, left => left
  | join :: rest, around, items, left =>
    certainJoins rest around (items ++ (Source.ofJoin join).map (·.item))
      (join.certain around items left)
termination_by structural joins => joins

end

/-- What has a row in every combination of some sources. -/
def certainSources : List Source → List Visible → List Visible
  | [], _ => []
  | source :: rest, around =>
    source.certain around ++ outside (source.all.map (·.item)) (certainSources rest around)

/-- What has a row in every combination of the sources of a query, or around it. -/
def Query.certain (q : Query) (around : List Visible) : List Visible :=
  certainSources q.sources around ++ outside (q.allSources.map (·.item)) around

section

variable {V : Type} (R : Valuation V) (S : Scene V)

/-- What is in view shows a row of something. -/
inductive Scene.Shows : Env V → Visible → Prop where
  | mk {ρ : Env V} {item : SourceItem} {around : List Visible} (σ ρ₀ : Env V)
      (haround : ∀ v ∈ around, Shows σ v) (hrow : ρ₀ ∈ S.itemRows R σ item)
      (hfield : ∀ f, .table (S.store.field f).table = item → ρ.field f = ρ₀.field f)
      (hcolumn : ∀ c, .query (S.store.column c).parent = item → ρ.column c = ρ₀.column c) :
      Shows ρ ⟨item, around⟩

/-- A combination has rows of some things. -/
def Scene.HasRows (row : JoinedRow V) (visible : List Visible) : Prop :=
  ∀ v ∈ visible, ∃ ρ, row.lookup v.item = some (some ρ) ∧ S.Shows R ρ v

end

section

variable {V : Type} {R : Valuation V} {S : Scene V} {outer : Env V} {row more : JoinedRow V}
  {visible around : List Visible}

/-- What has a row in a combination is in view. -/
theorem Scene.shows_view (h : S.HasRows R row visible) {v : Visible} (hv : v ∈ visible) :
    S.Shows R (S.view R outer row) v := by
  obtain ⟨ρ, hlookup, hshows⟩ := h v hv
  cases hshows with
  | mk σ ρ₀ haround hrow hfield hcolumn =>
    refine .mk σ ρ₀ haround hrow (fun f hf => ?_) fun c hc => ?_
    · rw [← hfield f hf]
      subst hf
      exact JoinedRow.read_of_lookup hlookup _ _
    · rw [← hcolumn c hc]
      subst hc
      exact JoinedRow.read_of_lookup hlookup _ _

/-- What is no part of a combination is in view as it is around it. -/
theorem Scene.shows_outside {items : List SourceItem} (hitems : row.map (·.1) = items)
    (h : ∀ v ∈ around, S.Shows R outer v) {v : Visible} (hv : v ∈ outside items around) :
    S.Shows R (S.view R outer row) v := by
  obtain ⟨hmem, hnot⟩ := mem_outside.mp hv
  cases h v hmem with
  | mk σ ρ₀ haround hrow hfield hcolumn =>
    refine .mk σ ρ₀ haround hrow (fun f hf => ?_) fun c hc => ?_
    · rw [← hfield f hf]
      subst hf
      exact JoinedRow.read_of_notMem (hitems ▸ hnot) _ _
    · rw [← hcolumn c hc]
      subst hc
      exact JoinedRow.read_of_notMem (hitems ▸ hnot) _ _

theorem Scene.HasRows.append_left (h : S.HasRows R row visible) :
    S.HasRows R (row ++ more) visible := by
  intro v hv
  obtain ⟨ρ, hlookup, hshows⟩ := h v hv
  refine ⟨ρ, ?_, hshows⟩
  rw [List.lookup_append, hlookup]
  rfl

theorem Scene.HasRows.append_right {items : List SourceItem} (hitems : row.map (·.1) = items)
    (h : S.HasRows R more visible) : S.HasRows R (row ++ more) (outside items visible) := by
  intro v hv
  obtain ⟨hmem, hnot⟩ := mem_outside.mp hv
  obtain ⟨ρ, hlookup, hshows⟩ := h v hmem
  exact ⟨ρ, by rw [lookup_append_right (hitems ▸ hnot), hlookup], hshows⟩

theorem Scene.HasRows.append {visible' : List Visible} (h : S.HasRows R row visible)
    (h' : S.HasRows R row visible') : S.HasRows R row (visible ++ visible') :=
  fun v hv => (List.mem_append.mp hv).elim (h v) (h' v)

theorem Scene.hasRows_nil : S.HasRows R row [] := fun _ hv => nomatch hv

/-- A join leaves a side without a match only if it keeps the other one. -/
theorem isSome_of_mem_joinRows {α β : Type} {kind : JoinKind} {test : α → β → Bool}
    {left : List α} {right : List β} {pair : Option α × Option β}
    (h : pair ∈ joinRows kind test left right) :
    (kind.keepsRight = false → pair.1.isSome = true) ∧
      (kind.keepsLeft = false → pair.2.isSome = true) := by
  rw [joinRows, List.mem_append, List.mem_flatMap] at h
  rcases h with ⟨a, -, h⟩ | h
  · unfold matchedRows at h
    dsimp only at h
    split at h
    · next hkeeps =>
      cases List.mem_singleton.mp h
      rw [Bool.and_eq_true] at hkeeps
      exact ⟨fun _ => rfl, fun hkeep => absurd (hkeeps.2.symm.trans hkeep) (by decide)⟩
    · obtain ⟨b, -, rfl⟩ := List.mem_map.mp h
      exact ⟨fun _ => rfl, fun _ => rfl⟩
  · unfold unmatchedRows at h
    split at h
    · next hkeeps =>
      obtain ⟨b, -, rfl⟩ := List.mem_map.mp h
      exact ⟨fun hkeep => absurd (hkeeps.symm.trans hkeep) (by decide), fun _ => rfl⟩
    · cases h

mutual

theorem Source.hasRows_certain (source : Source) (outer : Env V) (around : List Visible)
    (haround : ∀ v ∈ around, S.Shows R outer v) (row : JoinedRow V)
    (h : row ∈ source.combined R S outer) : S.HasRows R row (source.certain around) := by
  match source with
  | ⟨item, aliasName, joins⟩ =>
    refine hasRows_certainJoins joins outer around haround [item] [⟨item, around⟩] _
      (fun row hrow => ?_) row h
    obtain ⟨ρ, hρ, rfl⟩ := List.mem_map.mp hrow
    refine ⟨⟨rfl, ?_⟩, fun v hv => ?_⟩
    · rintro entry hentry _ hsome
      cases List.mem_singleton.mp hentry
      exact ⟨outer, Option.some.inj hsome ▸ hρ⟩
    · cases List.mem_singleton.mp hv
      exact ⟨ρ, List.lookup_cons_self, .mk outer ρ haround hρ (fun _ _ => rfl) fun _ _ => rfl⟩
termination_by structural source

theorem Join.hasRows_certain (join : Join) (outer : Env V) (around : List Visible)
    (haround : ∀ v ∈ around, S.Shows R outer v) (items : List SourceItem) (left : List Visible)
    (rows : List (JoinedRow V))
    (hrows : ∀ row ∈ rows, S.Combines R items row ∧ S.HasRows R row left) (row : JoinedRow V)
    (h : row ∈ join.combined R S outer items rows) :
    S.HasRows R row (join.certain around items left) := by
  match join with
  | ⟨kind, source, condition⟩ =>
    rw [Join.combined] at h
    rw [Join.certain]
    dsimp only at h
    split at h
    · next happly =>
      obtain ⟨row₁, hrow₁, h⟩ := List.mem_flatMap.mp h
      obtain ⟨hcombines, hleft⟩ := hrows row₁ hrow₁
      have hkeepsRight : kind.keepsRight = false := by cases kind <;> first | rfl | cases happly
      rw [hkeepsRight, if_neg Bool.false_ne_true, happly, if_pos rfl]
      split at h
      · next hkeeps =>
        cases List.mem_singleton.mp h
        rw [Bool.and_eq_true] at hkeeps
        rw [hkeeps.2, if_pos rfl]
        exact hleft.append_left.append (Scene.HasRows.append_right hcombines.items
          Scene.hasRows_nil)
      · obtain ⟨row₂, hrow₂, rfl⟩ := List.mem_map.mp h
        refine hleft.append_left.append (Scene.HasRows.append_right hcombines.items ?_)
        split
        · exact Scene.hasRows_nil
        · refine Source.hasRows_certain source (S.view R outer row₁) _ (fun v hv => ?_) row₂ hrow₂
          rcases List.mem_append.mp hv with hv | hv
          · exact Scene.shows_view hleft hv
          · exact Scene.shows_outside hcombines.items haround hv
    · next happly =>
      obtain ⟨⟨row₁, row₂⟩, hpair, rfl⟩ := List.mem_map.mp h
      obtain ⟨hmem₁, hmem₂⟩ := mem_of_mem_joinRows hpair
      obtain ⟨hsome₁, hsome₂⟩ := isSome_of_mem_joinRows hpair
      rw [if_neg happly]
      have hitems : (row₁.getD (absentRow items)).map (·.1) = items :=
        (Scene.Combines.getD fun x hx => (hrows x (hmem₁ x hx)).1).items
      refine Scene.HasRows.append ?_ (Scene.HasRows.append_right hitems ?_)
      · split
        · exact Scene.hasRows_nil
        · next hkeeps =>
          obtain ⟨x, rfl⟩ := Option.isSome_iff_exists.mp (hsome₁ (by simpa using hkeeps))
          exact (hrows x (hmem₁ x rfl)).2.append_left
      · split
        · exact Scene.hasRows_nil
        · next hkeeps =>
          obtain ⟨y, rfl⟩ := Option.isSome_iff_exists.mp (hsome₂ (by simpa using hkeeps))
          exact Source.hasRows_certain source outer around haround y (hmem₂ y rfl)
termination_by structural join

theorem hasRows_certainJoins (joins : List Join) (outer : Env V) (around : List Visible)
    (haround : ∀ v ∈ around, S.Shows R outer v) (items : List SourceItem) (left : List Visible)
    (rows : List (JoinedRow V))
    (hrows : ∀ row ∈ rows, S.Combines R items row ∧ S.HasRows R row left) (row : JoinedRow V)
    (h : row ∈ combinedJoins R S joins outer items rows) :
    S.HasRows R row (certainJoins joins around items left) := by
  match joins with
  | [] => exact (hrows row h).2
  | join :: rest =>
    exact hasRows_certainJoins rest outer around haround _ _ _ (fun row hrow =>
      ⟨Join.combines join outer items rows (fun row hrow => (hrows row hrow).1) row hrow,
        Join.hasRows_certain join outer around haround items left rows hrows row hrow⟩) row h
termination_by structural joins

end

/-- What has a row in every combination of some sources has one in each of them. -/
theorem hasRows_certainSources {sources : List Source} (haround : ∀ v ∈ around, S.Shows R outer v)
    (h : row ∈ combinedSources R S sources outer) :
    S.HasRows R row (certainSources sources around) := by
  induction sources generalizing row with
  | nil => exact Scene.hasRows_nil
  | cons source rest ih =>
    obtain ⟨x, hx, y, hy, rfl⟩ := mem_crossed.mp h
    exact (source.hasRows_certain outer around haround x hx).append_left.append
      (Scene.HasRows.append_right (source.combines outer x hx).items (ih hy))

/-- On every combination of the sources of a query there is a row of what is certain to have one. -/
theorem Scene.shows_certain {q : Query} (haround : ∀ v ∈ around, S.Shows R outer v)
    (h : row ∈ combinedSources R S q.sources outer) :
    ∀ v ∈ q.certain around, S.Shows R (S.view R outer row) v := by
  intro v hv
  rcases List.mem_append.mp hv with hv | hv
  · exact Scene.shows_view (hasRows_certainSources haround h) hv
  · exact Scene.shows_outside (combines_sources h).items haround hv

end

/-! ## Values on rows and groups -/

section

variable {V : Type} (R : Valuation V) (ρ : Env V)

mutual

/-- Whether a scalar may have a value on the row that is in view, or on a group of rows that this
one is taken from.  It is left open which truth conditions have, and what nested queries and
aggregates yield; but a number of rows is not absent. -/
def Scalar.mayBe : Scalar → V → Prop
  | .value v, x => x = R.constant v
  | .parameter p, x => x = R.parameter p
  | .field f, x => x = ρ.field f
  | .column c, x => x = ρ.column c
  | .function call, x => call.mayBe x
  | .binary l op r type, x => ∃ a b, l.mayBe a ∧ r.mayBe b ∧ x = R.binary op type a b
  | .raw format args type _, x => ∃ vs, mayBeAll args vs ∧ x = R.raw format type vs
  | .convert target source e _, x => ∃ a, e.mayBe a ∧ x = R.convert target source a
  | .condition _, x => ∃ t, x = R.ofTruth t
  | .query _, _ => True
  | .type type, x => x = R.typeName type
  | .row _, x | .allFields _, x | .tableSource _, x => ∃ vs, x = R.row vs
  | .deferredName name, x => x = R.tableName name
termination_by structural e => e

/-- Whether some scalars may have some values. -/
def mayBeAll : List Scalar → List V → Prop
  | [], vs => vs = []
  | e :: rest, vs => ∃ a more, e.mayBe a ∧ mayBeAll rest more ∧ vs = a :: more
termination_by structural es => es

/-- Whether a call may have a value. -/
def Call.mayBe : Call → V → Prop
  | ⟨name, args, type, isAggregate, _⟩, x =>
    if isAggregate then Text.equalAscii name "COUNT" = true → R.isNull x = false
    else ∃ vs, mayBeAll args vs ∧ x = R.function name type vs
termination_by structural c => c

end

variable {R ρ}

theorem mayBeAll.forall₂ {q : Scalar → V → Prop} {args : List Scalar} {vs : List V}
    (h : mayBeAll R ρ args vs) (hq : ∀ e ∈ args, ∀ x, e.mayBe R ρ x → q e x) :
    List.Forall₂ q args vs := by
  induction args generalizing vs with
  | nil =>
    cases h
    exact .nil
  | cons e rest ih =>
    obtain ⟨a, more, ha, hmore, rfl⟩ := h
    exact .cons (hq e List.mem_cons_self a ha)
      (ih hmore fun e he => hq e (List.mem_cons_of_mem _ he))

variable {P : Place V}

mutual

/-- Where nothing is aggregated, a scalar may have its value. -/
theorem Scalar.mayBe_valueIn (e : Scalar) (h : ∀ p ∈ e.walk, p.isAggregate = false) :
    e.mayBe R P.env (e.valueIn R P) := by
  match e with
  | .value _ | .parameter _ | .field _ | .column _ | .type _ | .deferredName _ => exact rfl
  | .query _ => exact trivial
  | .allFields _ | .tableSource _ | .row _ => exact ⟨_, rfl⟩
  | .condition _ => exact ⟨_, rfl⟩
  | .function call =>
    exact Call.mayBe_valueIn call (h _ List.mem_cons_self)
      fun p hp => h p (List.mem_cons_of_mem _ hp)
  | .binary l op r type =>
    have hparts := forall_append fun p hp => h p (List.mem_cons_of_mem _ hp)
    exact ⟨_, _, Scalar.mayBe_valueIn l hparts.1, Scalar.mayBe_valueIn r hparts.2, rfl⟩
  | .raw format args type precedence =>
    exact ⟨_, mayBeAll_valuesIn args fun p hp => h p (List.mem_cons_of_mem _ hp), rfl⟩
  | .convert target source e keep =>
    exact ⟨_, Scalar.mayBe_valueIn e fun p hp => h p (List.mem_cons_of_mem _ hp), rfl⟩
termination_by structural e

theorem mayBeAll_valuesIn (items : List Scalar)
    (h : ∀ p ∈ walkScalars items, p.isAggregate = false) :
    mayBeAll R P.env items (valuesIn R P items) := by
  match items with
  | [] => exact rfl
  | e :: rest =>
    have hparts := forall_append h
    exact ⟨_, _, Scalar.mayBe_valueIn e hparts.1, mayBeAll_valuesIn rest hparts.2, rfl⟩
termination_by structural items

theorem Call.mayBe_valueIn (call : Call) (hcall : call.isAggregate = false)
    (h : ∀ p ∈ call.walk, p.isAggregate = false) : call.mayBe R P.env (call.valueIn R P) := by
  match call with
  | ⟨name, args, type, false, keep⟩ => exact ⟨_, mayBeAll_valuesIn args h, rfl⟩
  | ⟨name, args, type, true, keep⟩ => cases hcall
termination_by structural call

end

end

/-! ## Rows of queries -/

/-- All rows are one group, of which there is one even if there are no rows. -/
def Query.isOneGroup (s : Store) (q : Query) : Bool :=
  !q.isGrouped && (!q.having.isEmpty ||
    q.columns.any fun c => (s.column c).expression.anyPart Scalar.isAggregate)

/-- A block of a query: the query itself, or a block of a query that is united with it. -/
inductive Store.Branch (s : Store) : QueryRef → QueryRef → Prop where
  | self {q : QueryRef} : Branch s q q
  | operand {q o : QueryRef} {operator : SetOperator}
      (hoperator : operator ∈ (s.query q).setOperators)
      (hunion : operator.operation = .union ∨ operator.operation = .unionAll)
      (h : Branch s operator.query o) : Branch s q o

/-- A column of a block stands where a column of the query does. -/
def Store.SelectedAlike (s : Store) (c : ColumnRef) (o : QueryRef) (c' : ColumnRef) : Prop :=
  s.Branch (s.column c).parent o ∧
    (s.query o).columns[(s.query (s.column c).parent).columns.idxOf c]? = some c'

section

variable {V : Type} (R : Valuation V) (S : Scene V)

/-- Whether a block may yield a row: the values of its columns on a combination of its sources, or on
the group of no rows.  Groups of other kinds than the plain one may leave anything absent. -/
def Scene.BlockYields (q : QueryRef) (σ : Env V) (row : List V) : Prop :=
  let block := S.store.query q
  block.grouping.kind ≠ .plain ∨ ∃ combination : JoinedRow V,
    (combination ∈ combinedSources R S block.sources σ ∨ block.isOneGroup S.store = true) ∧
      List.Forall₂ (fun c => (S.store.column c).expression.mayBe R (S.view R σ combination))
        block.columns row

/-- The rows of a query are computed by its blocks. -/
def Scene.ComputesColumns : Prop :=
  ∀ q σ, ∀ row ∈ S.queryRows q σ, ∃ o, S.store.Branch q o ∧ S.BlockYields R o σ row

/-- What is declared to be present is present in all rows of tables. -/
def Scene.KeepsDeclarations : Prop :=
  ∀ t σ, ∀ row ∈ S.tableRows (S.store.table t).name (S.store.table t).kind σ,
    ∀ f ∈ (S.store.table t).fields, (S.store.field f).canBeNull = false →
      R.isNull (row (S.store.field f).physicalName) = false

end

/-! ## Expressions that read what has a row -/

/-- A condition. -/
def Scalar.isCondition : Scalar → Bool
  | .condition _ => true
  | _ => false

/-- A scalar without parts that are worth something on a row. -/
def Scalar.isBasic : Scalar → Bool
  | .value _ | .parameter _ | .query _ | .type _ | .row _ | .allFields _ | .tableSource _
  | .deferredName _ => true
  | _ => false

section

variable {V : Type} (R : Valuation V)

/-- Constants, whole rows and names are present, but for the absent constant. -/
structure Valuation.KeepsConstants : Prop where
  constant : ∀ v, v.value.isNull = false → R.isNull (R.constant v) = false
  parameter : ∀ p, p.isQuery = false → p.value.isNull = false → R.isNull (R.parameter p) = false
  row : ∀ vs, R.isNull (R.row vs) = false
  typeName : ∀ type, R.isNull (R.typeName type) = false
  tableName : ∀ name, R.isNull (R.tableName name) = false

/-- An operator yields something of what is present. -/
def Valuation.KeepsOperator (act : V → V → V) : Prop :=
  ∀ a b, R.isNull a = false → R.isNull b = false → R.isNull (act a b) = false

/-- A function yields something where all arguments but the conditions are present. -/
def Valuation.KeepsCall (act : List V → V) (args : List Scalar) : Prop :=
  ∀ vs, List.Forall₂ (fun e x => e.isCondition = false → R.isNull x = false) args vs →
    R.isNull (act vs) = false

/-- An expression reads only what has a row, and nothing in it makes something absent of what is
present.  A column of a nested query reads what the blocks of the query select for it; they have
nothing to yield for a row of no rows, and what the analysis says of the first one it says of all. -/
inductive Store.Settles (s : Store) : List Visible → Scalar → Prop where
  | basic {visible : List Visible} {e : Scalar} (h : e.isBasic = true) : Settles s visible e
  | condition {visible : List Visible} {c : Condition}
      (hkeeps : ∀ t, R.isNull (R.ofTruth t) = false) : Settles s visible (.condition c)
  | aggregate {visible : List Visible} {name : String} {args : List Scalar} {type : SqlType}
      {keep : Bool} : Settles s visible (.function ⟨name, args, type, true, keep⟩)
  | function {visible : List Visible} {name : String} {args : List Scalar} {type : SqlType}
      {keep : Bool} (hkeeps : R.KeepsCall (R.function name type) args)
      (hargs : ∀ e ∈ args, e.isCondition = false → Settles s visible e) :
      Settles s visible (.function ⟨name, args, type, false, keep⟩)
  | binary {visible : List Visible} {l r : Scalar} {op : BinaryOperator} {type : SqlType}
      (hkeeps : R.KeepsOperator (R.binary op type)) (hl : Settles s visible l)
      (hr : Settles s visible r) : Settles s visible (.binary l op r type)
  | raw {visible : List Visible} {format : String} {args : List Scalar} {type : SqlType}
      {precedence : Precedence} (hkeeps : R.KeepsCall (R.raw format type) args)
      (hargs : ∀ e ∈ args, e.isCondition = false → Settles s visible e) :
      Settles s visible (.raw format args type precedence)
  | convert {visible : List Visible} {target source : SqlType} {e : Scalar} {keep : Bool}
      (hkeeps : ∀ a, R.isNull a = false → R.isNull (R.convert target source a) = false)
      (he : Settles s visible e) : Settles s visible (.convert target source e keep)
  | field {visible around : List Visible} {f : FieldRef}
      (hvisible : ⟨.table (s.field f).table, around⟩ ∈ visible)
      (hfield : f ∈ (s.table (s.field f).table).fields) : Settles s visible (.field f)
  | column {visible around : List Visible} {c : ColumnRef}
      (hvisible : ⟨.query (s.column c).parent, around⟩ ∈ visible)
      (hindex : c.index < s.columns.size)
      (hcolumn : c ∈ (s.query (s.column c).parent).columns)
      (hblocks : ∀ o, s.Branch (s.column c).parent o →
        (s.query o).grouping.kind = .plain ∧ (s.query o).isOneGroup s = false ∧
          (s.query o).columns.length = (s.query (s.column c).parent).columns.length)
      (hsettles : ∀ o c', s.SelectedAlike c o c' →
        Settles s ((s.query o).certain around) (s.column c').expression)
      (halike : ∀ o c', s.SelectedAlike c o c' → s.canBeNull (s.column c).expression = false →
        s.canBeNull (s.column c').expression = false) : Settles s visible (.column c)

end

section

variable {s : Store} {V : Type} {R : Valuation V} {visible : List Visible} {e : Scalar}

namespace Store.Settles

/-- A column of a query of one block reads what that block selects for it. -/
theorem column_of_single {around : List Visible} {c : ColumnRef}
    (hvisible : ⟨.query (s.column c).parent, around⟩ ∈ visible) (hindex : c.index < s.columns.size)
    (hcolumn : c ∈ (s.query (s.column c).parent).columns)
    (hsingle : (s.query (s.column c).parent).setOperators = [])
    (hkind : (s.query (s.column c).parent).grouping.kind = .plain)
    (hgroup : (s.query (s.column c).parent).isOneGroup s = false)
    (h : s.Settles R ((s.query (s.column c).parent).certain around) (s.column c).expression) :
    s.Settles R visible (.column c) := by
  have hbranch {o : QueryRef} (ho : s.Branch (s.column c).parent o) : o = (s.column c).parent := by
    cases ho with
    | self => rfl
    | operand hoperator => exact absurd (hsingle ▸ hoperator) List.not_mem_nil
  have halike {o : QueryRef} {c' : ColumnRef} (h : s.SelectedAlike c o c') :
      o = (s.column c).parent ∧ c' = c := by
    obtain ⟨ho, hc'⟩ := h
    cases hbranch ho
    exact ⟨rfl, Option.some.inj (hc'.symm.trans (List.getElem?_idxOf hcolumn))⟩
  refine .column hvisible hindex hcolumn (fun o ho => ?_) (fun o c' hc' => ?_) fun o c' hc' => ?_
  · cases hbranch ho
    exact ⟨hkind, hgroup, rfl⟩
  · obtain ⟨rfl, rfl⟩ := halike hc'
    exact h
  · obtain ⟨rfl, rfl⟩ := halike hc'
    exact id

end Store.Settles

end

/-! ## Soundness -/

/-- The value that a row has for a column. -/
theorem lookup_zip {α β : Type} [DecidableEq α] {keys : List α} {key : α} (h : key ∈ keys)
    (values : List β) : (keys.zip values).lookup key = values[keys.idxOf key]? := by
  induction keys generalizing values with
  | nil => exact absurd h List.not_mem_nil
  | cons first rest ih =>
    cases values with
    | nil => rfl
    | cons value values =>
      rw [List.zip_cons_cons, List.lookup_cons, List.idxOf_cons]
      by_cases hkey : first = key
      · subst hkey
        simp
      · have hbeq : (key == first) = false := beq_false_of_ne (Ne.symm hkey)
        have hbeq' : (first == key) = false := beq_false_of_ne hkey
        rw [hbeq, hbeq', ih ((List.mem_cons.mp h).resolve_left (Ne.symm hkey))]
        rfl

section

variable {V : Type} {R : Valuation V} {S : Scene V}

/-- A value that stands where a column of a query does was computed for an alike column. -/
theorem Scene.ComputesColumns.column (hS : S.ComputesColumns R) {σ : Env V} {c : ColumnRef}
    (hcolumn : c ∈ (S.store.query (S.store.column c).parent).columns)
    (hblocks : ∀ o, S.store.Branch (S.store.column c).parent o →
      (S.store.query o).grouping.kind = .plain ∧ (S.store.query o).isOneGroup S.store = false ∧
        (S.store.query o).columns.length =
          (S.store.query (S.store.column c).parent).columns.length)
    {ρ : Env V} (hρ : ρ ∈ S.itemRows R σ (.query (S.store.column c).parent)) :
    ∃ o c', S.store.SelectedAlike c o c' ∧
      ∃ combination ∈ combinedSources R S (S.store.query o).sources σ,
        (S.store.column c').expression.mayBe R (S.view R σ combination) (ρ.column c) := by
  obtain ⟨row, hrow, rfl⟩ := List.mem_map.mp hρ
  obtain ⟨o, hbranch, hyields⟩ := hS _ σ row hrow
  obtain ⟨hkind, hgroup, hlength⟩ := hblocks o hbranch
  obtain ⟨combination, hcombination, hvalues⟩ := hyields.resolve_left (absurd hkind)
  have hindex := List.idxOf_lt_length_iff.mpr hcolumn
  have hindex' := hlength ▸ hindex
  have hrow' := hvalues.length_eq ▸ hindex'
  refine ⟨o, _, ⟨hbranch, List.getElem?_eq_getElem hindex'⟩, combination,
    hcombination.resolve_right (by simp [hgroup]), ?_⟩
  have hvalue : (S.queryRow R (S.store.column c).parent row).column c =
      row[(S.store.query (S.store.column c).parent).columns.idxOf c] := by
    change (List.lookup c _).getD R.null = _
    rw [lookup_zip hcolumn, List.getElem?_eq_getElem hrow']
    rfl
  rw [hvalue]
  exact (List.forall₂_iff_get.mp hvalues).2 _ hindex' hrow'

/-- What a settled expression may be is present if the analysis says so. -/
theorem Store.Settles.present (hR : R.KeepsConstants) (hdeclared : S.KeepsDeclarations R)
    (hS : S.ComputesColumns R) {visible : List Visible} {e : Scalar}
    (h : S.store.Settles R visible e) {ρ : Env V} (hρ : ∀ v ∈ visible, S.Shows R ρ v)
    (hnull : S.store.canBeNull e = false) {x : V} (hx : e.mayBe R ρ x) : R.isNull x = false := by
  have hargs {args : List Scalar} {vs : List V} {ρ : Env V}
      (ih : ∀ e ∈ args, e.isCondition = false → S.store.canBeNull e = false →
        ∀ x, e.mayBe R ρ x → R.isNull x = false)
      (hnull : S.store.anyNullableBy (S.store.columnNullableWithin (S.store.columns.size + 1)) args = false)
      (hvs : mayBeAll R ρ args vs) :
      List.Forall₂ (fun e x => e.isCondition = false → R.isNull x = false) args vs := by
    rw [anyNullableBy_eq, List.any_eq_false] at hnull
    exact hvs.forall₂ fun e he x hx hcondition =>
      ih e he hcondition (Bool.eq_false_iff.mpr (hnull e he)) x hx
  induction h generalizing ρ x with
  | @basic visible e h =>
    cases e with
    | value v => exact hx ▸ hR.constant v hnull
    | parameter p =>
      have hboth : (p.isQuery || p.value.isNull) = false := hnull
      rw [Bool.or_eq_false_iff] at hboth
      exact hx ▸ hR.parameter p hboth.1 hboth.2
    | query q => exact absurd hnull Bool.noConfusion
    | type type => exact hx ▸ hR.typeName type
    | deferredName name => exact hx ▸ hR.tableName name
    | row items | allFields t | tableSource t =>
      obtain ⟨vs, rfl⟩ := hx
      exact hR.row vs
    | _ => cases h
  | condition hkeeps =>
    obtain ⟨t, rfl⟩ := hx
    exact hkeeps t
  | @aggregate visible name args type keep =>
    have hcount : Text.equalAscii name "COUNT" = true := (Bool.not_eq_false' _).mp hnull
    exact hx hcount
  | function hkeeps _ ih =>
    obtain ⟨vs, hvs, rfl⟩ := hx
    exact hkeeps vs (hargs (fun e he hcondition hnull x => ih e he hcondition hρ hnull) hnull hvs)
  | raw hkeeps _ ih =>
    obtain ⟨vs, hvs, rfl⟩ := hx
    exact hkeeps vs (hargs (fun e he hcondition hnull x => ih e he hcondition hρ hnull) hnull hvs)
  | binary hkeeps _ _ ihl ihr =>
    obtain ⟨a, b, ha, hb, rfl⟩ := hx
    have hboth := Bool.or_eq_false_iff.mp hnull
    exact hkeeps a b (ihl hρ hboth.1 ha) (ihr hρ hboth.2 hb)
  | convert hkeeps _ ih =>
    obtain ⟨a, ha, rfl⟩ := hx
    exact hkeeps a (ih hρ hnull ha)
  | @field visible around f hvisible hfield =>
    cases hρ _ hvisible with
    | mk σ ρ₀ haround hrow hread =>
      obtain ⟨row, hmem, rfl⟩ := List.mem_map.mp hrow
      have hvalue : (S.tableRow R (S.store.field f).table row).field f =
          row (S.store.field f).physicalName := if_pos hfield
      rw [hx, hread f rfl, hvalue]
      exact hdeclared _ σ row hmem f hfield hnull
  | @column visible around c hvisible hindex hcolumn hblocks hsettles halike ih =>
    have hexpression : S.store.canBeNull (S.store.column c).expression = false := by
      rw [← canBeNull_column, hnull]
    cases hρ _ hvisible with
    | mk σ ρ₀ haround hrow _ hread =>
      obtain ⟨o, c', hsame, combination, hcombination, hvalue⟩ := hS.column hcolumn hblocks hrow
      rw [hx, hread c rfl]
      exact ih o c' hsame (Scene.shows_certain haround hcombination)
        (halike o c' hsame hexpression) hvalue

/-- On every combination of the sources of a query an expression is present if the analysis says so
and it reads only what has a row, on the combination itself and on every group that it stands for.
Without the second condition nothing can be said: what is read of a source that has no row is
absent, whatever its field is declared to be and its column is computed from. -/
theorem Scene.canBeNull_sound (hR : R.KeepsConstants) (hdeclared : S.KeepsDeclarations R)
    (hS : S.ComputesColumns R) {q : Query} {outer : Env V} {around : List Visible}
    (haround : ∀ v ∈ around, S.Shows R outer v) {row : JoinedRow V}
    (hrow : row ∈ combinedSources R S q.sources outer) :
    let ρ := S.view R outer row
    (∀ e, S.store.Settles R (q.certain around) e → S.store.canBeNull e = false →
      (∀ x, e.mayBe R ρ x → R.isNull x = false) ∧
      ((∀ p ∈ e.walk, p.isAggregate = false) →
        R.isNull (e.valueIn R (S.place ρ)) = false)) ∧
    (∀ f, row.lookup (.table (S.store.field f).table) = some none →
      R.isNull ((Scalar.field f).valueIn R (S.place ρ)) = true) ∧
    (∀ c, row.lookup (.query (S.store.column c).parent) = some none →
      R.isNull ((Scalar.column c).valueIn R (S.place ρ)) = true) := by
  intro ρ
  have habsent {item : SourceItem} (hlookup : row.lookup item = some none) (value : Env V → V)
      (other : V) : R.isNull (row.read R item value other) = true := by
    rw [JoinedRow.read_of_lookup hlookup]
    exact R.isNull_null
  refine ⟨fun e hsettles hnull => ?_, fun f hlookup => habsent hlookup _ _,
    fun c hlookup => habsent hlookup _ _⟩
  have hpresent (x : V) (hx : e.mayBe R ρ x) : R.isNull x = false :=
    hsettles.present hR hdeclared hS (Scene.shows_certain haround hrow) hnull hx
  exact ⟨hpresent, fun hplain => hpresent _ (Scalar.mayBe_valueIn (P := S.place ρ) e hplain)⟩

end

/-- Integers that may be absent, where all other constants and names have the value zero. -/
def Valuation.presentIntegers : Valuation (Option Int) :=
  { Valuation.nullableIntegers with
    constant := fun v => if v.value.isNull then none else some (v.value.nullableInteger.getD 0)
    parameter := fun p => if p.value.isNull then none else some (p.value.nullableInteger.getD 0)
    row := fun _ => some 0
    typeName := fun _ => some 0
    tableName := fun _ => some 0 }

theorem Valuation.presentIntegers_keepsConstants : presentIntegers.KeepsConstants where
  constant v hv := by simp [presentIntegers, nullableIntegers, hv]
  parameter p _ hp := by simp [presentIntegers, nullableIntegers, hp]
  row _ := rfl
  typeName _ := rfl
  tableName _ := rfl

/-- The ages that a nested query selects, with the orders of the first person. -/
def Store.agesWithOrders : Store :=
  let mine := Condition.ofPredicate (.equal (.field ⟨3⟩) (.int 1))
  { sales .select {} with
    columns := #[{ parent := ⟨1⟩, expression := .field ⟨1⟩, aliasName := none }]
    queries := #[{ sources := [⟨.query ⟨1⟩, none, [⟨.left, .ofTable ⟨1⟩, mine⟩]⟩] },
      { columns := [⟨0⟩], sources := [.ofTable ⟨0⟩] }] }

/-- A person whose order is not that of the first one. -/
def Scene.ofAgesWithOrders : Scene (Option Int) where
  store := .agesWithOrders
  tableRows name _ _ :=
    match name.name with
    | "Person" => [namedRow ["Id", "Age"] [some 2, some 40]]
    | "Orders" => [namedRow ["Id", "PersonId"] [some 10, some 2]]
    | _ => []
  queryRows q _ := if q = ⟨1⟩ then [[some 40]] else []

namespace Scene

theorem ofAgesWithOrders_keepsDeclarations :
    ofAgesWithOrders.KeepsDeclarations .presentIntegers := by
  rintro ⟨t⟩ σ row hrow f hf -
  match t with
  | 0 | 1 =>
    cases List.mem_singleton.mp hrow
    simp only [Store.table, ofAgesWithOrders, Store.agesWithOrders, Store.sales] at hf
    rcases List.mem_pair.mp hf with rfl | rfl <;> rfl
  | 2 | _ + 3 => cases hrow

theorem ofAgesWithOrders_computesColumns : ofAgesWithOrders.ComputesColumns .presentIntegers := by
  intro q σ row hrow
  by_cases hq : q = ⟨1⟩
  · subst hq
    cases List.mem_singleton.mp hrow
    exact ⟨⟨1⟩, .self, .inr ⟨_, .inl (List.mem_singleton.mpr rfl), .cons rfl .nil⟩⟩
  · simp [ofAgesWithOrders, hq] at hrow

/-- The age of the person is present, and a year more is.  The order that is joined is not, though
its person is declared to be. -/
theorem canBeNull_sound_agesWithOrders :
    let older := Scalar.binary (.column ⟨0⟩) .add (.int 1) .int32
    Store.agesWithOrders.canBeNull older = false ∧
    Store.agesWithOrders.canBeNull (.field ⟨3⟩) = false ∧
    ∃ row ∈ combinedSources .presentIntegers ofAgesWithOrders
        (Store.agesWithOrders.query ⟨0⟩).sources .nowhere,
      let P := ofAgesWithOrders.place (ofAgesWithOrders.view .presentIntegers .nowhere row)
      (older.valueIn .presentIntegers P).isNone = false ∧
      ((Scalar.field ⟨3⟩).valueIn .presentIntegers P).isNone = true := by
  intro older
  have hpeople : (⟨.query ⟨1⟩, []⟩ : Visible) ∈ (Store.agesWithOrders.query ⟨0⟩).certain [] :=
    List.mem_singleton.mpr rfl
  have hperson : (⟨.table ⟨0⟩, []⟩ : Visible) ∈ (Store.agesWithOrders.query ⟨1⟩).certain [] :=
    List.mem_singleton.mpr rfl
  have hage : Store.agesWithOrders.Settles .presentIntegers
      ((Store.agesWithOrders.query ⟨0⟩).certain []) (.column ⟨0⟩) :=
    .column_of_single hpeople (by decide) (List.mem_singleton.mpr rfl) rfl rfl rfl
      (.field hperson (by decide))
  have hadds : Valuation.presentIntegers.KeepsOperator
      (Valuation.presentIntegers.binary .add .int32) := by
    rintro (_ | a) (_ | b) ha hb
    · cases ha
    · cases ha
    · cases hb
    · rfl
  have hrow : [(.query ⟨1⟩, some (ofAgesWithOrders.queryRow .presentIntegers ⟨1⟩ [some 40])),
      (.table ⟨1⟩, none)] ∈ combinedSources .presentIntegers ofAgesWithOrders
        (Store.agesWithOrders.query ⟨0⟩).sources .nowhere := List.mem_singleton.mpr rfl
  obtain ⟨hsettled, habsent, -⟩ := canBeNull_sound Valuation.presentIntegers_keepsConstants
    ofAgesWithOrders_keepsDeclarations ofAgesWithOrders_computesColumns
    (List.forall_mem_nil _ : ∀ v ∈ ([] : List Visible), _) hrow
  have holder : Store.agesWithOrders.canBeNull older = false := by decide
  refine ⟨holder, by decide, _, List.mem_singleton.mpr rfl, ?_, habsent ⟨3⟩ rfl⟩
  exact (hsettled older (.binary hadds hage (.basic rfl)) holder).2 (by decide)

end Scene

end SqlCompiler
