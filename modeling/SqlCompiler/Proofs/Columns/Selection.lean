import SqlCompiler.Proofs.Lowering.Growth
import SqlCompiler.Proofs.Lowering.Triples

/-!
# Selected columns

The columns of a query are matched by position: with the columns of the other sides of its set
operators, and with the members of its projection.  So no column may be added to a query that has
set operators or is a side of one.

Main definitions:

- `Store.Sound`: queries read queries that are there, and both sides of a set operator select
  equally many columns.
- `Store.Open`, `Store.Active`, `Store.Bare`: how free a query is to be changed.
- `Store.Fits`, `Lowered.Selected`: a query selects the scalars of its projection, in order.
-/

namespace SqlCompiler

/-- A scalar that is equal to itself, as all are but those with a constant that is not a number. -/
def Scalar.IsReflexive (e : Scalar) : Prop := (e == e) = true

/-- Two queries select the same columns, read the same queries and have the same groups. -/
structure Query.SameOutline (query query' : Query) : Prop where
  columns : query'.columns = query.columns
  subqueries : query'.subqueries = query.subqueries
  sides : query'.sides = query.sides
  grouping : query'.grouping = query.grouping
  having : query'.having = query.having

/-- The groups a query has are no grouping sets, and none of them is filtered out. -/
structure Query.KeepsGroups (query : Query) : Prop where
  kind : query.grouping.kind = .plain
  having : query.having.isEmpty = true

namespace Store

variable {s s' : Store} {q r : QueryRef} {p : Projection} {X Y : QueryRef → Prop}
  {E : Scalar → Prop}

/-- The scalars a query selects, in order. -/
def selected (s : Store) (q : QueryRef) : List Scalar :=
  (s.query q).columns.map fun c => (s.column c).expression

@[simp]
theorem length_selected (s : Store) (q : QueryRef) :
    (s.selected q).length = (s.query q).columns.length := by
  simp [selected]

/-! ## Sound stores -/

/-- Queries read queries that are there; a side of a set operator is no subquery, and both sides
select equally many columns, except for the queries of `X`; a query without groups has no
condition on them. -/
structure Sound (X : QueryRef → Prop) (s : Store) : Prop where
  columns : ∀ q : QueryRef, ∀ c ∈ (s.query q).columns, c.index < s.columns.size
  parents : ∀ c : ColumnRef, c.index < s.columns.size →
    (s.column c).parent.index < s.queries.size
  reads : ∀ q : QueryRef, ∀ r ∈ (s.query q).reads, r.index < s.queries.size
  apart : ∀ q r : QueryRef, ∀ side ∈ (s.query q).sides, side ∉ (s.query r).subqueries
  agree : ∀ q : QueryRef, ¬ X q → (∀ e ∈ s.selected q, e.IsReflexive) →
    ∀ side ∈ (s.query q).sides, (s.query side).columns.length = (s.query q).columns.length
  groups : ∀ q : QueryRef, (s.query q).isGrouped = false → (s.query q).KeepsGroups

theorem Sound.mono (h : s.Sound X) (himp : ∀ q, X q → Y q) : s.Sound Y :=
  { h with agree := fun q hq => h.agree q fun hX => hq (himp q hX) }

theorem sound_empty (X : QueryRef → Prop) : ({} : Store).Sound X := by
  have hquery : ∀ q, ({} : Store).query q = {} := fun q => query_of_le (Nat.zero_le _)
  refine ⟨fun q c hc => ?_, fun c hc => ?_, fun q r hr => ?_, fun q r side hside => ?_,
    fun q _ _ side hside => ?_, fun q _ => by rw [hquery]; exact ⟨rfl, rfl⟩⟩
  · rw [hquery] at hc
    cases hc
  · exact absurd hc (Nat.not_lt_zero _)
  · rw [hquery] at hr
    cases hr
  · rw [hquery] at hside
    cases hside
  · rw [hquery] at hside
    cases hside

/-! ## Queries that may be changed -/

/-- A query that is there and that no query reads. -/
structure Open (q : QueryRef) (s : Store) : Prop where
  valid : q.index < s.queries.size
  unread : ∀ r : QueryRef, q ∉ (s.query r).reads

/-- An open query that selects every column that was made for it. -/
structure Active (q : QueryRef) (s : Store) : Prop extends Open q s where
  owns : ∀ c : ColumnRef, c.index < s.columns.size → (s.column c).parent = q →
    c ∈ (s.query q).columns

/-- An active query without set operators. -/
structure Bare (q : QueryRef) (s : Store) : Prop extends Active q s where
  sides : (s.query q).sides = []

/-- A query selects the scalars of a projection, and the sides of its set operators select equally
many. -/
structure Fits (q : QueryRef) (p : Projection) (s : Store) : Prop where
  valid : ∀ c ∈ (s.query q).columns, c.index < s.columns.size
  selected : s.selected q = p.scalars
  sides : ∀ side ∈ (s.query q).sides, side.index < s.queries.size ∧
    (s.query side).columns.length = (s.query q).columns.length

theorem Open.not_side (h : s.Open q) (r : QueryRef) : q ∉ (s.query r).sides := fun hmem =>
  h.unread r (List.mem_append_right _ hmem)

theorem Open.not_subquery (h : s.Open q) (r : QueryRef) : q ∉ (s.query r).subqueries :=
  fun hmem => h.unread r (List.mem_append_left _ hmem)

/-! ## While the store grows -/

theorem KeepsBelow.selected {n : Nat} (h : s.KeepsBelow n s') (hq : q.index < n)
    (hvalid : ∀ c ∈ (s.query q).columns, c.index < s.columns.size) :
    s'.selected q = s.selected q := by
  rw [Store.selected, h.query q hq]
  exact List.map_congr_left fun c hc => by rw [h.column c (hvalid c hc)]

theorem Open.keeps {n : Nat} (h : s.Open q) (hkeeps : s.KeepsBelow n s') (hq : q.index < n) :
    s'.Open q where
  valid := Nat.lt_of_lt_of_le h.valid hkeeps.queries
  unread r hr := (hkeeps.reads r q hr).elim (h.unread r) fun hle => by omega

theorem Active.keeps {n : Nat} (h : s.Active q) (hkeeps : s.KeepsBelow n s') (hq : q.index < n) :
    s'.Active q where
  toOpen := h.toOpen.keeps hkeeps hq
  owns c hc hparent := by
    by_cases hold : c.index < s.columns.size
    · rw [hkeeps.column c hold] at hparent
      rw [hkeeps.query q hq]
      exact h.owns c hold hparent
    · have hnew := hkeeps.parent c (Nat.le_of_not_lt hold) hc
      rw [hparent] at hnew
      omega

theorem Bare.keeps {n : Nat} (h : s.Bare q) (hkeeps : s.KeepsBelow n s') (hq : q.index < n) :
    s'.Bare q where
  toActive := h.toActive.keeps hkeeps hq
  sides := by rw [hkeeps.query q hq, h.sides]

theorem Fits.keeps (h : s.Fits q p) (hkeeps : s.KeepsBelow s.queries.size s')
    (hq : q.index < s.queries.size) : s'.Fits q p where
  valid c hc := by
    rw [hkeeps.query q hq] at hc
    exact Nat.lt_of_lt_of_le (h.valid c hc) hkeeps.columns
  selected := (hkeeps.selected hq h.valid).trans h.selected
  sides side hside := by
    rw [hkeeps.query q hq] at hside ⊢
    obtain ⟨hvalid, hlength⟩ := h.sides side hside
    rw [hkeeps.query side hvalid]
    exact ⟨Nat.lt_of_lt_of_le hvalid hkeeps.queries, hlength⟩

instance : Lasting (Open q) := ⟨fun h hs => hs.keeps h hs.valid⟩
instance : Lasting (Active q) := ⟨fun h hs => hs.keeps h hs.valid⟩
instance : Lasting (Bare q) := ⟨fun h hs => hs.keeps h hs.valid⟩

/-! ## While a query gets columns -/

theorem Grows.outline (h : s.Grows E q s') (r : QueryRef) :
    (s'.query r).subqueries = (s.query r).subqueries ∧ (s'.query r).sides = (s.query r).sides ∧
      (s'.query r).grouping = (s.query r).grouping ∧ (s'.query r).having = (s.query r).having := by
  by_cases hr : r = q
  · subst hr
    obtain ⟨new, hquery, -⟩ := h.added
    rw [hquery]
    exact ⟨rfl, rfl, rfl, rfl⟩
  · rw [h.query r hr]
    exact ⟨rfl, rfl, rfl, rfl⟩

theorem Grows.reads (h : s.Grows E q s') (r : QueryRef) :
    (s'.query r).reads = (s.query r).reads := by
  rw [Query.reads, Query.reads, (h.outline r).1, (h.outline r).2.1]

theorem Grows.selected (h : s.Grows E q s')
    (hvalid : ∀ c ∈ (s.query r).columns, c.index < s.columns.size) :
    s.selected r <+: s'.selected r := by
  have hold : (s.query r).columns.map (fun c => (s'.column c).expression) = s.selected r :=
    List.map_congr_left fun c hc => by rw [h.column c (hvalid c hc)]
  by_cases hr : r = q
  · subst hr
    obtain ⟨new, hquery, -⟩ := h.added
    refine ⟨new.map fun c => (s'.column c).expression, ?_⟩
    rw [← hold, ← List.map_append]
    simp only [Store.selected, hquery]
  · refine ⟨[], ?_⟩
    rw [List.append_nil, ← hold]
    simp only [Store.selected, h.query r hr]

theorem Open.grows (h : s.Open r) (hgrows : s.Grows E q s') : s'.Open r where
  valid := by rw [hgrows.size]; exact h.valid
  unread t := by rw [hgrows.reads t]; exact h.unread t

theorem Active.grows (h : s.Active r) (hgrows : s.Grows E q s') : s'.Active r where
  toOpen := h.toOpen.grows hgrows
  owns c hc hparent := by
    by_cases hold : c.index < s.columns.size
    · rw [hgrows.column c hold] at hparent
      have hmem := h.owns c hold hparent
      by_cases hr : r = q
      · subst hr
        exact hgrows.mem_columns hmem
      · rw [hgrows.query r hr]
        exact hmem
    · obtain ⟨hq, hmem⟩ := hgrows.owned c (Nat.le_of_not_lt hold) hc
      rw [hparent] at hq
      exact hq ▸ hmem

theorem Bare.grows (h : s.Bare r) (hgrows : s.Grows E q s') : s'.Bare r where
  toActive := h.toActive.grows hgrows
  sides := by rw [(hgrows.outline r).2.1, h.sides]

/-- Columns may be added to a query that is no side of a set operator, if the numbers still
agree. -/
theorem Sound.grows (h : s.Sound X) (hgrows : s.Grows E q s')
    (hq : q.index < s.queries.size) (hside : ∀ r, q ∉ (s.query r).sides)
    (hagree : ¬ X q → (∀ e ∈ s'.selected q, e.IsReflexive) → ∀ side ∈ (s.query q).sides,
      (s.query side).columns.length = (s'.query q).columns.length) : s'.Sound X where
  columns r c hc := by
    by_cases hr : r = q
    · subst hr
      obtain ⟨new, hquery, hnew⟩ := hgrows.added
      rw [hquery] at hc
      rcases List.mem_append.mp hc with hc | hc
      · exact Nat.lt_of_lt_of_le (h.columns r c hc) hgrows.columns
      · exact (hnew c hc).1
    · rw [hgrows.query r hr] at hc
      exact Nat.lt_of_lt_of_le (h.columns r c hc) hgrows.columns
  parents c hc := by
    rw [hgrows.size]
    by_cases hold : c.index < s.columns.size
    · rw [hgrows.column c hold]
      exact h.parents c hold
    · rw [(hgrows.owned c (Nat.le_of_not_lt hold) hc).1]
      exact hq
  reads r t ht := by
    rw [hgrows.reads r] at ht
    rw [hgrows.size]
    exact h.reads r t ht
  apart r t side hmem := by
    rw [(hgrows.outline r).2.1] at hmem
    rw [(hgrows.outline t).1]
    exact h.apart r t side hmem
  agree r hX hreflexive side hmem := by
    rw [(hgrows.outline r).2.1] at hmem
    have hne : side ≠ q := fun heq => hside r (heq ▸ hmem)
    rw [hgrows.query side hne]
    by_cases hr : r = q
    · subst hr
      exact hagree hX hreflexive side hmem
    · rw [hgrows.query r hr]
      exact h.agree r hX
        (fun e he => hreflexive e ((hgrows.selected (h.columns r)).subset he)) side hmem
  groups r hgrouped := by
    obtain ⟨-, -, hgrouping, hhaving⟩ := hgrows.outline r
    rw [Query.isGrouped, hgrouping] at hgrouped
    obtain ⟨hkind, hempty⟩ := h.groups r hgrouped
    exact ⟨hgrouping ▸ hkind, hhaving ▸ hempty⟩

/-! ## While clauses change -/

/-- The queries of a store select the same columns and have the same sides as in another one. -/
structure SameSelection (s s' : Store) : Prop where
  columns : ∀ q, (s'.query q).columns = (s.query q).columns
  sides : ∀ q, (s'.query q).sides = (s.query q).sides
  content : s'.columns = s.columns
  size : s'.queries.size = s.queries.size

/-- The queries of a store also read the same subqueries and have the same groups. -/
structure SameOutline (s s' : Store) : Prop extends SameSelection s s' where
  subqueries : ∀ q, (s'.query q).subqueries = (s.query q).subqueries
  grouping : ∀ q, (s'.query q).grouping = (s.query q).grouping
  having : ∀ q, (s'.query q).having = (s.query q).having

/-- What a query keeps when it is modified, all queries keep. -/
theorem query_modifyQuery_congr {α : Type} {part : Query → α} {f : Query → Query}
    (hf : part (f (s.query q)) = part (s.query q)) (r : QueryRef) :
    part ((s.modifyQuery q f).query r) = part (s.query r) := by
  rcases query_modifyQuery s q r f with ⟨rfl, hquery⟩ | hquery
  · rw [hquery, hf]
  · rw [hquery]

theorem sameSelection_modifyQuery {f : Query → Query}
    (hcolumns : (f (s.query q)).columns = (s.query q).columns)
    (hsides : (f (s.query q)).sides = (s.query q).sides) :
    s.SameSelection (s.modifyQuery q f) where
  columns := query_modifyQuery_congr hcolumns
  sides := query_modifyQuery_congr hsides
  content := rfl
  size := size_modifyQuery

theorem sameOutline_modifyQuery {f : Query → Query}
    (hf : (s.query q).SameOutline (f (s.query q))) : s.SameOutline (s.modifyQuery q f) where
  toSameSelection := sameSelection_modifyQuery hf.columns hf.sides
  subqueries := query_modifyQuery_congr hf.subqueries
  grouping := query_modifyQuery_congr hf.grouping
  having := query_modifyQuery_congr hf.having

theorem SameSelection.column (h : s.SameSelection s') (c : ColumnRef) :
    s'.column c = s.column c := by
  rw [Store.column, Store.column, h.content]

theorem SameSelection.selected (h : s.SameSelection s') (q : QueryRef) :
    s'.selected q = s.selected q := by
  simp only [Store.selected, h.columns, h.column]

theorem SameOutline.reads (h : s.SameOutline s') (q : QueryRef) :
    (s'.query q).reads = (s.query q).reads := by
  rw [Query.reads, Query.reads, h.subqueries, h.sides]

/-- Properties of what queries select and read. -/
class Structural (F : Store → Prop) : Prop where
  congr : ∀ {s s' : Store}, s.SameOutline s' → F s → F s'

instance (φ : Prop) : Structural fun _ => φ := ⟨fun _ => id⟩

instance {F G : Store → Prop} [Structural F] [Structural G] : Structural fun s => F s ∧ G s :=
  ⟨fun h hs => ⟨Structural.congr h hs.1, Structural.congr h hs.2⟩⟩

instance (n : Nat) : Structural fun s => n < s.queries.size := ⟨fun h hs => h.size ▸ hs⟩

theorem Open.congr (h : s.Open q) (hsame : s.SameOutline s') : s'.Open q where
  valid := hsame.size ▸ h.valid
  unread r := by rw [hsame.reads r]; exact h.unread r

theorem Active.congr (h : s.Active q) (hsame : s.SameSelection s') (hopen : s'.Open q) :
    s'.Active q where
  toOpen := hopen
  owns c hc hparent := by
    rw [hsame.content] at hc
    rw [hsame.column] at hparent
    rw [hsame.columns]
    exact h.owns c hc hparent

theorem Bare.congr (h : s.Bare q) (hsame : s.SameSelection s') (hopen : s'.Open q) :
    s'.Bare q where
  toActive := h.toActive.congr hsame hopen
  sides := (hsame.sides q).trans h.sides

theorem Fits.congr (h : s.Fits q p) (hsame : s.SameSelection s') : s'.Fits q p where
  valid c hc := by
    rw [hsame.columns] at hc
    rw [hsame.content]
    exact h.valid c hc
  selected := (hsame.selected q).trans h.selected
  sides side hside := by
    rw [hsame.sides] at hside
    rw [hsame.size, hsame.columns, hsame.columns]
    exact h.sides side hside

instance : Structural (Open q) := ⟨fun h hs => hs.congr h⟩
instance : Structural (Active q) := ⟨fun h hs => hs.congr h.toSameSelection (hs.toOpen.congr h)⟩
instance : Structural (Bare q) := ⟨fun h hs => hs.congr h.toSameSelection (hs.toOpen.congr h)⟩

/-- A store stays sound if its queries come to read open queries only. -/
theorem Sound.congr (h : s.Sound X) (hsame : s.SameSelection s')
    (hsubqueries : ∀ q r, r ∈ (s'.query q).subqueries → r ∈ (s.query q).subqueries ∨ s.Open r)
    (hgroups : ∀ q, (s'.query q).isGrouped = false → (s'.query q).KeepsGroups) :
    s'.Sound X where
  columns q c hc := by
    rw [hsame.columns] at hc
    rw [hsame.content]
    exact h.columns q c hc
  parents c hc := by
    rw [hsame.content] at hc
    rw [hsame.column, hsame.size]
    exact h.parents c hc
  reads q r hr := by
    rw [hsame.size]
    rcases List.mem_append.mp hr with hr | hr
    · rcases hsubqueries q r hr with hr | hr
      · exact h.reads q r (List.mem_append_left _ hr)
      · exact hr.valid
    · rw [hsame.sides] at hr
      exact h.reads q r (List.mem_append_right _ hr)
  apart q r side hside hmem := by
    rw [hsame.sides] at hside
    rcases hsubqueries r side hmem with hmem | hopen
    · exact h.apart q r side hside hmem
    · exact hopen.not_side q hside
  agree q hX hreflexive side hside := by
    rw [hsame.sides] at hside
    rw [hsame.columns, hsame.columns]
    refine h.agree q hX (fun e he => hreflexive e ?_) side hside
    rwa [hsame.selected q]
  groups := hgroups

/-- Nothing that matters to a sound store has changed. -/
theorem SameOutline.sound (hsame : s.SameOutline s') (h : s.Sound X) : s'.Sound X := by
  refine h.congr hsame.toSameSelection (fun q r hr => .inl (hsame.subqueries q ▸ hr)) fun q hq => ?_
  rw [Query.isGrouped, hsame.grouping] at hq
  obtain ⟨hkind, hempty⟩ := h.groups q hq
  exact ⟨hsame.grouping q ▸ hkind, hsame.having q ▸ hempty⟩

end Store

/-! ## Lowered sequences -/

/-- A lowered sequence whose query has no set operators or selects the scalars of its
projection. -/
structure Lowered.Selected (lowered : Lowered) (s : Store) : Prop where
  outcome : lowered.outcome = .sequence
  active : s.Active lowered.query
  fits : (s.query lowered.query).sides = [] ∨ s.Fits lowered.query lowered.projection

/-- A query that may be read from outside: it is no side of a set operator, and has none or selects
the scalars of the projection. -/
structure Store.Readable (q : QueryRef) (p : Projection) (s : Store) : Prop where
  valid : q.index < s.queries.size
  not_side : ∀ r, q ∉ (s.query r).sides
  fits : (s.query q).sides = [] ∨ s.Fits q p

theorem Lowered.Selected.readable {lowered : Lowered} {s : Store} (h : lowered.Selected s) :
    s.Readable lowered.query lowered.projection :=
  ⟨h.active.valid, h.active.not_side, h.fits⟩

theorem Store.Readable.congr {s s' : Store} {q : QueryRef} {p : Projection} (h : s.Readable q p)
    (hsame : s.SameSelection s') : s'.Readable q p where
  valid := hsame.size ▸ h.valid
  not_side r := by rw [hsame.sides]; exact h.not_side r
  fits := h.fits.imp (fun hsides => (hsame.sides q).trans hsides) fun hfits => hfits.congr hsame

/-- A lowered sequence whose query selects the scalars of its projection. -/
structure Lowered.Side (lowered : Lowered) (s : Store) : Prop where
  outcome : lowered.outcome = .sequence
  active : s.Active lowered.query
  fits : s.Fits lowered.query lowered.projection

theorem Lowered.Side.selected {lowered : Lowered} {s : Store} (h : lowered.Side s) :
    lowered.Selected s :=
  ⟨h.outcome, h.active, .inr h.fits⟩

/-- A lowered sequence whose query has no set operators. -/
structure Lowered.Plain (lowered : Lowered) (s : Store) : Prop where
  outcome : lowered.outcome = .sequence
  bare : s.Bare lowered.query

theorem Lowered.Plain.selected {lowered : Lowered} {s : Store} (h : lowered.Plain s) :
    lowered.Selected s :=
  ⟨h.outcome, h.bare.toActive, .inl h.bare.sides⟩

namespace Store

variable {lowered : Lowered}

instance : Lasting lowered.Plain := ⟨fun h hs => ⟨hs.outcome, Lasting.keeps h hs.bare⟩⟩
instance : Structural lowered.Plain := ⟨fun h hs => ⟨hs.outcome, Structural.congr h hs.bare⟩⟩

instance : Lasting lowered.Side :=
  ⟨fun h hs => ⟨hs.outcome, Lasting.keeps h hs.active, hs.fits.keeps h hs.active.valid⟩⟩

instance : Lasting lowered.Selected :=
  ⟨fun h hs => ⟨hs.outcome, Lasting.keeps h hs.active,
    hs.fits.imp (fun hsides => by rw [h.query _ hs.active.valid, hsides])
      fun hfits => hfits.keeps h hs.active.valid⟩⟩

instance : Structural lowered.Selected :=
  ⟨fun h hs => ⟨hs.outcome, Structural.congr h hs.active,
    hs.fits.imp (fun hsides => (h.sides _).trans hsides) fun hfits =>
      hfits.congr h.toSameSelection⟩⟩

end Store

end SqlCompiler
