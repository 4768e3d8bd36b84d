import SqlCompiler.Proofs.Columns.Outcomes

/-!
# Orders of nested queries

An order that picks no rows means nothing in a query that is read by another one, and there are
databases that refuse it.  A query is built with such an order and may be read later; what reads it
drops the order, or has a reason to keep it.

Main results:

- Definition `Query.isLoose`: an order without a limit and without an offset.
- Definition `Store.Tidy`: where such orders stand in a store, except for the queries that are worked
  on.
- Theorem `Store.Tidy.reading`: a query comes to read others.
- Theorem `LowerM.Triple.wrapDraft`: a wrapped query leaves a tidy store if it had a reason to be
  wrapped.
-/

namespace SqlCompiler

/-! ## Queries that are read -/

/-- Whether a query is ordered although all of its rows are asked for. -/
def Query.isLoose (q : Query) : Bool := !q.orderBy.isEmpty && !q.hasPagination

/-- Where a query reads another one: as one of the sources it lists, as one that is joined to these,
or behind a set operator. -/
inductive ReadPlace where
  | source | joined | side
  deriving DecidableEq

/-- The queries that a query reads at a place. -/
def Query.readAt (q : Query) : ReadPlace → List QueryRef
  | .source => q.sources.filterMap Source.query?
  | .joined => (q.sources.flatMap fun source => Source.joined source.joins).filterMap Source.query?
  | .side => q.sides

/-- The operators that wrap a query for another reason than its own clauses. -/
def SequenceOperator.wraps : SequenceOperator → Bool
  | groupBy | asSubquery | mergeUsing => true
  | _ => false

/-- The operators that leave a query behind which no other one reads: as the operand of a condition,
or because its table is joined in its place. -/
def SequenceOperator.leaves : SequenceOperator → Bool
  | any | all | contains | join _ => true
  | _ => false

/-- Whether one of the operators that are called wraps any query. -/
def WrapsAny (calls : SequenceOperator → Bool) : Prop :=
  ∃ operator, operator.wraps = true ∧ calls operator = true

/-- Whether one of the operators that are called leaves a query behind. -/
def LeavesAny (calls : SequenceOperator → Bool) : Prop :=
  ∃ operator, operator.leaves = true ∧ calls operator = true

/-- Whether a query may be wrapped as it stands: it has rows or columns that are fixed, or groups, or
an operator that wraps any query is called. -/
def Query.MayBeWrapped (calls : SequenceOperator → Bool) (q : Query) : Prop :=
  q.hasFixedColumns = true ∨ q.isGrouped = true ∨ WrapsAny calls

/-- Two queries read the same sources and have the same set operators. -/
structure Query.SameReads (query query' : Query) : Prop where
  sources : query'.sources = query.sources
  setOperators : query'.setOperators = query.setOperators

theorem Query.SameReads.readAt {query query' : Query} (h : query.SameReads query')
    (place : ReadPlace) : query'.readAt place = query.readAt place := by
  cases place <;> simp [Query.readAt, sides, h.sources, h.setOperators]

/-- Two queries are nested alike, and read the same queries. -/
structure Query.SameNesting (query query' : Query) : Prop where
  reads : ∀ place, query'.readAt place = query.readAt place
  loose : query'.isLoose = query.isLoose
  fixed : query'.hasFixedColumns = query.hasFixedColumns
  grouped : query'.isGrouped = query.isGrouped

namespace Query

variable {query query' query'' : Query} {calls : SequenceOperator → Bool}

theorem SameNesting.refl (query : Query) : query.SameNesting query := ⟨fun _ => rfl, rfl, rfl, rfl⟩

theorem SameNesting.trans (h : query.SameNesting query') (h' : query'.SameNesting query'') :
    query.SameNesting query'' where
  reads place := (h'.reads place).trans (h.reads place)
  loose := h'.loose.trans h.loose
  fixed := h'.fixed.trans h.fixed
  grouped := h'.grouped.trans h.grouped

theorem SameNesting.mayBeWrapped (h : query.SameNesting query') (hquery : query.MayBeWrapped calls) :
    query'.MayBeWrapped calls := by
  rw [MayBeWrapped, h.fixed, h.grouped]
  exact hquery

/-- What is read is read at one of the places. -/
theorem mem_reads {q : Query} {r : QueryRef} : r ∈ q.reads ↔ ∃ place, r ∈ q.readAt place := by
  have hsubqueries : r ∈ q.subqueries ↔ r ∈ q.readAt .source ∨ r ∈ q.readAt .joined := by
    simp only [subqueries, allSources, readAt, List.mem_filterMap, List.mem_flatMap]
    constructor
    · rintro ⟨source, ⟨first, hfirst, hsource⟩, hquery⟩
      obtain ⟨item, aliasName, joins⟩ := first
      rw [Source.all, List.mem_cons] at hsource
      rcases hsource with rfl | hsource
      · exact .inl ⟨_, hfirst, hquery⟩
      · exact .inr ⟨source, ⟨_, hfirst, hsource⟩, hquery⟩
    · rintro (⟨first, hfirst, hquery⟩ | ⟨source, ⟨first, hfirst, hsource⟩, hquery⟩)
      · exact ⟨first, ⟨first, hfirst, by cases first; exact List.mem_cons_self⟩, hquery⟩
      · exact ⟨source, ⟨first, hfirst, by cases first; exact List.mem_cons_of_mem _ hsource⟩, hquery⟩
  rw [reads, List.mem_append, hsubqueries]
  constructor
  · rintro ((h | h) | h)
    exacts [⟨_, h⟩, ⟨_, h⟩, ⟨.side, h⟩]
  · rintro ⟨place | place | place, h⟩
    exacts [.inl (.inl h), .inl (.inr h), .inr h]

/-- One source more without joins. -/
theorem mem_readAt_addSource (q : Query) (source : SourceItem) (place : ReadPlace) (r : QueryRef) :
    r ∈ readAt { q with sources := q.sources ++ [⟨source, none, []⟩] } place ↔
      r ∈ q.readAt place ∨ place = .source ∧ source = .query r := by
  cases place with
  | source =>
    rw [readAt, List.filterMap_append, List.mem_append, List.mem_filterMap (l := [_])]
    simp [readAt, Source.query?_eq_some]
  | joined => simp [readAt, Source.joined]
  | side => simp [readAt, sides]

/-- One joined source more. -/
theorem mem_readAt_addJoin (q : Query) {first : Source} {rest : List Source}
    (hsources : q.sources = first :: rest) (join : Join) (place : ReadPlace) (r : QueryRef) :
    r ∈ readAt { q with sources := { first with joins := first.joins ++ [join] } :: rest } place ↔
      r ∈ q.readAt place ∨ place = .joined ∧ r ∈ (Source.ofJoin join).filterMap Source.query? := by
  obtain ⟨item, aliasName, joins⟩ := first
  cases place with
  | source =>
    have hfirst : Source.query? ⟨item, aliasName, joins ++ [join]⟩ =
        Source.query? ⟨item, aliasName, joins⟩ := by cases item <;> rfl
    simp [readAt, hsources, List.filterMap_cons, hfirst]
  | joined =>
    have hone : Source.joined [join] = Source.ofJoin join := by
      rw [Source.joined, Source.joined, List.append_nil]
    simp only [readAt, hsources, List.flatMap_cons, Source.joined_append, hone,
      List.filterMap_append, List.mem_append, true_and]
    tauto
  | side => simp [readAt, sides]

/-- One side of a set operator more. -/
theorem mem_readAt_addSetOperator (q : Query) (operator : SetOperator) (place : ReadPlace)
    (r : QueryRef) :
    r ∈ readAt { q with setOperators := q.setOperators ++ [operator] } place ↔
      r ∈ q.readAt place ∨ place = .side ∧ r = operator.query := by
  cases place <;> simp [readAt, sides]

end Query

namespace Store

variable {s s' : Store} {calls : SequenceOperator → Bool} {X Y : QueryRef → Prop} {q r : QueryRef}
  {f : Query → Query}

/-! ## Tidy stores -/

/-- Queries read queries that are there.  Apart from some that are worked on, one with a loose order
is read as a source for a reason, and nowhere else; if no query reads it, an operator that leaves
queries behind is called. -/
structure Tidy (calls : SequenceOperator → Bool) (X : QueryRef → Prop) (s : Store) : Prop where
  valid : ∀ q, ∀ r ∈ (s.query q).reads, r.index < s.queries.size
  read : ∀ r, ¬X r → (s.query r).isLoose = true → ∀ q place, r ∈ (s.query q).readAt place →
    place = .source ∧ (s.query r).MayBeWrapped calls
  unread : ∀ r, ¬X r → (s.query r).isLoose = true →
    (∃ q, r ∈ (s.query q).reads) ∨ LeavesAny calls

/-- A query that is worked on in a tidy store. -/
structure Drafts (calls : SequenceOperator → Bool) (X : QueryRef → Prop) (q : QueryRef)
    (s : Store) : Prop extends Open q s where
  tidy : s.Tidy calls fun r => X r ∨ r = q

/-- A query that any query may come to read: it has no loose order. -/
structure Nestable (q : QueryRef) (s : Store) : Prop extends Open q s where
  notLoose : (s.query q).isLoose = false

/-- A query whose order is no obstacle to wrapping it. -/
def Wrappable (calls : SequenceOperator → Bool) (q : QueryRef) (s : Store) : Prop :=
  (s.query q).isLoose = true → (s.query q).MayBeWrapped calls

/-- Nothing is asked of a loose order where there is none. -/
theorem Nestable.elim {φ : Prop} (h : s.Nestable q) (hloose : (s.query q).isLoose = true) : φ :=
  absurd (h.notLoose.symm.trans hloose) Bool.noConfusion

theorem Nestable.wrappable (h : s.Nestable q) : s.Wrappable calls q := h.elim

theorem Tidy.mono (h : s.Tidy calls X) (himp : ∀ q, X q → Y q) : s.Tidy calls Y where
  valid := h.valid
  read r hr := h.read r fun hX => hr (himp r hX)
  unread r hr := h.unread r fun hX => hr (himp r hX)

theorem Tidy.drafts (h : s.Tidy calls X) (hopen : s.Open q) : s.Drafts calls X q :=
  ⟨hopen, h.mono fun _ => .inl⟩

theorem tidy_empty (calls : SequenceOperator → Bool) (X : QueryRef → Prop) :
    ({} : Store).Tidy calls X := by
  have hquery (q : QueryRef) : ({} : Store).query q = {} := query_of_le (Nat.zero_le _)
  refine ⟨fun q r hr => ?_, fun r _ hloose => ?_, fun r _ hloose => ?_⟩
  · rw [hquery] at hr
    cases hr
  · rw [hquery] at hloose
    cases hloose
  · rw [hquery] at hloose
    cases hloose

/-- A query is no longer worked on. -/
theorem Tidy.release (h : s.Tidy calls Y) (hY : ∀ r, Y r → X r ∨ r = q)
    (hread : (s.query q).isLoose = true → ∀ r place, q ∈ (s.query r).readAt place →
      place = .source ∧ (s.query q).MayBeWrapped calls)
    (hunread : (s.query q).isLoose = true →
      (∃ r, q ∈ (s.query r).reads) ∨ LeavesAny calls) : s.Tidy calls X where
  valid := h.valid
  read r hr := by
    by_cases heq : r = q
    · exact heq ▸ hread
    · exact h.read r fun hr' => (hY r hr').elim hr heq
  unread r hr := by
    by_cases heq : r = q
    · exact heq ▸ hunread
    · exact h.unread r fun hr' => (hY r hr').elim hr heq

/-- A query that nothing reads is left behind. -/
theorem Drafts.leave (h : s.Drafts calls X q)
    (hreason : (s.query q).isLoose = true → LeavesAny calls) :
    s.Tidy calls X :=
  h.tidy.release (fun _ => id)
    (fun _ r _ hr => (h.unread r (Query.mem_reads.mpr ⟨_, hr⟩)).elim)
      fun hloose => .inr (hreason hloose)

theorem Drafts.close (h : s.Drafts calls X q) (hloose : (s.query q).isLoose = false) :
    s.Tidy calls X :=
  h.leave fun htrue => absurd (hloose.symm.trans htrue) Bool.noConfusion

/-! ## While a store grows -/

/-- The queries of two stores are nested alike. -/
structure SameNesting (s s' : Store) : Prop where
  query : ∀ q, (s.query q).SameNesting (s'.query q)
  size : s.queries.size ≤ s'.queries.size

theorem SameNesting.mem_reads (h : s.SameNesting s') :
    r ∈ (s'.query q).reads ↔ r ∈ (s.query q).reads := by
  simp only [Query.mem_reads, (h.query q).reads]

/-- Properties of how queries are nested. -/
class Nested (F : Store → Prop) : Prop where
  congr : ∀ {s s' : Store}, s.SameNesting s' → F s → F s'

instance {F G : Store → Prop} [Nested F] [Nested G] : Nested fun s => F s ∧ G s :=
  ⟨fun h hs => ⟨Nested.congr h hs.1, Nested.congr h hs.2⟩⟩

instance (φ : Prop) : Nested fun _ => φ := ⟨fun _ => id⟩

instance (n : Nat) : Nested fun s => n < s.queries.size :=
  ⟨fun h hs => Nat.lt_of_lt_of_le hs h.size⟩

instance : Nested (Wrappable calls q) := ⟨fun h hs hloose =>
  (h.query q).mayBeWrapped (hs ((h.query q).loose.symm.trans hloose))⟩

instance : Nested (Open q) := ⟨fun h hs =>
  ⟨Nat.lt_of_lt_of_le hs.valid h.size, fun r hr => hs.unread r (h.mem_reads.mp hr)⟩⟩

instance : Nested (Nestable q) := ⟨fun h hs =>
  ⟨Nested.congr h hs.toOpen, (h.query q).loose.trans hs.notLoose⟩⟩

instance : Nested (Tidy calls X) := ⟨fun h hs => by
  refine ⟨fun q r hr => ?_, fun r hr hloose q place hread => ?_, fun r hr hloose => ?_⟩
  · exact Nat.lt_of_lt_of_le (hs.valid q r (h.mem_reads.mp hr)) h.size
  · rw [(h.query r).loose] at hloose
    rw [(h.query q).reads] at hread
    exact (hs.read r hr hloose q place hread).imp_right (h.query r).mayBeWrapped
  · rw [(h.query r).loose] at hloose
    exact (hs.unread r hr hloose).imp_left fun ⟨q, hq⟩ => ⟨q, h.mem_reads.mpr hq⟩⟩

instance : Nested (Drafts calls X q) := ⟨fun h hs =>
  ⟨Nested.congr h hs.toOpen, Nested.congr h hs.tidy⟩⟩

instance : Lasting (Nestable q) := ⟨fun h hs =>
  ⟨Lasting.keeps h hs.toOpen, by rw [h.query q hs.valid]; exact hs.notLoose⟩⟩

/-- Columns do not matter. -/
theorem Grows.sameNesting {E : Scalar → Prop} (h : s.Grows E q s') : s.SameNesting s' where
  query r := by
    by_cases hr : r = q
    · subst hr
      obtain ⟨new, hquery, -⟩ := h.added
      rw [hquery]
      exact ⟨fun place => by cases place <;> rfl, rfl, rfl, rfl⟩
    · rw [h.query r hr]
      exact .refl _
  size := Nat.le_of_eq h.size.symm

theorem GrowsTables.sameNesting (h : s.GrowsTables s') : s.SameNesting s' where
  query q := by
    rw [Store.query, Store.query, h.queries]
    exact .refl _
  size := Nat.le_of_eq (by rw [h.queries])

theorem sameNesting_modifyQuery (hf : (s.query q).SameNesting (f (s.query q))) :
    s.SameNesting (s.modifyQuery q f) where
  query r := by
    rcases query_modifyQuery s q r f with ⟨rfl, hquery⟩ | hquery
    · rw [hquery]
      exact hf
    · rw [hquery]
      exact .refl _
  size := Nat.le_of_eq size_modifyQuery.symm

theorem sameNesting_addQuery (s : Store) (parent : Option QueryRef) :
    s.SameNesting (s.addQuery parent).2 where
  query r := by
    by_cases hr : r.index < s.queries.size
    · rw [query_addQuery parent hr]
      exact .refl _
    · rw [query_of_le (Nat.le_of_not_lt hr)]
      rcases query_addQuery_cases s parent r with hquery | hquery
      · rw [hquery, query_of_le (Nat.le_of_not_lt hr)]
        exact .refl _
      · rw [hquery]
        exact ⟨fun place => by cases place <;> rfl, rfl, rfl, rfl⟩
  size := by simp [Store.addQuery]

/-- A new query is read by none, and is not ordered. -/
theorem Tidy.nestable_addQuery (h : s.Tidy calls X) (parent : Option QueryRef) :
    (s.addQuery parent).2.Nestable (s.addQuery parent).1 where
  valid := by simp [Store.addQuery]
  unread r hr := by
    rw [(sameNesting_addQuery s parent).mem_reads] at hr
    exact Nat.lt_irrefl _ (h.valid r _ hr)
  notLoose := by
    rw [query_addQuery_self]
    rfl

/-! ## While a query is worked on -/

theorem readAt_modifyQuery (hf : (s.query q).SameReads (f (s.query q))) (r : QueryRef)
    (place : ReadPlace) : ((s.modifyQuery q f).query r).readAt place = (s.query r).readAt place := by
  rcases query_modifyQuery s q r f with ⟨rfl, hquery⟩ | hquery
  · rw [hquery, hf.readAt]
  · rw [hquery]

theorem mem_reads_modifyQuery (hf : (s.query q).SameReads (f (s.query q))) {r t : QueryRef} :
    t ∈ ((s.modifyQuery q f).query r).reads ↔ t ∈ (s.query r).reads := by
  simp only [Query.mem_reads, readAt_modifyQuery hf]

theorem Open.revise (h : s.Open r) (hf : (s.query q).SameReads (f (s.query q))) :
    (s.modifyQuery q f).Open r where
  valid := by
    rw [size_modifyQuery]
    exact h.valid
  unread t ht := h.unread t ((mem_reads_modifyQuery hf).mp ht)

/-- The clauses of a query that is worked on are changed, but not what it reads. -/
theorem Drafts.revise (h : s.Drafts calls X q) (hf : (s.query q).SameReads (f (s.query q))) :
    (s.modifyQuery q f).Drafts calls X q := by
  have hother : ∀ r, ¬(X r ∨ r = q) → (s.modifyQuery q f).query r = s.query r := fun r hr =>
    query_modifyQuery_ne fun heq => hr (.inr heq)
  refine ⟨h.toOpen.revise hf, fun r t ht => ?_, fun r hr hloose t place hread => ?_,
    fun r hr hloose => ?_⟩
  · rw [size_modifyQuery]
    exact h.tidy.valid r t ((mem_reads_modifyQuery hf).mp ht)
  · rw [hother r hr] at hloose ⊢
    rw [readAt_modifyQuery hf] at hread
    exact h.tidy.read r hr hloose t place hread
  · rw [hother r hr] at hloose
    exact (h.tidy.unread r hr hloose).imp_left fun ⟨t, ht⟩ => ⟨t, (mem_reads_modifyQuery hf).mpr ht⟩

/-- A query that is worked on comes to have no loose order. -/
theorem Drafts.tighten (h : s.Drafts calls X q) (hf : (s.query q).SameReads (f (s.query q)))
    (hloose : (f (s.query q)).isLoose = false) :
    (s.modifyQuery q f).Drafts calls X q ∧ (s.modifyQuery q f).Nestable q := by
  refine ⟨h.revise hf, h.toOpen.revise hf, ?_⟩
  rw [query_modifyQuery_self h.valid]
  exact hloose

/-- A query comes to read others at a place.  They need not be worked on any longer if their orders
may stand there. -/
theorem Tidy.reading (h : s.Tidy calls Y) (place : ReadPlace) (new : List QueryRef)
    (hopen : s.Open q) (hY : ∀ r, Y r → X r ∨ r = q ∨ r ∈ new)
    (hnew : ∀ r ∈ new, s.Open r ∧ r ≠ q ∧ ((s.query r).isLoose = true →
      place = .source ∧ (s.query r).MayBeWrapped calls))
    (hf : ∀ place' r, r ∈ (f (s.query q)).readAt place' ↔
      r ∈ (s.query q).readAt place' ∨ place' = place ∧ r ∈ new) :
    (s.modifyQuery q f).Drafts calls X q := by
  have hplace : ∀ t place' r, r ∈ ((s.modifyQuery q f).query t).readAt place' ↔
      r ∈ (s.query t).readAt place' ∨ t = q ∧ place' = place ∧ r ∈ new := by
    intro t place' r
    by_cases ht : t = q
    · subst ht
      rw [query_modifyQuery_self hopen.valid, hf]
      simp
    · rw [query_modifyQuery_ne ht]
      simp [ht]
  have hreads : ∀ t r, r ∈ ((s.modifyQuery q f).query t).reads →
      r ∈ (s.query t).reads ∨ t = q ∧ r ∈ new := by
    intro t r hr
    obtain ⟨place', hr⟩ := Query.mem_reads.mp hr
    exact ((hplace t place' r).mp hr).imp (fun hold => Query.mem_reads.mpr ⟨_, hold⟩)
      fun hnew => ⟨hnew.1, hnew.2.2⟩
  have hother : ∀ r, ¬(X r ∨ r = q) → (s.modifyQuery q f).query r = s.query r := fun r hr =>
    query_modifyQuery_ne fun heq => hr (.inr heq)
  have hclosed : ∀ r, ¬(X r ∨ r = q) → r ∉ new → ¬Y r := fun r hr hnot hY' =>
    (hY r hY').elim (fun hX => hr (.inl hX)) fun h => h.elim (fun heq => hr (.inr heq)) hnot
  refine ⟨⟨?_, fun r hr => ?_⟩, fun t r hr => ?_, fun r hr hloose t place' hread => ?_,
    fun r hr hloose => ?_⟩
  · rw [size_modifyQuery]
    exact hopen.valid
  · rcases hreads r q hr with hr | ⟨-, hr⟩
    · exact hopen.unread r hr
    · exact (hnew q hr).2.1 rfl
  · rw [size_modifyQuery]
    rcases hreads t r hr with hr | ⟨-, hr⟩
    · exact h.valid t r hr
    · exact (hnew r hr).1.valid
  · rw [hother r hr] at hloose ⊢
    rcases (hplace t place' r).mp hread with hread | ⟨-, rfl, hmem⟩
    · refine h.read r (hclosed r hr fun hmem => ?_) hloose t place' hread
      exact (hnew r hmem).1.unread t (Query.mem_reads.mpr ⟨_, hread⟩)
    · exact (hnew r hmem).2.2 hloose
  · rw [hother r hr] at hloose
    by_cases hmem : r ∈ new
    · exact .inl ⟨q, Query.mem_reads.mpr ⟨place, (hplace q place r).mpr (.inr ⟨rfl, rfl, hmem⟩)⟩⟩
    · refine (h.unread r (hclosed r hr hmem) hloose).imp_left fun ⟨t, ht⟩ => ⟨t, ?_⟩
      obtain ⟨place', ht⟩ := Query.mem_reads.mp ht
      exact Query.mem_reads.mpr ⟨place', (hplace t place' r).mpr (.inl ht)⟩

/-- A query that is worked on becomes a source of another one. -/
theorem Drafts.addSource {inner outer : QueryRef}
    (h : s.Drafts calls (fun r => X r ∨ r = outer) inner) (hwrappable : s.Wrappable calls inner)
    (houter : s.Open outer) (hne : inner ≠ outer) :
    (s.modifyQuery outer fun query =>
      { query with sources := query.sources ++ [.ofQuery inner] }).Drafts calls X outer := by
  refine h.tidy.reading .source [inner] houter (fun r hr => ?_) (fun r hr => ?_) fun place r => ?_
  · rw [List.mem_singleton, ← or_assoc]
    exact hr
  · rw [List.mem_singleton.mp hr]
    exact ⟨h.toOpen, hne, fun hloose => ⟨rfl, hwrappable hloose⟩⟩
  · rw [List.mem_singleton]
    refine (Query.mem_readAt_addSource (s.query outer) (.query inner) place r).trans ?_
    rw [SourceItem.query.injEq, eq_comm (a := inner)]

end Store

/-! ## Lowered terms -/

/-- Whether the outcome is one row or one value. -/
def Outcome.isValue : Outcome → Bool
  | element .. | scalar => true
  | _ => false

/-- A lowered term with an outcome, whose query may still be changed. -/
structure Lowered.Drafted (calls : SequenceOperator → Bool) (X : QueryRef → Prop) (outcome : Outcome)
    (lowered : Lowered) (s : Store) : Prop where
  outcome : lowered.outcome = outcome
  draft : s.Drafts calls X lowered.query

/-- A lowered term whose query may still be changed.  That of a value has no loose order. -/
structure Lowered.Kempt (calls : SequenceOperator → Bool) (X : QueryRef → Prop) (lowered : Lowered)
    (s : Store) : Prop where
  draft : s.Drafts calls X lowered.query
  value : lowered.outcome.isValue = true → (s.query lowered.query).isLoose = false

section

variable {calls : SequenceOperator → Bool} {X : QueryRef → Prop} {outcome : Outcome}
  {lowered : Lowered} {s : Store}

theorem Lowered.Drafted.kempt (h : lowered.Drafted calls X outcome s)
    (houtcome : outcome.isValue = false) : lowered.Kempt calls X s where
  draft := h.draft
  value hvalue := absurd (houtcome.symm.trans (h.outcome ▸ hvalue)) Bool.noConfusion

/-- A term that is no value has a query of which nothing else is asked. -/
theorem Store.Drafts.kempt {q : QueryRef} {p : Projection} (h : s.Drafts calls X q)
    (houtcome : outcome.isValue = false) : Lowered.Kempt calls X ⟨q, p, outcome⟩ s :=
  Lowered.Drafted.kempt ⟨rfl, h⟩ houtcome

/-- A value has a query without a loose order. -/
theorem Store.Nestable.kempt {q : QueryRef} {p : Projection} (hdraft : s.Drafts calls X q)
    (h : s.Nestable q) : Lowered.Kempt calls X ⟨q, p, outcome⟩ s :=
  ⟨hdraft, fun _ => h.notLoose⟩

instance : Store.Nested (lowered.Drafted calls X outcome) :=
  ⟨fun h hs => ⟨hs.outcome, Store.Nested.congr h hs.draft⟩⟩

end

/-! ## Steps -/

open Store (Tidy Drafts Nestable Open Nested Lasting)

variable {α : Type} {calls : SequenceOperator → Bool} {X : QueryRef → Prop} {F : Store → Prop}
  {q : QueryRef} {lowered : Lowered} {outcome : Outcome} {ctx : LowerContext}

/-- Columns do not matter to how queries are nested. -/
theorem LowerM.Widens.nested {step : LowerM α} [Nested F] (h : step.Widens ctx q)
    (hvalid : ∀ s, F s → q.index < s.queries.size) : step.Triple ctx F fun _ => F := by
  refine .ofStores fun s hs => (h s (hvalid s hs)).mono (fun s' heq => ?_)
    fun _ s' hwidens => Nested.congr hwidens.sameNesting hs
  subst heq
  exact .refl _ q _

namespace LowerM.Triple

/-- A change of a clause that is not about reads, orders and groups. -/
theorem modifyNested [Nested F] {f : Query → Query}
    (hf : ∀ query : Query, query.SameNesting (f query)) :
    Triple ctx F (LowerM.modifyQuery q f) fun _ => F :=
  modifyQuery fun s hs => Nested.congr (Store.sameNesting_modifyQuery (hf (s.query q))) hs

theorem instantiateNested [Nested F] (entity : EntityMapping) :
    Triple ctx F (LowerM.ofStoreM entity.instantiate) fun _ => F := by
  refine (allocate (Q := fun _ => F) fun s hs =>
    Nested.congr (entity.instantiate_grows s).sameNesting hs).bind fun result => ?_
  cases result with
  | ok t => exact done t
  | error e => exact throw e

theorem addTableNested [Nested F] (table : Table) (specs : List FieldSpec) :
    Triple ctx F (LowerM.allocate fun s => s.addTable table specs) fun _ => F :=
  allocate fun s hs => Nested.congr (Store.GrowsTables.addTable s table specs).sameNesting hs

theorem tableOfNested [Nested F] (t : Term) : Triple ctx F (LowerM.tableOf t) fun _ => F := by
  fun_induction LowerM.tableOf t with
  | case1 name =>
    exact read (checked.bind fun _ => (instantiateNested _).bind fun _ => store fun _ => done _)
  | case2 inner ih => exact ih
  | case3 => exact refuse _ _

theorem addTableSourceNested [Nested F] (t : TableRef) :
    Triple ctx F (LowerM.addSource q (.ofTable t)) fun _ => F := by
  refine modifyNested fun query => ⟨fun place => ?_, rfl, rfl, rfl⟩
  cases place with
  | source => simp [Query.readAt, Source.ofTable, Source.query?]
  | joined => simp [Query.readAt, Source.ofTable, Source.joined]
  | side => rfl

theorem addWhereNested [Nested F] (condition : Condition) :
    Triple ctx F (LowerM.addWhere q condition) fun _ => F :=
  modifyNested fun _ => ⟨fun place => by cases place <;> rfl, rfl, rfl, rfl⟩

/-- A new query is read by none. -/
theorem newNestable [Nested F] (parent : Option QueryRef) :
    Triple ctx (fun s => s.Tidy calls X ∧ F s) (LowerM.newQuery parent) fun q s =>
      s.Nestable q ∧ s.Tidy calls X ∧ F s :=
  allocate fun s hs =>
    have hsame := Store.sameNesting_addQuery s parent
    ⟨hs.1.nestable_addQuery parent, Nested.congr hsame hs.1, Nested.congr hsame hs.2⟩

/-- The clauses of a query that is worked on are changed, but not what it reads. -/
theorem reviseDraft {f : Query → Query} {next : PUnit → LowerM α} {R : α → Store → Prop}
    (hf : ∀ query : Query, query.SameReads (f query))
    (hnext : (next ⟨⟩).Triple ctx (lowered.Drafted calls X outcome) R) :
    Triple ctx (lowered.Drafted calls X outcome) (LowerM.modifyQuery lowered.query f >>= next) R :=
  bind (Q := fun _ => lowered.Drafted calls X outcome) (modifyQuery fun s hs =>
    ⟨hs.outcome, hs.draft.revise (hf (s.query lowered.query))⟩) fun _ => hnext

/-! ## Queries that come to be read -/

/-- A query that is worked on is read by a new one. -/
theorem readByNew {outer : QueryRef} (hne : lowered.query ≠ outer) :
    Triple ctx (fun s => s.Nestable outer ∧ s.Drafts calls (fun r => X r ∨ r = outer) lowered.query ∧
        s.Wrappable calls lowered.query)
      (LowerM.modifyQuery outer fun q => { q with sources := q.sources ++ [.ofQuery lowered.query] })
      fun _ s => s.Nestable outer ∧ s.Drafts calls X outer ∧
        lowered.query.index < s.queries.size := by
  refine modifyQuery fun s ⟨houter, hinner, hwrappable⟩ => ?_
  have hdraft := hinner.addSource hwrappable houter.toOpen hne
  refine ⟨⟨hdraft.toOpen, ?_⟩, hdraft, ?_⟩
  · rw [Store.query_modifyQuery_self houter.valid]
    exact houter.notLoose
  · rw [Store.size_modifyQuery]
    exact hinner.valid

/-- A query that is worked on is wrapped, and the new one is worked on. -/
theorem wrapDraft : Triple ctx
    (fun s => lowered.Drafted calls X outcome s ∧ s.Wrappable calls lowered.query)
    (LowerM.wrap lowered) fun wrapped s => s.Nestable wrapped.query ∧
      wrapped.Drafted calls X outcome s := by
  refine knowing (fun s hs => hs.1.outcome) fun houtcome => store fun s₀ => ?_
  have hnew : Triple ctx
      (fun s => lowered.Drafted calls X outcome s ∧ s.Wrappable calls lowered.query)
      (LowerM.allocate fun s => s.addQuery (s₀.query lowered.query).parent) fun outer s =>
        lowered.query ≠ outer ∧ s.Nestable outer ∧ s.Drafts calls X lowered.query ∧
          s.Wrappable calls lowered.query := by
    refine allocate fun s ⟨hlowered, hwrappable⟩ => ⟨fun heq => ?_,
      hlowered.draft.tidy.nestable_addQuery _, ?_⟩
    · have hvalid := hlowered.draft.valid
      rw [heq] at hvalid
      exact Nat.lt_irrefl _ hvalid
    · exact Nested.congr (F := fun s => s.Drafts calls X lowered.query ∧
        s.Wrappable calls lowered.query) (Store.sameNesting_addQuery s _)
          ⟨hlowered.draft, hwrappable⟩
  refine hnew.bind fun outer => knowing (fun s hs => hs.1) fun hne => ?_
  refine bind (Q := fun _ s => s.Nestable outer ∧
    s.Drafts calls (fun r => X r ∨ r = outer) lowered.query ∧ s.Wrappable calls lowered.query)
      ((modifyNested fun query => ?_).pre fun s hs => ?_) fun _ => (readByNew hne).bind fun _ =>
        ((Widens.expose lowered.projection).nested fun s hs => hs.2.2).bind fun projection =>
          pure fun s hs => ⟨hs.1, houtcome, hs.2.1⟩
  · exact ⟨fun place => by cases place <;> rfl, rfl, rfl, rfl⟩
  · exact ⟨hs.2.1, ⟨hs.2.2.1.toOpen, hs.2.2.1.tidy.mono fun r hr => hr.imp_left .inl⟩, hs.2.2.2⟩

/-- A query that is worked on is wrapped if it meets a test, which it does if it has to be wrapped for
an order. -/
theorem wrapIfDraft {test : Query → Bool} (htest : ∀ query : Query, query.isLoose = true →
      test query = true → query.MayBeWrapped calls) :
    Triple ctx (lowered.Drafted calls X outcome) (LowerM.wrapIf test lowered) fun wrapped =>
      wrapped.Drafted calls X outcome := by
  refine storeAt fun s hs => ?_
  split
  · next hmeets =>
    exact wrapDraft.mono (fun s' heq => heq ▸ ⟨hs, fun hloose => htest _ hloose hmeets⟩)
      fun _ _ hs => hs.2
  · exact pure fun s' heq => heq ▸ hs

end LowerM.Triple

end SqlCompiler
