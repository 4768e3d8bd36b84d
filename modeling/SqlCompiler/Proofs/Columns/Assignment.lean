import Mathlib.Data.List.Forall2
import SqlCompiler.Proofs.Idempotence.Aliases

/-!
# Aliases that are handed out

The sources of a statement get their aliases in one row: query after query, and in each query a source
before those joined to it.  A number that is handed out is not in use then, and it is in use from then
on; all the aliases that were there are in use from the start.  So an alias that is handed out differs
from all the others, those before it and those behind it.  The columns of a query get theirs in one row
too, the queries that are read before those that read them.

Main results:

- Definition `numberAll`, Theorems `answers_numberAll` and `pairwise_numberAll`: a row of sources gets
  aliases.
- Theorem `Store.numbersSources_aliasSources`: so do the sources of a statement.
- Definition `Store.AssignsAliases`, Theorem `Store.finalizeAliases_assigns`: which aliases the sources
  and the columns of a statement get.
-/

namespace SqlCompiler

/-! ## A row of sources -/

/-- Give aliases to a row of sources: those that have one keep it, and the others are known by the name
of their table, as far as they are told so, or get a number. -/
def numberAll (used : AliasSet) : List (Bool × Option String) → List String × AliasSet
  | [] => ([], used)
  | (_, some a) :: rest =>
    let (names, used) := numberAll used rest
    (a :: names, used)
  | (true, none) :: rest =>
    let (names, used) := numberAll used rest
    (unaliased :: names, used)
  | (false, none) :: rest =>
    let (a, used) := used.nextNumbered "t"
    let (names, used) := numberAll used rest
    (a :: names, used)

theorem numberAll_append (used : AliasSet) (xs ys : List (Bool × Option String)) :
    numberAll used (xs ++ ys) =
      ((numberAll used xs).1 ++ (numberAll (numberAll used xs).2 ys).1,
        (numberAll (numberAll used xs).2 ys).2) := by
  induction xs generalizing used with
  | nil => rfl
  | cons x rest ih =>
    obtain ⟨byName, preset⟩ := x
    cases preset with
    | some a => simp only [List.cons_append, numberAll, ih]
    | none => cases byName <;> simp only [List.cons_append, numberAll, ih]

/-- An alias that fits what a source asks for, and that is not in use if it is a number. -/
def Answers (used : AliasSet) : Bool × Option String → String → Prop
  | (_, some a), name => name = a
  | (true, none), name => name = unaliased
  | (false, none), name => used.isFree name = true ∧ Text.lower name ≠ Text.lower unaliased

/-- A number never reads like the mark of a source that is known by name. -/
theorem lower_nextNumbered_ne (used : AliasSet) :
    Text.lower (used.nextNumbered "t").1 ≠ Text.lower unaliased := by
  intro hsame
  have hmark : (Text.lower unaliased).toList = ['$'] := by decide
  rcases used.firstFree_eq "t" (used.used.length + reservedWords.length + 1) 1 with h | ⟨n, h⟩
  · have hempty : Text.lower (used.nextNumbered "t").1 = "" := congrArg Text.lower h
    rw [← hsame, hempty] at hmark
    cases hmark
  · -- the letter in front makes it longer than the mark
    obtain ⟨lowered, hlength, hlowered⟩ := Text.lower_numbered "t" n
    have hnumber : (Text.lower (used.nextNumbered "t").1).toList = lowered ++ (toString n).toList :=
      (congrArg (fun name => (Text.lower name).toList) h).trans hlowered
    have hletter : lowered.length = 1 := hlength.trans (by decide)
    have hdigits : 0 < (toString n).toList.length := by
      rw [Nat.toString_eq_ofList_toDigits, String.toList_ofList]
      exact Nat.length_toDigits_pos
    rw [← hsame, hnumber] at hmark
    have hlong := congrArg List.length hmark
    rw [List.length_append, hletter, List.length_singleton] at hlong
    omega

theorem AliasSet.isFree_of_add {used : AliasSet} {added name : String}
    (h : (used.add added).isFree name = true) : used.isFree name = true := by
  rw [AliasSet.isFree_iff, ← Bool.not_eq_true] at *
  exact ⟨fun hname => h.1 ((used.contains_add added name).mpr (.inr hname)), h.2⟩

theorem Answers.of_add {used : AliasSet} {added name : String} {request : Bool × Option String}
    (h : Answers (used.add added) request name) : Answers used request name := by
  obtain ⟨byName, preset⟩ := request
  cases preset with
  | some a => exact h
  | none =>
    cases byName with
    | true => exact h
    | false => exact ⟨AliasSet.isFree_of_add h.1, h.2⟩

/-- Each source of a row gets an alias that fits what it asks for. -/
theorem answers_numberAll (used : AliasSet) (requests : List (Bool × Option String)) :
    List.Forall₂ (Answers used) requests (numberAll used requests).1 := by
  induction requests generalizing used with
  | nil => exact .nil
  | cons request rest ih =>
    obtain ⟨byName, preset⟩ := request
    cases preset with
    | some a => exact .cons rfl (ih used)
    | none =>
      cases byName with
      | true => exact .cons rfl (ih used)
      | false =>
        exact .cons ⟨used.isFree_nextNumbered "t", lower_nextNumbered_ne used⟩
          ((ih _).imp fun _ _ => Answers.of_add)

/-- Two sources of a row read differently, in any case, if one of them gets a number. -/
def Differ (x y : (Bool × Option String) × String) : Prop :=
  x.1 = (false, none) ∨ y.1 = (false, none) → Text.lower x.2 ≠ Text.lower y.2

/-- Whoever gets a number in a row, gets one that is not in use before. -/
theorem free_of_mem_numberAll {used : AliasSet} {requests : List (Bool × Option String)}
    {x : (Bool × Option String) × String} (hx : x ∈ requests.zip (numberAll used requests).1)
    (hnumber : x.1 = (false, none)) :
    used.contains x.2 = false ∧ Text.lower x.2 ≠ Text.lower unaliased := by
  have hanswer := (List.forall₂_iff_zip.mp (answers_numberAll used requests)).2 hx
  obtain ⟨request, name⟩ := x
  obtain rfl : request = (false, none) := hnumber
  exact ⟨(used.isFree_iff.mp hanswer.1).1, hanswer.2⟩

/-- A word that is not in use, and not the mark, is nobody's alias once it has been added. -/
theorem ne_of_mem_numberAll {used : AliasSet} {requests : List (Bool × Option String)} {number : String}
    (hfree : used.contains number = false) (hmark : Text.lower number ≠ Text.lower unaliased)
    (hused : ∀ request ∈ requests, ∀ a, request.2 = some a → used.contains a = true)
    {x : (Bool × Option String) × String}
    (hx : x ∈ requests.zip (numberAll (used.add number) requests).1) :
    Text.lower number ≠ Text.lower x.2 := by
  have hanswer := (List.forall₂_iff_zip.mp (answers_numberAll (used.add number) requests)).2 hx
  have hmem := (List.of_mem_zip hx).1
  obtain ⟨⟨byName, preset⟩, name⟩ := x
  cases preset with
  | some a =>
    obtain rfl : name = a := hanswer
    exact (used.lower_ne (hused _ hmem name rfl) hfree).symm
  | none =>
    cases byName with
    | true =>
      obtain rfl : name = unaliased := hanswer
      exact hmark
    | false =>
      have hin : (used.add number).contains number = true :=
        (used.contains_add number number).mpr (.inl rfl)
      exact (used.add number).lower_ne hin (free_of_mem_numberAll hx rfl).1

/-- A number that is handed out to a source of a row differs from the aliases of all the others. -/
theorem pairwise_numberAll (used : AliasSet) (requests : List (Bool × Option String))
    (hused : ∀ request ∈ requests, ∀ a, request.2 = some a → used.contains a = true) :
    (requests.zip (numberAll used requests).1).Pairwise Differ := by
  induction requests generalizing used with
  | nil => exact .nil
  | cons request rest ih =>
    obtain ⟨byName, preset⟩ := request
    obtain ⟨hfirst, hrest⟩ := List.forall_mem_cons.mp hused
    cases preset with
    | some a =>
      refine .cons (fun y hy hnumber => ?_) (ih used hrest)
      have hfree := free_of_mem_numberAll hy (hnumber.resolve_left (by simp))
      exact used.lower_ne (hfirst a rfl) hfree.1
    | none =>
      cases byName with
      | true =>
        refine .cons (fun y hy hnumber => ?_) (ih used hrest)
        exact (free_of_mem_numberAll hy (hnumber.resolve_left (by simp))).2.symm
      | false =>
        have hfree := (used.isFree_iff.mp (used.isFree_nextNumbered "t")).1
        exact .cons
          (fun y hy _ => ne_of_mem_numberAll hfree (lower_nextNumbered_ne used) hrest hy)
          (ih _ fun request h a ha =>
            (used.contains_add _ a).mpr (.inr (hrest request h a ha)))

/-! ## The sources of a query -/

/-- What a row of sources asks for. -/
def requestsOf (byName : Bool) (sources : List Source) : List (Bool × Option String) :=
  sources.map fun source => (byName, source.aliasName)

/-- A row of sources has got the aliases that are handed out to another one. -/
structure Numbers (used : AliasSet) (requests : List (Bool × Option String)) (sources : List Source)
    (after : AliasSet) : Prop where
  names : sources.map (·.aliasName) = (numberAll used requests).1.map some
  after : after = (numberAll used requests).2

theorem Numbers.nil (used : AliasSet) : Numbers used [] [] used := ⟨rfl, rfl⟩

theorem Numbers.append {used between after : AliasSet} {xs ys : List (Bool × Option String)}
    {sources rest : List Source} (h : Numbers used xs sources between)
    (h' : Numbers between ys rest after) : Numbers used (xs ++ ys) (sources ++ rest) after := by
  obtain ⟨hnames, rfl⟩ := h
  obtain ⟨hnames', rfl⟩ := h'
  refine ⟨?_, ?_⟩
  · rw [List.map_append, hnames, hnames', numberAll_append, List.map_append]
  · rw [numberAll_append]

section

variable (byName : Bool)

mutual

theorem numbers_withAliases (used : AliasSet) (source : Source) :
    Numbers used (requestsOf byName source.all) (source.withAliases byName used).1.all
      (source.withAliases byName used).2 := by
  obtain ⟨item, aliasName, joins⟩ := source
  unfold Source.withAliases
  dsimp only
  cases aliasName with
  | some a =>
    have hself (joins' : List Join) :
        Numbers used [(byName, some a)] [⟨item, some a, joins'⟩] used := ⟨rfl, rfl⟩
    exact (hself _).append (numbers_joinsWithAliases used joins)
  | none =>
    have hself (used' : AliasSet) (name : String)
        (hname : numberAll used [(byName, none)] = ([name], used')) (joins' : List Join) :
        Numbers used [(byName, none)] [⟨item, some name, joins'⟩] used' := by
      constructor <;> rw [hname]
      rfl
    dsimp only
    split
    · next h => exact (hself used unaliased (h ▸ rfl) _).append (numbers_joinsWithAliases used joins)
    · next h =>
      have hfalse : byName = false := Bool.eq_false_iff.mpr h
      exact (hself _ _ (hfalse ▸ rfl) _).append (numbers_joinsWithAliases _ joins)
termination_by structural source

theorem numbers_joinWithAliases (used : AliasSet) (join : Join) :
    Numbers used (requestsOf byName (Source.ofJoin join))
      (Source.ofJoin (join.withAliases byName used).1) (join.withAliases byName used).2 := by
  obtain ⟨kind, source, condition⟩ := join
  exact numbers_withAliases used source
termination_by structural join

theorem numbers_joinsWithAliases (used : AliasSet) (joins : List Join) :
    Numbers used (requestsOf byName (Source.joined joins))
      (Source.joined (joinsWithAliases byName used joins).1) (joinsWithAliases byName used joins).2 := by
  cases joins with
  | nil => exact .nil used
  | cons join rest =>
    rw [Source.joined, requestsOf, List.map_append]
    exact (numbers_joinWithAliases used join).append (numbers_joinsWithAliases _ rest)
termination_by structural joins

end

theorem numbers_sourcesWithAliases (used : AliasSet) (sources : List Source) :
    Numbers used (requestsOf byName (sources.flatMap Source.all))
      ((sourcesWithAliases byName used sources).1.flatMap Source.all)
      (sourcesWithAliases byName used sources).2 := by
  induction sources generalizing used with
  | nil => exact .nil used
  | cons source rest ih =>
    rw [List.flatMap_cons, requestsOf, List.map_append]
    exact (numbers_withAliases byName used source).append (ih _)

end

/-! ## The sources of a statement -/

/-- The alias of a source, once it has one. -/
def Source.name (source : Source) : String :=
  source.aliasName.getD ""

namespace Store

variable {s s' : Store} {q r root : QueryRef} {c d : ColumnRef} {rootByName : Bool}
  {queries : List QueryRef}

/-- The sources of some queries. -/
def sourcesOf (s : Store) (queries : List QueryRef) : List (QueryRef × Source) :=
  queries.flatMap fun q => (s.query q).allSources.map (q, ·)

/-- Whether the only source of a query is known by the name of its table. -/
def knownByName (s : Store) (root : QueryRef) (rootByName : Bool) (q : QueryRef) : Bool :=
  rootByName && q == root && !(s.query q).isMultiTable && (s.query q).sources.length == 1

/-- What the sources of some queries ask for. -/
def requests (s : Store) (root : QueryRef) (rootByName : Bool) (queries : List QueryRef) :
    List (Bool × Option String) :=
  (s.sourcesOf queries).map fun x => (s.knownByName root rootByName x.1, x.2.aliasName)

theorem sourcesOf_cons (s : Store) (q : QueryRef) (rest : List QueryRef) :
    s.sourcesOf (q :: rest) = (s.query q).allSources.map (q, ·) ++ s.sourcesOf rest := by
  rw [sourcesOf, sourcesOf, List.flatMap_cons]

theorem requests_cons (s : Store) (root : QueryRef) (rootByName : Bool) (q : QueryRef)
    (rest : List QueryRef) : s.requests root rootByName (q :: rest) =
      requestsOf (s.knownByName root rootByName q) (s.query q).allSources ++
        s.requests root rootByName rest := by
  rw [requests, requests, sourcesOf_cons, List.map_append, List.map_map]
  rfl

/-- The sources of some queries depend on these queries only. -/
theorem requests_congr (h : ∀ q ∈ queries, s'.query q = s.query q) :
    s'.requests root rootByName queries = s.requests root rootByName queries := by
  induction queries with
  | nil => rfl
  | cons q rest ih =>
    obtain ⟨hq, hrest⟩ := List.forall_mem_cons.mp h
    rw [requests_cons, requests_cons, ih hrest, knownByName, knownByName, hq]

/-- Only the query whose turn it is changes. -/
theorem query_aliasSourcesOf_ne (byName : Bool) (used : AliasSet) (s : Store) (h : r ≠ q) :
    (aliasSourcesOf byName (used, s) q).2.query r = s.query r :=
  query_modifyQuery_ne h

theorem query_foldl_aliasSourcesOf (h : r ∉ queries) (state : AliasSet × Store) :
    (queries.foldl (fun state q => aliasSourcesOf (rootByName && q == root) state q)
      state).2.query r = state.2.query r := by
  induction queries generalizing state with
  | nil => rfl
  | cons q rest ih =>
    rw [List.mem_cons, not_or] at h
    obtain ⟨used, s⟩ := state
    rw [List.foldl_cons, ih h.2, query_aliasSourcesOf_ne _ used s h.1]

/-- The sources of a query get the aliases that are handed out to them. -/
theorem numbers_aliasSourcesOf (root : QueryRef) (rootByName : Bool) (used : AliasSet) (s : Store)
    (q : QueryRef) :
    Numbers used (requestsOf (s.knownByName root rootByName q) (s.query q).allSources)
      ((aliasSourcesOf (rootByName && q == root) (used, s) q).2.query q).allSources
      (aliasSourcesOf (rootByName && q == root) (used, s) q).1 := by
  have hnumbers := numbers_sourcesWithAliases (s.knownByName root rootByName q) used
    (s.query q).sources
  by_cases hvalid : q.index < s.queries.size
  · have hquery : ((aliasSourcesOf (rootByName && q == root) (used, s) q).2.query q).sources =
        (sourcesWithAliases (s.knownByName root rootByName q) used (s.query q).sources).1 :=
      congrArg Query.sources (query_modifyQuery_self hvalid)
    rw [Query.allSources, Query.allSources, hquery]
    exact hnumbers
  · have hnone : s.query q = {} := query_of_le (Nat.le_of_not_lt hvalid)
    unfold aliasSourcesOf
    dsimp only
    rcases query_modifyQuery s q q _ with ⟨-, hquery⟩ | hquery
    · rw [hquery, hnone]
      exact .nil used
    · rw [hquery, hnone]
      exact .nil used

/-- The sources of some queries get the aliases that are handed out to them in one row. -/
theorem numbers_foldl_aliasSourcesOf (hnodup : queries.Nodup) (root : QueryRef) (rootByName : Bool)
    (used : AliasSet) (s : Store) :
    Numbers used (s.requests root rootByName queries)
      (((queries.foldl (fun state q => aliasSourcesOf (rootByName && q == root) state q)
        (used, s)).2.sourcesOf queries).map (·.2))
      (queries.foldl (fun state q => aliasSourcesOf (rootByName && q == root) state q)
        (used, s)).1 := by
  induction queries generalizing used s with
  | nil => exact .nil used
  | cons q rest ih =>
    obtain ⟨hq, hrest⟩ := List.nodup_cons.mp hnodup
    obtain ⟨⟨between, s₁⟩, hstep⟩ : ∃ state,
      state = aliasSourcesOf (rootByName && q == root) (used, s) q := ⟨_, rfl⟩
    have hnumbers := numbers_aliasSourcesOf root rootByName used s q
    rw [← hstep] at hnumbers
    have hothers : ∀ r ∈ rest, s₁.query r = s.query r := fun r hr => by
      have hne : r ≠ q := fun heq => hq (heq ▸ hr)
      exact (congrArg (·.2.query r) hstep).trans (query_aliasSourcesOf_ne _ used s hne)
    have hlater := ih hrest between s₁
    rw [requests_congr hothers] at hlater
    rw [List.foldl_cons, ← hstep, requests_cons, sourcesOf_cons, List.map_append, List.map_map,
      query_foldl_aliasSourcesOf hq]
    have hsources : (s₁.query q).allSources.map ((·.2) ∘ fun source => (q, source)) =
        (s₁.query q).allSources := List.map_id _
    rw [hsources]
    exact hnumbers.append hlater

/-- The aliases that the sources of some queries have are in use from the start. -/
theorem contains_sourceAliases (s : Store) (queries : List QueryRef) :
    ∀ request ∈ s.requests root rootByName queries, ∀ a, request.2 = some a →
      (s.sourceAliases queries).contains a = true := by
  have hfold : s.sourceAliases queries =
      ((s.sourcesOf queries).map fun x => x.2.aliasName).foldl
        (fun used a => (a.map used.add).getD used) {} := by
    rw [sourceAliases, sourcesOf, List.foldl_map, List.foldl_flatMap]
    simp only [List.foldl_map]
  intro request hrequest a ha
  obtain ⟨x, hx, rfl⟩ := List.mem_map.mp hrequest
  rw [hfold, AliasSet.contains_foldl_add]
  exact .inl ⟨a, List.mem_map.mpr ⟨x, hx, ha⟩, rfl⟩

/-- The source of a query keeps its alias, or gets one: the mark where it is known by the name of its
table, and else a word that is not reserved. -/
def FitsSource (byName : QueryRef → Bool) (before after : QueryRef × Source) : Prop :=
  match before.2.aliasName with
  | some a => after.2.aliasName = some a
  | none => ∃ a, after.2.aliasName = some a ∧
      if byName before.1 then a = unaliased else isReserved a = false

/-- A source of a query that gets a number. -/
def GetsNumber (byName : QueryRef → Bool) (source : QueryRef × Source) : Prop :=
  source.2.aliasName = none ∧ byName source.1 = false

/-- The sources of some queries have got aliases.  Each of them fits, and where one of two sources got a
number, they have different aliases in any case. -/
structure NumbersSources (s s' : Store) (queries : List QueryRef) (byName : QueryRef → Bool) :
    Prop where
  same : (s'.sourcesOf queries).map (fun x => (x.1, x.2.content)) =
    (s.sourcesOf queries).map fun x => (x.1, x.2.content)
  fits : List.Forall₂ (FitsSource byName) (s.sourcesOf queries) (s'.sourcesOf queries)
  distinct : ((s.sourcesOf queries).zip (s'.sourcesOf queries)).Pairwise fun x y =>
    GetsNumber byName x.1 ∨ GetsNumber byName y.1 → ∀ a b, x.2.2.aliasName = some a →
      y.2.2.aliasName = some b → Text.lower a ≠ Text.lower b

theorem NumbersSources.congr {s'' : Store} {byName : QueryRef → Bool}
    (h : s.NumbersSources s' queries byName) (hsame : s''.sourcesOf queries = s'.sourcesOf queries) :
    s.NumbersSources s'' queries byName := by
  obtain ⟨same, fits, distinct⟩ := h
  constructor
  · rw [hsame, same]
  · rwa [hsame]
  · rwa [hsame]

/-- An alias that is handed out to a source fits it. -/
theorem fitsSource_of_answers {used : AliasSet} {byName : QueryRef → Bool}
    {before after : QueryRef × Source}
    (h : Answers used (byName before.1, before.2.aliasName) after.2.name)
    (hafter : after.2.aliasName = some after.2.name) : FitsSource byName before after := by
  unfold FitsSource
  cases halias : before.2.aliasName with
  | some a =>
    rw [halias] at h
    rw [hafter, show after.2.name = a from h]
  | none =>
    rw [halias] at h
    refine ⟨after.2.name, hafter, ?_⟩
    cases hbyName : byName before.1 with
    | true =>
      rw [hbyName] at h
      exact h
    | false =>
      rw [hbyName] at h
      exact (used.isFree_iff.mp h.1).2

theorem map_content_sourcesOf (s : Store) (queries : List QueryRef) :
    (s.sourcesOf queries).map (fun x => (x.1, x.2.content)) =
      queries.flatMap fun q => ((s.query q).allSources.map Source.content).map (q, ·) := by
  rw [sourcesOf, List.map_flatMap]
  simp only [List.map_map]
  rfl

/-- When the sources of some queries get aliases, the numbers among them are new. -/
theorem numbersSources_aliasSources (s : Store) (hnodup : queries.Nodup) (root : QueryRef)
    (rootByName : Bool) : s.NumbersSources (s.aliasSources queries root rootByName) queries
      (s.knownByName root rootByName) := by
  obtain ⟨used, hused⟩ : ∃ used, used = s.sourceAliases queries := ⟨_, rfl⟩
  obtain ⟨s', hs'⟩ : ∃ s', s' = s.aliasSources queries root rootByName := ⟨_, rfl⟩
  have hnumbers := (numbers_foldl_aliasSourcesOf hnodup root rootByName used s).names
  have hnames : (s'.sourcesOf queries).map (fun x => x.2.aliasName) =
      (numberAll used (s.requests root rootByName queries)).1.map some := by
    rw [← hnumbers, hs', hused, List.map_map]
    rfl
  have hanswers := answers_numberAll used (s.requests root rootByName queries)
  have hdiffer := pairwise_numberAll used (s.requests root rootByName queries)
    (hused ▸ contains_sourceAliases s queries)
  have hword : (numberAll used (s.requests root rootByName queries)).1 =
      (s'.sourcesOf queries).map fun x => x.2.name := by
    have hget := congrArg (List.map fun a : Option String => a.getD "") hnames
    rw [List.map_map, List.map_map] at hget
    exact (List.map_id _).symm.trans hget.symm
  have hsome : ∀ x ∈ s'.sourcesOf queries, x.2.aliasName = some x.2.name := by
    rw [hword, List.map_map] at hnames
    exact List.map_inj_left.mp hnames
  rw [← hs']
  constructor
  · have hcontent := (namesSources_aliasSources s queries root rootByName).sources
    rw [← hs'] at hcontent
    rw [map_content_sourcesOf, map_content_sourcesOf]
    simp only [hcontent]
  · rw [hword, requests, List.forall₂_map_left_iff, List.forall₂_map_right_iff] at hanswers
    obtain ⟨hlength, hanswers⟩ := List.forall₂_iff_zip.mp hanswers
    exact List.forall₂_iff_zip.mpr ⟨hlength, fun {before after} hzip =>
      fitsSource_of_answers (hanswers hzip) (hsome after (List.of_mem_zip hzip).2)⟩
  · rw [hword, requests, List.zip_map, List.pairwise_map] at hdiffer
    refine hdiffer.imp fun {x y} hxy hnumber a b ha hb => ?_
    have hname (source : QueryRef × Source) (h : GetsNumber (s.knownByName root rootByName) source) :
        (s.knownByName root rootByName source.1, source.2.aliasName) = (false, none) := by
      rw [h.1, h.2]
    have hne := hxy (hnumber.imp (hname x.1) (hname y.1))
    simpa [Source.name, ha, hb] using hne

/-! ## The columns of a statement -/

/-- The last of some queries that lists a column. -/
def ListsLast (s : Store) (queries : List QueryRef) (q : QueryRef) (c : ColumnRef) : Prop :=
  ∃ before after, queries = before ++ q :: after ∧ c ∈ (s.query q).columns ∧
    ∀ r ∈ after, c ∉ (s.query r).columns

/-- Where queries have columns of their own, the query of a column is the last one that lists it. -/
theorem Owned.listsLast (hs : s.Owned) (hnodup : queries.Nodup) (hq : q ∈ queries)
    (hc : c ∈ (s.query q).columns) : s.ListsLast queries q c := by
  obtain ⟨before, after, rfl⟩ := List.append_of_mem hq
  refine ⟨before, after, rfl, hc, fun r hr hcr => ?_⟩
  obtain rfl : r = q := (hs.parent r c hcr).symm.trans (hs.parent q c hc)
  exact (List.nodup_cons.mp (List.nodup_append.mp hnodup).2.1).1 hr

/-- An alias that a column gets in the turn of its query is the alias of no other column of it. -/
theorem not_clash_foldl {queries : List QueryRef} (hlast : s.ListsLast queries q c)
    (hnone : (s.column c).aliasName = none) (hd : d ∈ (s.query q).columns) (hne : c ≠ d) :
    ¬(queries.reverse.foldl aliasColumns s).Clash c d := by
  obtain ⟨before, after, rfl, hc, hafter⟩ := hlast
  obtain ⟨s₁, hs₁⟩ : ∃ s₁, s₁ = after.reverse.foldl aliasColumns s := ⟨_, rfl⟩
  obtain ⟨hnames₁, hothers₁, -⟩ := namesColumns_foldl s after.reverse
  obtain ⟨hnames₃, -, -⟩ := namesColumns_foldl (s₁.aliasColumns q) before.reverse
  rw [← hs₁] at hnames₁ hothers₁
  have hlabels := labelsAmong_aliasColumns s₁ q
  rw [hnames₁.query] at hlabels
  have hcolumn : s₁.column c = s.column c :=
    hothers₁ c fun r hr => hafter r (List.mem_reverse.mp hr)
  rw [List.reverse_append, List.reverse_cons, List.append_assoc, List.foldl_append, ← hs₁,
    List.singleton_append, List.foldl_cons]
  intro hclash
  -- the columns of the query have their aliases after its turn, and keep them
  have hbefore : (s₁.aliasColumns q).Clash c d := by
    have hsame {e : ColumnRef} {a : String} (he : e ∈ (s.query q).columns)
        (ha : ((before.reverse.foldl aliasColumns (s₁.aliasColumns q)).column e).aliasName = some a) :
        ((s₁.aliasColumns q).column e).aliasName = some a := by
      have hvalid : e.index < s₁.columns.size := by
        by_contra hinvalid
        rw [column_of_le (by rw [hnames₃.size, hlabels.size]; exact Nat.le_of_not_lt hinvalid)] at ha
        cases ha
      obtain ⟨b, hb⟩ := Option.isSome_iff_exists.mp (hlabels.given e he hvalid)
      rw [hb, ← hnames₃.kept e b hb, ha]
    obtain ⟨a, b, ha, hb, hlower⟩ := hclash
    exact ⟨a, b, hsame hc ha, hsame hd hb, hlower⟩
  obtain ⟨a, -, ha, -⟩ := hlabels.no_clash c hc d hd hne hbefore
  rw [hcolumn, hnone] at ha
  cases ha

/-! ## All aliases of a statement -/

/-- The sources and columns of a statement have got aliases.  Its queries list the same columns and read
the same sources; what had an alias keeps it.  The sources get numbers that are new in the whole
statement.  A column gets an alias that no other column has in the query that it is named for, the last
one that lists it: where queries have columns of their own, it is in no other query (see
`Owned.listsLast`). -/
structure AssignsAliases (s s' : Store) (t : StatementRef) : Prop where
  queries : s'.statementQueries t = s.statementQueries t
  sources : s.NumbersSources s' (s.statementQueries t)
    (s.knownByName (s.statement t).query (namesTargetDirectly (s.statement t).body))
  columns : ∀ q, (s'.query q).columns = (s.query q).columns
  kept : ∀ c a, (s.column c).aliasName = some a → (s'.column c).aliasName = some a
  named : ∀ q ∈ s.statementQueries t, ∀ c ∈ (s.query q).columns, c.index < s.columns.size →
    (s'.column c).aliasName.isSome = true
  distinct : ∀ q c, s.ListsLast (s.statementQueries t) q c → (s.column c).aliasName = none →
    ∀ d ∈ (s.query q).columns, c ≠ d → ¬s'.Clash c d

/-- Every source and every column of a statement has an alias in the end, an alias that was there is
kept, one that is new differs from the others, and nothing more is handed out to what has them all. -/
theorem finalizeAliases_assigns (s : Store) (t : StatementRef) :
    s.AssignsAliases (s.finalizeAliases t) t ∧
      (s.finalizeAliases t).finalizeAliases t = s.finalizeAliases t := by
  have hnames := namesColumns_finalizeAliases s t
  have hqueries : (s.finalizeAliases t).statementQueries t = s.statementQueries t := by
    rw [hnames.statementQueries, (namesSources_withNamedSources s t).statementQueries]
  refine ⟨⟨hqueries, ?_, columns_finalizeAliases s t, fun c a ha => ?_,
    fun q hq c hc => isSome_finalizeAliases s t hq hc, fun q c hlast hnone d hd hne => ?_⟩, ?_⟩
  · have hnumbers := numbersSources_aliasSources s (nodup_statementQueries s t) (s.statement t).query
      (namesTargetDirectly (s.statement t).body)
    have hsame : (s.finalizeAliases t).sourcesOf (s.statementQueries t) =
        (s.withNamedSources t).sourcesOf (s.statementQueries t) := by
      simp only [sourcesOf, hnames.query]
    exact hnumbers.congr hsame
  · exact hnames.kept c a (by rwa [column_withNamedSources])
  · obtain ⟨before, after, heq, hc, hafter⟩ := hlast
    rw [finalizeAliases_eq]
    refine not_clash_foldl ⟨before, after, heq, by simpa using hc, fun r hr => ?_⟩
      (by simpa using hnone) (by simpa using hd) hne
    simpa using hafter r hr
  · refine finalizeAliases_eq_self (fun q hq => ?_) fun q hq c hc hvalid => ?_
    · exact haveAliases_finalizeAliases (hqueries ▸ hq)
    · rw [hqueries] at hq
      rw [columns_finalizeAliases] at hc
      rw [hnames.size, size_withNamedSources] at hvalid
      exact isSome_finalizeAliases s t hq hc hvalid

end Store

end SqlCompiler
