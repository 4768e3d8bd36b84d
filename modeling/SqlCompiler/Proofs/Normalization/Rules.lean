import SqlCompiler.Proofs.Normalization.Scopes

/-!
# Rules of the normal form

What each rule turns a node into.  A rule moves terms of the node to other places, and reads some
of them through names it makes up, which no term has.

Main results:

- Definition `Term.Rewrites`, theorem `Term.rewrites_of_step?`: the rules, one by one.
- Definition `Term.Unnamed`: no name made up later occurs in a term.
- Theorem `Term.Rewrites.namesFrom`: the names after a rule were there before or are made up.
-/

namespace SqlCompiler

namespace SequenceOperator

/-- Operators whose function is a condition on the elements they look at. -/
def takesCondition : SequenceOperator → Bool
  | count | longCount | first | firstOrDefault | single | singleOrDefault | any => true
  | _ => false

/-- Operators whose function says what they look at of each element. -/
def takesSelector : SequenceOperator → Bool
  | min | max | sum | average => true
  | _ => false

end SequenceOperator

namespace Term

/-! ## What rules make -/

/-- A key and an element selected first and grouped by. -/
def keyed (source : Term) (x : String) (key element : Term) (group : String) : Term :=
  (source.select (fn x (record [("Key", key), ("Element", element)]))).apply .groupBy
    [fn group (member (bound group) "Key"), fn group (member (bound group) "Element")]

/-- The element that is selected, read through the argument of the key. -/
def selectedElement (x : String) : Option (String × Term) → Term
  | some (other, body) => body.substitute other (bound x)
  | none => bound x

/-- The result of a group, read through the argument of a selector. -/
def selectedResult (k g : String) (body : Term) (row : String) : Term :=
  (body.substitute k (member (bound row) "Key")).substitute g (bound row)

theorem selectKeyFirst_eq (source : Term) (x : String) (key : Term)
    (rest : List (List String × Term)) :
    source.selectKeyFirst (([x], key) :: rest) = do
      let group ← fresh "g"
      let grouped := keyed source x key (selectedElement x (groupFunctions rest).1) group
      match (groupFunctions rest).2 with
      | some ([k, g], body) => do
        let row ← fresh "g"
        return grouped.select (fn row (selectedResult k g body row))
      | _ => return grouped := by
  rfl

/-- The members of the record of the row and its aggregates. -/
def holderMembers (aggregates : List Term) (param : String) : List (String × Term) :=
  ("Row", bound param) :: aggregates.zipIdx.map fun (t, index) => (aggregateName index, t)

/-- A filter over the record of the row and its aggregates. -/
def heldFilter (source : Term) (x : String) (condition : Term) (holder : String) : Term :=
  ((source.select (fn x (record (holderMembers condition.tableAggregates x)))).filter
    (fn holder (condition.overHolder condition.tableAggregates x holder))).select
      (fn holder (member (bound holder) "Row"))

/-- What is held for an aggregate or the row is a member of the record of both. -/
theorem held_eq_some {aggregates : List Term} {param holder : String} {node new : Term}
    (h : held aggregates param holder node = some new) :
    (∃ index aggregate, aggregates[index]? = some aggregate ∧ aggregate.beq node = true ∧
        new = member (bound holder) (aggregateName index)) ∨
      (node = bound param ∧ new = member (bound holder) "Row") := by
  unfold held at h
  split at h
  · next index hindex =>
    cases h
    obtain ⟨hlt, heq, -⟩ := List.findIdx?_eq_some_iff_getElem.mp hindex
    exact .inl ⟨index, aggregates[index], List.getElem?_eq_getElem hlt, heq, rfl⟩
  · obtain ⟨hnode, rfl⟩ := occurrence_eq_some.mp h
    exact .inr ⟨hnode, rfl⟩

/-! ## The rules -/

/-- A rule turns a node into what a step makes. -/
inductive Rewrites : Term → NameM Term → Prop where
  | quote (body : Term) : Rewrites (quote body) (return body)
  | count {owner : Term} (h : owner.isSequence = true) :
    Rewrites (member owner "Count") (return owner.apply .count [])
  | longCount {owner : Term} (h : owner.isSequence = true) :
    Rewrites (member owner "LongCount") (return owner.apply .longCount [])
  | memberOfElement {operator : SequenceOperator} (h : operator.isElement = true) (source : Term)
    (name : String) :
    Rewrites (member (call operator [source]) name) do
      let param ← fresh "e"
      return (source.select (fn param (member (bound param) name))).apply operator []
  | asQueryable (source : Term) : Rewrites (call .asQueryable [source]) (return source)
  | condition {operator : SequenceOperator} (h : operator.takesCondition = true) (source : Term)
    (x : String) (body : Term) :
    Rewrites (call operator [source, lambda [x] body])
      (return (source.filter (lambda [x] body)).apply operator [])
  | selector {operator : SequenceOperator} (h : operator.takesSelector = true) (source : Term)
    (x : String) (body : Term) :
    Rewrites (call operator [source, lambda [x] body])
      (return (source.select (lambda [x] body)).apply operator [])
  | elementAt (source index : Term) :
    Rewrites (call .elementAt [source, index]) (return (source.apply .skip [index]).apply .first [])
  | select (source : Term) (x : String) (f : Term) (y : String) (g : Term) :
    Rewrites (call .select [call .select [source, lambda [x] f], lambda [y] g])
      (return source.select (fn x (g.substitute y f)))
  | groupBy {key : Term} (h : key.isComputed = true) (source : Term) (x : String)
    (rest : List Term) :
    Rewrites (call .groupBy (source :: lambda [x] key :: rest))
      (source.selectKeyFirst (([x], key) :: rest.filterMap quotedLambda?))
  | filter {condition : Term} (h : condition.tableAggregates ≠ []) (source : Term) (x : String) :
    Rewrites (call .filter [source, lambda [x] condition]) do
      let holder ← fresh "h"
      return heldFilter source x condition holder

theorem exists_of_isLambda_one {f : Term} (h : f.isLambda 1 = true) :
    ∃ x body, f = lambda [x] body := by
  cases f with
  | lambda params body =>
    simp only [isLambda, asLambda?, beq_iff_eq] at h
    obtain ⟨x, rfl⟩ := List.length_eq_one_iff.mp h
    exact ⟨x, body, rfl⟩
  | _ => cases h

theorem rewrites_of_function {t f result : Term} {step : NameM Term}
    (h : (if f.isLambda 1 = true then some (pure result) else none) = some step)
    (hrule : ∀ x body, f = lambda [x] body → Rewrites t (pure result)) : Rewrites t step := by
  split at h
  · next hf =>
    obtain ⟨x, body, hf⟩ := exists_of_isLambda_one hf
    cases h
    exact hrule x body hf
  · cases h

theorem rewrites_of_mergeSelects? {source selector : Term} {step : NameM Term}
    (h : (mergeSelects? source selector).map pure = some step) :
    Rewrites (call .select [source, selector]) step := by
  unfold mergeSelects? at h
  split at h
  · cases h
    exact .select _ _ _ _ _
  · cases h

theorem rewrites_of_selectAggregatesFirst? {source condition : Term} {x : String}
    {step : NameM Term} (h : source.selectAggregatesFirst? x condition = some step) :
    Rewrites (call .filter [source, lambda [x] condition]) step := by
  unfold selectAggregatesFirst? at h
  dsimp only at h
  split at h
  · cases h
  · split at h
    · cases h
    · next hfound =>
      cases h
      exact .filter (by simpa using hfound) source x

/-- The rules for operators. -/
theorem rewrites_of_callStep? {operator : SequenceOperator} {args : List Term} {step : NameM Term}
    (h : callStep? operator args = some step) : Rewrites (call operator args) step := by
  unfold callStep? at h
  split at h
  case h_1 source =>
    cases h
    exact .asQueryable source
  case h_2 | h_3 | h_4 | h_5 | h_6 | h_7 | h_8 =>
    exact rewrites_of_function h (by rintro x body rfl; exact .condition rfl _ x body)
  case h_9 | h_10 | h_11 | h_12 =>
    exact rewrites_of_function h (by rintro x body rfl; exact .selector rfl _ x body)
  case h_13 source index =>
    cases h
    exact .elementAt source index
  case h_14 => exact rewrites_of_mergeSelects? h
  case h_15 source x key rest =>
    split at h
    · next hkey =>
      cases h
      exact .groupBy hkey source x rest
    · cases h
  case h_16 => exact rewrites_of_selectAggregatesFirst? h
  case h_17 => cases h

/-- The rule that applies to a node is one of these. -/
theorem rewrites_of_step? {t : Term} {step : NameM Term} (h : t.step? = some step) :
    Rewrites t step := by
  unfold step? at h
  split at h
  · cases h
    exact .quote _
  · next owner name =>
    split at h
    · next hcount =>
      simp only [Bool.and_eq_true, beq_iff_eq] at hcount
      obtain ⟨hseq, rfl⟩ := hcount
      cases h
      exact .count hseq
    · split at h
      · next hcount =>
        simp only [Bool.and_eq_true, beq_iff_eq] at hcount
        obtain ⟨hseq, rfl⟩ := hcount
        cases h
        exact .longCount hseq
      · split at h
        · split at h
          · next hop =>
            cases h
            exact .memberOfElement hop _ name
          · cases h
        · cases h
  · exact rewrites_of_callStep? h
  · cases h

/-! ## Made up names -/

/-- The name made up after some number of others. -/
def madeUp (start : String) (n : Nat) : String := start ++ "$" ++ toString n

theorem toString_injective {n n' : Nat} (h : (toString n).toList = (toString n').toList) :
    n = n' := by
  rw [Nat.toString_eq_ofList_toDigits, Nat.toString_eq_ofList_toDigits, String.toList_ofList,
    String.toList_ofList] at h
  rw [← Nat.ofDigitChars_ten_toDigits (n := n), h, Nat.ofDigitChars_ten_toDigits]

theorem madeUp_injective {s s' : String} {n n' : Nat} (hs : s.length = s'.length)
    (h : madeUp s n = madeUp s' n') : n = n' := by
  have hlist := congrArg String.toList h
  simp only [madeUp, String.toList_append, List.append_assoc] at hlist
  have hlength : s.toList.length = s'.toList.length := by
    rw [String.length_toList, String.length_toList, hs]
  exact toString_injective (List.append_cancel_left (List.append_inj hlist hlength).2)

/-- No name made up later occurs in a term. -/
def Unnamed (n : Nat) (t : Term) : Prop :=
  ∀ start ∈ ["e", "g", "h"], ∀ k, n < k → madeUp start k ∉ t.names

theorem Unnamed.child {t c : Term} {n : Nat} (h : t.Unnamed n) (hc : c ∈ t.children) :
    c.Unnamed n := by
  intro start hstart k hk hmem
  exact h start hstart k hk (names_of_mem_children hc hmem)

/-! ## Names of the parts -/

theorem mem_of_foldl_distinct {found acc : List Term} {a : Term}
    (h : a ∈ found.foldl
      (fun distinct t => if distinct.any (· == t) then distinct else distinct ++ [t]) acc) :
    a ∈ acc ∨ a ∈ found := by
  induction found generalizing acc with
  | nil => exact .inl h
  | cons t rest ih =>
    rw [List.foldl_cons] at h
    rcases ih h with h | h
    · split at h
      · exact .inl h
      · rcases List.mem_append.mp h with h | h
        · exact .inl h
        · obtain rfl := List.mem_singleton.mp h
          exact .inr List.mem_cons_self
    · exact .inr (List.mem_cons_of_mem t h)

/-- The aggregates that are selected first occur in the condition, and each folds a sequence into
one value. -/
theorem exists_of_mem_tableAggregates {t aggregate : Term} (h : aggregate ∈ t.tableAggregates) :
    aggregate.OccursIn t ∧
      ∃ operator args, aggregate = call operator args ∧ operator.isAggregate = true := by
  unfold tableAggregates at h
  rcases mem_of_foldl_distinct h with h | h
  · cases h
  · obtain ⟨node, found, hnode, htest, h⟩ := mem_of_gather h
    cases node with
    | call operator args =>
      simp only at htest
      split at htest
      · next hop =>
        cases htest
        simp only [Bool.and_eq_true] at hop
        obtain rfl := List.mem_singleton.mp h
        exact ⟨hnode, operator, args, rfl, hop.1⟩
      · cases htest
    | lambda params body =>
      cases htest
      cases h
    | _ => cases htest

/-- The functions among some terms read and bind names of the terms. -/
theorem names_of_quotedLambda? {t body : Term} {params : List String} {x : String}
    (h : t.quotedLambda? = some (params, body)) (hx : x ∈ params ∨ x ∈ body.names) :
    x ∈ t.names := by
  induction t using induction_on_children with
  | node t ih =>
    cases t with
    | lambda params body =>
      cases h
      rcases hx with hx | hx
      · exact names_of_mem_binders hx
      · exact names_of_mem_children (List.mem_singleton_self _) hx
    | quote inner =>
      have hinner : inner ∈ (quote inner).children := List.mem_singleton_self inner
      exact names_of_mem_children hinner (ih inner hinner h)
    | _ => cases h

theorem mem_of_elementFunction {functions : List (List String × Term)} {e : String × Term}
    (h : e ∈ (groupFunctions functions).1) : ([e.1], e.2) ∈ functions := by
  unfold groupFunctions at h
  split at h
  · cases h
    exact List.mem_cons_self
  · cases h

theorem mem_of_resultFunction {functions : List (List String × Term)} {r : List String × Term}
    (h : r ∈ (groupFunctions functions).2) : r ∈ functions := by
  unfold groupFunctions at h
  split at h
  · exact List.mem_cons_of_mem _ (List.mem_of_head? h)
  · exact List.mem_of_head? h

/-! ## Names after a rule -/

section

variable {n n' : Nat} {t t' : Term} {x : String}

/-- Every name of a term is one of another, or was made up on the way. -/
def NamesFrom (n n' : Nat) (t t' : Term) : Prop :=
  ∀ x ∈ t'.names, x ∈ t.names ∨ ∃ start ∈ ["e", "g", "h"], ∃ k, n < k ∧ k ≤ n' ∧ x = madeUp start k

theorem Unnamed.mono (h : t.Unnamed n) (hle : n ≤ n') : t.Unnamed n' := by
  intro start hstart k hk
  exact h start hstart k (by omega)

/-- Names made up are not made up again. -/
theorem Unnamed.of_namesFrom (h : t.Unnamed n) (hle : n ≤ n') (hnames : NamesFrom n n' t t') :
    t'.Unnamed n' := by
  intro start hstart k hk hmem
  rcases hnames _ hmem with hmem | ⟨start', hstart', k', -, hk', heq⟩
  · exact h start hstart k (by omega) hmem
  · have hlength : ∀ s ∈ ["e", "g", "h"], s.length = 1 := by decide
    have hk := madeUp_injective ((hlength start hstart).trans (hlength start' hstart').symm) heq
    omega

theorem names_substitute {g f : Term} {y : String} (h : x ∈ (g.substitute y f).names) :
    x ∈ g.names ∨ x ∈ f.names := by
  rw [substitute_eq] at h
  rcases namesBy_replaceFree h with h | ⟨node, new, hnew, h⟩
  · exact .inl h
  · obtain ⟨-, rfl⟩ := occurrence_eq_some.mp hnew
    exact .inr h

theorem names_overHolder {aggregates : List Term} {param holder : String} {condition : Term}
    (h : x ∈ (condition.overHolder aggregates param holder).names) :
    x ∈ condition.names ∨ x = holder := by
  rw [overHolder_eq] at h
  rcases namesBy_replaceFree h with h | ⟨node, new, hnew, h⟩
  · exact .inl h
  · rcases held_eq_some hnew with ⟨index, aggregate, -, -, rfl⟩ | ⟨-, rfl⟩
    · exact .inr (mem_names_bound.mp h)
    · exact .inr (mem_names_bound.mp h)

theorem names_keyed {source key element : Term} {param group : String}
    (h : x ∈ (keyed source param key element group).names) :
    x ∈ source.names ∨ x = param ∨ x ∈ key.names ∨ x ∈ element.names ∨ x = group := by
  simp only [keyed, Term.select, apply, fn, mem_names_call, mem_names_lambda,
    mem_names_record, mem_names_member, mem_names_bound, List.mem_cons, List.not_mem_nil,
    or_false, exists_eq_or_imp, exists_eq_left] at h
  grind

theorem names_selectedElement {param : String} {element : Option (String × Term)}
    (h : x ∈ (selectedElement param element).names) :
    x = param ∨ ∃ e ∈ element, x ∈ e.2.names := by
  cases element with
  | none => exact .inl (mem_names_bound.mp h)
  | some e =>
    rcases names_substitute h with h | h
    · exact .inr ⟨e, rfl, h⟩
    · exact .inl (mem_names_bound.mp h)

theorem names_selectedResult {k g row : String} {body : Term}
    (h : x ∈ (selectedResult k g body row).names) : x ∈ body.names ∨ x = row := by
  rcases names_substitute h with h | h
  · rcases names_substitute h with h | h
    · exact .inl h
    · exact .inr (mem_names_bound.mp h)
  · exact .inr (mem_names_bound.mp h)

/-- The names of a function after the key are names of the grouping. -/
theorem names_of_groupFunction {source key : Term} {param : String} {rest : List Term}
    {f : List String × Term} (hf : f ∈ rest.filterMap quotedLambda?) (hx : x ∈ f.2.names) :
    x ∈ (call .groupBy (source :: lambda [param] key :: rest)).names := by
  obtain ⟨t, ht, hquoted⟩ := List.mem_filterMap.mp hf
  rw [mem_names_call]
  exact ⟨t, by simp [ht], names_of_quotedLambda? hquoted (.inr hx)⟩

theorem namesFrom_selectKeyFirst {source key : Term} {param : String} {rest : List Term}
    (hrun : (source.selectKeyFirst (([param], key) :: rest.filterMap quotedLambda?)).run n =
      some (t', n')) :
    n ≤ n' ∧ NamesFrom n n' (call .groupBy (source :: lambda [param] key :: rest)) t' := by
  have hkeyed : ∀ x ∈ (keyed source param key
      (selectedElement param (groupFunctions (rest.filterMap quotedLambda?)).1)
      (madeUp "g" (n + 1))).names,
      x ∈ (call .groupBy (source :: lambda [param] key :: rest)).names ∨
        x = madeUp "g" (n + 1) := by
    intro x hx
    rcases names_keyed hx with hx | hx | hx | hx | hx
    · exact .inl (by simp [hx])
    · exact .inl (by simp [hx])
    · exact .inl (by simp [hx])
    · rcases names_selectedElement hx with hx | ⟨e, he, hx⟩
      · exact .inl (by simp [hx])
      · exact .inl (names_of_groupFunction (mem_of_elementFunction he) hx)
    · exact .inr hx
  rw [selectKeyFirst_eq] at hrun
  obtain ⟨result, hresult⟩ :
      ∃ result, (groupFunctions (rest.filterMap quotedLambda?)).2 = result := ⟨_, rfl⟩
  rw [hresult] at hrun
  rcases result with _ | ⟨_ | ⟨k, _ | ⟨g, _ | ⟨_, _⟩⟩⟩, body⟩
  case some.cons.cons.nil =>
    cases hrun
    refine ⟨by omega, ?_⟩
    intro x hx
    have hcases : x ∈ (keyed source param key
        (selectedElement param (groupFunctions (rest.filterMap quotedLambda?)).1)
        (madeUp "g" (n + 1))).names ∨ x = madeUp "g" (n + 2) ∨
          x ∈ (selectedResult k g body (madeUp "g" (n + 2))).names := by
      unfold madeUp
      simpa only [Term.select, apply, fn, mem_names_call, mem_names_lambda, List.mem_cons,
        List.not_mem_nil, or_false, exists_eq_or_imp, exists_eq_left] using hx
    rcases hcases with hx | hx | hx
    · rcases hkeyed x hx with hx | hx
      · exact .inl hx
      · exact .inr ⟨"g", by simp, n + 1, by omega, by omega, hx⟩
    · exact .inr ⟨"g", by simp, n + 2, by omega, by omega, hx⟩
    · rcases names_selectedResult hx with hx | hx
      · exact .inl (names_of_groupFunction (mem_of_resultFunction hresult) hx)
      · exact .inr ⟨"g", by simp, n + 2, by omega, by omega, hx⟩
  all_goals
    cases hrun
    refine ⟨by omega, ?_⟩
    intro x hx
    rcases hkeyed x hx with hx | hx
    · exact .inl hx
    · exact .inr ⟨"g", by simp, n + 1, by omega, by omega, hx⟩

theorem names_heldFilter {source condition : Term} {param holder : String}
    (h : x ∈ (heldFilter source param condition holder).names) :
    x ∈ (call .filter [source, lambda [param] condition]).names ∨ x = holder := by
  have hmembers : ∀ m ∈ holderMembers condition.tableAggregates param, x ∈ m.2.names →
      x = param ∨ x ∈ condition.names := by
    intro m hm hx
    rcases List.mem_cons.mp hm with rfl | hm
    · exact .inl (mem_names_bound.mp hx)
    · obtain ⟨⟨aggregate, index⟩, hindex, rfl⟩ := List.mem_map.mp hm
      have hmem : aggregate ∈ condition.tableAggregates :=
        List.mem_of_getElem? (List.mem_zipIdx_iff_getElem?.mp hindex)
      exact .inr (names_of_occursIn (exists_of_mem_tableAggregates hmem).1 hx)
  have hover : x ∈ (condition.overHolder condition.tableAggregates param holder).names →
      x ∈ condition.names ∨ x = holder := names_overHolder
  simp only [heldFilter, Term.select, Term.filter, apply, fn, mem_names_call, mem_names_lambda,
    mem_names_record, mem_names_member, mem_names_bound, List.mem_cons, List.not_mem_nil,
    or_false, exists_eq_or_imp, exists_eq_left] at h ⊢
  grind

/-- The names after a rule were there before, or the rule made them up. -/
theorem Rewrites.namesFrom {step : NameM Term} (h : Rewrites t step)
    (hrun : step.run n = some (t', n')) : n ≤ n' ∧ NamesFrom n n' t t' := by
  cases h with
  | quote body =>
    cases hrun
    refine ⟨Nat.le_refl n, ?_⟩
    intro x hx
    exact .inl hx
  | @count owner hseq | @longCount owner hseq =>
    cases hrun
    refine ⟨Nat.le_refl n, ?_⟩
    intro x hx
    left
    simpa [apply] using hx
  | @memberOfElement operator hop source name =>
    cases hrun
    refine ⟨Nat.le_succ n, ?_⟩
    intro x hx
    have hcases : x ∈ source.names ∨ x = madeUp "e" (n + 1) := by
      simpa [apply, Term.select, fn, madeUp] using hx
    rcases hcases with hx | hx
    · exact .inl (by simpa using hx)
    · exact .inr ⟨"e", by simp, n + 1, by omega, by omega, hx⟩
  | asQueryable source =>
    cases hrun
    refine ⟨Nat.le_refl n, ?_⟩
    intro x hx
    exact .inl (by simpa using hx)
  | @condition operator hop source x body | @selector operator hop source x body =>
    cases hrun
    refine ⟨Nat.le_refl n, ?_⟩
    intro x hx
    left
    simpa [apply, Term.filter, Term.select] using hx
  | elementAt source index =>
    cases hrun
    refine ⟨Nat.le_refl n, ?_⟩
    intro x hx
    left
    simpa [apply] using hx
  | select source x f y g =>
    cases hrun
    refine ⟨Nat.le_refl n, ?_⟩
    intro z hz
    left
    have hcases : z ∈ source.names ∨ z = x ∨ z ∈ (g.substitute y f).names := by
      simpa [apply, Term.select, fn] using hz
    have hsubstitute := names_substitute (x := z) (g := g) (f := f) (y := y)
    simp
    grind
  | groupBy hkey source x rest => exact namesFrom_selectKeyFirst hrun
  | filter hfound source x =>
    cases hrun
    refine ⟨Nat.le_succ n, ?_⟩
    intro y hy
    rcases names_heldFilter hy with hy | hy
    · exact .inl hy
    · exact .inr ⟨"h", by simp, n + 1, by omega, by omega, hy⟩

end

end Term

end SqlCompiler
