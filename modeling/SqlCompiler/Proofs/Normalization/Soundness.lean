import Mathlib.Data.List.Nodup
import SqlCompiler.Proofs.Normalization.Meaning
import SqlCompiler.Proofs.Normalization.Rules

/-!
# Rules keep meanings

Each rule of the normal form turns a node into a term of the same meaning, as long as the terms it
moves are not bound differently where they land.

Main results:

- Definition `Term.Scoped`: no name is captured when a rule is applied to a node.
- Theorem `Term.Rewrites.meaning_eq`: a rule applied to a scoped node keeps its meaning.
-/

namespace SqlCompiler

namespace Term

/-! ## Scoped nodes -/

/-- Whether a term may be a function rather than a datum. -/
def mayBeFunction : Term → Bool
  | lambda .. | quote _ | call .asQueryable _ => true
  | _ => false

/-- Whether a term is one of some aggregates or the row. -/
def isHeld (aggregates : List Term) (param : String) (node : Term) : Bool :=
  (held aggregates param "" node).isSome

/-- No name is captured when two selectors become one: the outer one does not read the argument of
the inner one from outside, and no function in it binds a name of what it is given. -/
def ScopedSelects (x : String) (f : Term) (y : String) (g : Term) : Prop :=
  f.mayBeFunction = false ∧ (x = y ∨ x ∉ g.freeNames) ∧ g.Hygienic y (occurrence y f)

/-- No name is captured when a key and an element are selected from the same row, and the result is
made of two different things. -/
def ScopedGroups (x : String) (element : Option (String × Term))
    (result : Option (List String × Term)) : Prop :=
  (∀ e ∈ element, (x = e.1 ∨ x ∉ e.2.freeNames) ∧ e.2.Hygienic e.1 (occurrence e.1 (bound x))) ∧
    ∀ r ∈ result, r.1.Nodup

/-- No name of an aggregate of a condition is captured where the aggregate occurs. -/
def ScopedAggregates (x : String) (condition : Term) : Prop :=
  ∀ l ∈ condition.landings x (isHeld condition.tableAggregates x), ∀ b ∈ l.binders,
    b ∉ l.node.freeNames

/-- No name is captured when the rule for a node is applied. -/
def Scoped : Term → Prop
  | call .select [call .select [_, lambda [x] f], lambda [y] g] => ScopedSelects x f y g
  | call .groupBy (_ :: lambda [x] _ :: rest) =>
    ScopedGroups x (groupFunctions (rest.filterMap quotedLambda?)).1
      (groupFunctions (rest.filterMap quotedLambda?)).2
  | call .filter [_, lambda [x] condition] => ScopedAggregates x condition
  | _ => True

section

variable {x y : String} {f g condition : Term} {element : Option (String × Term)}
  {result : Option (List String × Term)}

instance : Decidable (ScopedSelects x f y g) :=
  inferInstanceAs (Decidable (_ ∧ _ ∧ _))

instance : Decidable (ScopedGroups x element result) :=
  inferInstanceAs (Decidable ((∀ e ∈ element, _) ∧ _))

instance : Decidable (ScopedAggregates x condition) :=
  inferInstanceAs (Decidable (∀ l ∈ condition.landings x _, _))

end

instance : DecidablePred Scoped := by
  intro t
  unfold Scoped
  split <;> infer_instance

/-! ## Meanings of the parts -/

section

variable {V : Type} {I : Reading V} {ρ : Scope V}

theorem meaning_select (source : Term) (x : String) (body : Term) :
    (source.select (fn x body)).meaning I ρ =
      .datum (.sequence ((source.meaning I ρ).elements.map fun d =>
        (body.meaning I (ρ.set x d)).data)) :=
  rfl

theorem meaning_filter (source : Term) (x : String) (body : Term) :
    (source.filter (fn x body)).meaning I ρ =
      .datum (.sequence ((source.meaning I ρ).elements.filter fun d =>
        I.holds (body.meaning I (ρ.set x d)).data)) :=
  rfl

/-- A term that is no function means a datum. -/
theorem exists_meaning_eq_datum {t : Term} (h : t.mayBeFunction = false) :
    ∃ d, t.meaning I ρ = .datum d := by
  cases t with
  | call operator args =>
    apply I.exists_apply_eq_datum
    rintro rfl
    cases h
  | lambda _ _ | quote _ => cases h
  | _ => exact ⟨_, rfl⟩

/-- `AsQueryable` of one sequence does not stay. -/
theorem length_ne_one_of_asQueryable {args : List Term}
    (h : (call .asQueryable args).step? = none) : (meanings I args ρ).length ≠ 1 := by
  rw [meanings_eq, List.length_map]
  intro hlength
  obtain ⟨source, rfl⟩ := List.length_eq_one_iff.mp hlength
  cases h

/-- What is a sequence for sure means one. -/
theorem exists_meaning_eq_sequence {t : Term} (h : t.isSequence = true) (hstep : t.step? = none) :
    ∃ elements, t.meaning I ρ = .datum (.sequence elements) := by
  cases t with
  | table source => exact ⟨_, rfl⟩
  | call operator args =>
    apply I.exists_apply_eq_sequence h
    rintro rfl
    exact length_ne_one_of_asQueryable hstep
  | _ => cases h

/-- What an operator picks of some elements. -/
def pick (operator : SequenceOperator) (elements : List (Datum V)) : Datum V :=
  match operator with
  | .single | .singleOrDefault => Datum.onlyOf elements
  | _ => Datum.firstOf elements

theorem meaning_of_isElement {operator : SequenceOperator} (h : operator.isElement = true)
    (source : Term) :
    (call operator [source]).meaning I ρ =
      .datum (pick operator (source.meaning I ρ).elements) := by
  cases operator <;> first | rfl | cases h

/-- What is picked of the members is the member of what is picked. -/
theorem member_pick (operator : SequenceOperator) (elements : List (Datum V)) (name : String) :
    I.member (pick operator elements) name = pick operator (elements.map (I.member · name)) := by
  unfold pick
  split
  all_goals rcases elements with _ | ⟨d, _ | ⟨e, rest⟩⟩ <;> rfl

theorem meaning_select_member (source : Term) (x name : String) :
    (source.select (fn x (member (bound x) name))).meaning I ρ =
      .datum (.sequence ((source.meaning I ρ).elements.map (I.member · name))) := by
  rw [meaning_select]
  simp only [meaning, Denoted.data, Scope.set_self]

/-- An argument that is bound anew, or not read, may be given any datum before. -/
theorem meaning_set_set {t : Term} {x y : String} {d e : Datum V} (h : x = y ∨ x ∉ t.freeNames) :
    t.meaning I ((ρ.set x d).set y e) = t.meaning I (ρ.set y e) := by
  apply meaning_congr
  intro z hz
  by_cases hy : z = y
  · rw [hy, Scope.set_self, Scope.set_self]
  · rw [Scope.set_of_ne hy, Scope.set_of_ne hy]
    apply Scope.set_of_ne
    rintro rfl
    rcases h with h | h
    · exact hy h
    · exact h hz

/-- Where an outer selector is given the term of an inner one, it gives what it gives for its
datum. -/
theorem meaning_substitute_selector {x y : String} {f g : Term} {d : Datum V}
    (h : ScopedSelects x f y g) :
    (g.substitute y f).meaning I (ρ.set x d) =
      g.meaning I (ρ.set y (f.meaning I (ρ.set x d)).data) := by
  obtain ⟨hdatum, hread, hyg⟩ := h
  obtain ⟨e, he⟩ := exists_meaning_eq_datum (I := I) (ρ := ρ.set x d) hdatum
  rw [meaning_substitute hyg he, meaning_set_set hread, he]
  rfl

end

/-! ## Computed keys -/

section

variable {V : Type} {I : Reading V} {ρ : Scope V} {n n' : Nat} {t' : Term}

/-- A function of a term with what it makes of data. -/
def applied (I : Reading V) (ρ : Scope V) (f : List String × Term) :
    Nat × (List (Datum V) → Datum V) :=
  (f.1.length, fun ds => (f.2.meaning I (Scope.bind f.1 ds ρ)).data)

/-- What means a function, after the rules have been applied, is written as one. -/
theorem asFunction?_meaning {t : Term} (h : t.step? = none) :
    (t.meaning I ρ).asFunction? = t.quotedLambda?.map (applied I ρ) := by
  cases t with
  | lambda params body => rfl
  | quote body => cases h
  | call operator args =>
    have hdatum : ∃ d, (call operator args).meaning I ρ = .datum d := by
      by_cases hop : operator = .asQueryable
      · subst hop
        have hlength := length_ne_one_of_asQueryable (I := I) (ρ := ρ) h
        have hsequence : ∃ elements, (call .asQueryable args).meaning I ρ =
            .datum (.sequence elements) := I.exists_apply_eq_sequence rfl fun _ => hlength
        obtain ⟨elements, h⟩ := hsequence
        exact ⟨_, h⟩
      · exact I.exists_apply_eq_datum _ hop
    obtain ⟨d, hd⟩ := hdatum
    rw [hd]
    rfl
  | _ => rfl

theorem filterMap_asFunction? {terms : List Term} (h : ∀ t ∈ terms, t.step? = none) :
    (meanings I terms ρ).filterMap Denoted.asFunction? =
      (terms.filterMap quotedLambda?).map (applied I ρ) := by
  rw [meanings_eq, List.filterMap_map, List.map_filterMap]
  apply List.filterMap_congr
  intro t ht
  exact asFunction?_meaning (h t ht)

theorem groupFunctions_applied (functions : List (List String × Term)) :
    Reading.groupFunctions (functions.map (applied I ρ)) =
      ((groupFunctions functions).1.map fun f => (applied I ρ ([f.1], f.2)).2,
        (groupFunctions functions).2.map (applied I ρ)) := by
  rcases functions with _ | ⟨⟨params, body⟩, rest⟩
  · rfl
  · rcases params with _ | ⟨x, _ | ⟨y, more⟩⟩
    · rfl
    · simp [groupFunctions, Reading.groupFunctions, applied]
    · simp [groupFunctions, Reading.groupFunctions, applied]

/-- The groups of a key and an element that were selected first. -/
theorem meaning_keyed (source : Term) (x : String) (key element : Term) (group : String) :
    (keyed source x key element group).meaning I ρ =
      .datum (.sequence ((I.groups ((source.meaning I ρ).elements.map fun d =>
        ((key.meaning I (ρ.set x d)).data, (element.meaning I (ρ.set x d)).data))).map
          (Reading.resultOf none))) := by
  have hgroups : (keyed source x key element group).meaning I ρ =
      .datum (.sequence (I.groupBy
        ((source.select (fn x (record [("Key", key), ("Element", element)]))).meaning I ρ).elements
        (fun ds => I.member (Scope.bind [group] ds ρ group) "Key")
        [(1, fun ds => I.member (Scope.bind [group] ds ρ group) "Element")])) := rfl
  rw [hgroups, meaning_select]
  simp [Reading.groupBy, Reading.groupFunctions, Reading.elementOf, Denoted.elements, Denoted.data,
    Datum.elements, Scope.bind, Scope.set_self, meaning, meaningsOfMembers, Reading.member,
    Members.ofList, Members.insert, Members.get?, Function.comp_def]

theorem data_selectedElement {x : String} {element : Option (String × Term)} {d : Datum V}
    (h : ∀ e ∈ element, (x = e.1 ∨ x ∉ e.2.freeNames) ∧
      e.2.Hygienic e.1 (occurrence e.1 (bound x))) :
    ((selectedElement x element).meaning I (ρ.set x d)).data =
      Reading.elementOf (element.map fun f => (applied I ρ ([f.1], f.2)).2) d := by
  cases element with
  | none => exact ρ.set_self x d
  | some e =>
    obtain ⟨hread, hyg⟩ := h e rfl
    have hrow : (bound x).meaning I (ρ.set x d) = .datum d :=
      congrArg Denoted.datum (ρ.set_self x d)
    have hmeaning : (selectedElement x (some e)).meaning I (ρ.set x d) =
        e.2.meaning I (ρ.set e.1 d) := by
      rw [selectedElement, meaning_substitute hyg hrow, meaning_set_set hread]
    exact congrArg Denoted.data hmeaning

/-- A new name may be put in the place of the arguments of a result. -/
theorem hygienic_selectedResult {k g row : String} {body : Term} (hbody : row ∉ body.names) :
    body.Hygienic k (occurrence k (member (bound row) "Key")) ∧
      (body.substitute k (member (bound row) "Key")).Hygienic g (occurrence g (bound row)) := by
  have hfree : row ∉ body.boundNames := fun h => hbody (names_of_boundNames h)
  constructor
  · apply hygienic_occurrence
    rintro b hb
    simp only [freeNames, List.mem_singleton]
    rintro rfl
    exact hfree hb
  · apply hygienic_occurrence
    intro b hb
    simp only [freeNames, List.mem_singleton]
    rintro rfl
    rw [substitute_eq] at hb
    rcases namesBy_replaceFree hb with hb | ⟨node, new, hnew, hb⟩
    · exact hfree hb
    · obtain ⟨-, rfl⟩ := occurrence_eq_some.mp hnew
      cases hb

theorem meaning_selectedResult {k g row : String} {body : Term} {key : Datum V}
    {elements : List (Datum V)} (hne : k ≠ g) (hbody : row ∉ body.names) (hg : row ≠ g) :
    (selectedResult k g body row).meaning I (ρ.set row (.group key elements)) =
      body.meaning I (Scope.bind [k, g] [key, .group key elements] ρ) := by
  obtain ⟨hkey, hgroup⟩ := hygienic_selectedResult (k := k) (g := g) hbody
  have hrow : (bound row).meaning I (ρ.set row (.group key elements)) =
      .datum (.group key elements) := congrArg Denoted.datum (ρ.set_self row _)
  have hmember : (member (bound row) "Key").meaning I
      ((ρ.set row (.group key elements)).set g (.group key elements)) = .datum key := by
    simp [meaning, Denoted.data, Scope.set_of_ne hg, Scope.set_self, Reading.member]
  rw [selectedResult, meaning_substitute hgroup hrow, meaning_substitute hkey hmember]
  apply meaning_congr
  intro y hy
  have hyrow : y ≠ row := by
    rintro rfl
    exact hbody (names_of_freeNames hy)
  simp only [Scope.bind, Scope.set]
  by_cases hyk : y = k
  · subst hyk
    simp [hne]
  · by_cases hyg : y = g
    · subst hyg
      simp [hyk]
    · simp [hyk, hyg, hyrow]

/-- A name that is made up is new to the functions that groups are made with. -/
theorem new_of_groupFunction {source key : Term} {x : String} {rest : List Term} {m : Nat}
    {f : List String × Term}
    (hnames : (call .groupBy (source :: lambda [x] key :: rest)).Unnamed n) (hm : n < m)
    (hf : f ∈ rest.filterMap quotedLambda?) : madeUp "g" m ∉ f.1 ∧ madeUp "g" m ∉ f.2.names := by
  obtain ⟨t, ht, hquoted⟩ := List.mem_filterMap.mp hf
  have hnew : madeUp "g" m ∉ t.names := by
    intro hmem
    exact hnames "g" (by simp) m hm (names_of_mem_children (by simp [children, ht]) hmem)
  exact ⟨fun h => hnew (names_of_quotedLambda? hquoted (.inl h)),
    fun h => hnew (names_of_quotedLambda? hquoted (.inr h))⟩

/-- Selecting a computed key first keeps the meaning. -/
theorem meaning_selectKeyFirst {source key : Term} {x : String} {rest : List Term}
    (hrest : ∀ t ∈ rest, t.step? = none)
    (hscoped : (call .groupBy (source :: lambda [x] key :: rest)).Scoped)
    (hnames : (call .groupBy (source :: lambda [x] key :: rest)).Unnamed n)
    (hrun : (source.selectKeyFirst (([x], key) :: rest.filterMap quotedLambda?)).run n =
      some (t', n')) :
    t'.meaning I ρ = (call .groupBy (source :: lambda [x] key :: rest)).meaning I ρ := by
  obtain ⟨element, result, hfunctions⟩ :
      ∃ element result, groupFunctions (rest.filterMap quotedLambda?) = (element, result) :=
    ⟨_, _, rfl⟩
  simp only [Scoped, hfunctions] at hscoped
  obtain ⟨helement, hresult⟩ := hscoped
  have hgroups : (call .groupBy (source :: lambda [x] key :: rest)).meaning I ρ =
      .datum (.sequence ((I.groups ((source.meaning I ρ).elements.map fun d =>
        ((key.meaning I (ρ.set x d)).data,
          ((selectedElement x element).meaning I (ρ.set x d)).data))).map
            (Reading.resultOf (result.map (applied I ρ))))) := by
    have hgroupBy : (call .groupBy (source :: lambda [x] key :: rest)).meaning I ρ =
        .datum (.sequence (I.groupBy (source.meaning I ρ).elements (applied I ρ ([x], key)).2
          ((meanings I rest ρ).filterMap Denoted.asFunction?))) := rfl
    simp only [data_selectedElement helement]
    rw [hgroupBy, filterMap_asFunction? hrest, Reading.groupBy, groupFunctions_applied, hfunctions]
    rfl
  rw [selectKeyFirst_eq, hfunctions] at hrun
  rw [hgroups]
  rcases result with _ | ⟨_ | ⟨k, _ | ⟨g, _ | ⟨_, _⟩⟩⟩, body⟩
  case some.cons.cons.nil =>
    cases hrun
    have hmem : ([k, g], body) ∈ rest.filterMap quotedLambda? :=
      mem_of_resultFunction (by rw [hfunctions]; rfl)
    have hne : k ≠ g := by simpa using hresult _ rfl
    obtain ⟨hparams, hbody⟩ := new_of_groupFunction hnames (m := n + 2) (by omega) hmem
    have hg : madeUp "g" (n + 2) ≠ g := by
      rintro rfl
      exact hparams (by simp)
    rw [meaning_select, meaning_keyed]
    simp only [Denoted.elements, Denoted.data, Datum.elements, List.map_map]
    congr 3
    funext group
    exact congrArg Denoted.data (meaning_selectedResult hne hbody hg)
  all_goals
    cases hrun
    rw [meaning_keyed]
    rfl

end

/-! ## Aggregates over tables -/

section

variable {V : Type} {I : Reading V} {ρ : Scope V} {n n' : Nat} {t' : Term}

theorem held_isSome (aggregates : List Term) (param holder : String) :
    (fun node => (held aggregates param holder node).isSome) = isHeld aggregates param := by
  funext node
  unfold isHeld held
  cases aggregates.findIdx? (· == node) with
  | some index => rfl
  | none =>
    cases node with
    | bound other => by_cases h : other = param <;> simp [occurrence, h]
    | _ => rfl

theorem freeNames_held {aggregates : List Term} {param holder : String} {node new : Term}
    (h : held aggregates param holder node = some new) : new.freeNames = [holder] := by
  rcases held_eq_some h with ⟨index, aggregate, -, -, rfl⟩ | ⟨-, rfl⟩ <;> rfl

theorem aggregateName_injective : Function.Injective aggregateName := by
  intro i j h
  have hdigits := (String.append_right_inj "Agg").mp h
  have hsucc := toString_injective (congrArg String.toList hdigits)
  omega

theorem nodup_holderMembers (aggregates : List Term) (param : String) :
    ((holderMembers aggregates param).map (·.1)).Nodup := by
  have hnames : (holderMembers aggregates param).map (·.1) =
      "Row" :: (List.range' 0 aggregates.length).map aggregateName := by
    rw [holderMembers, List.map_cons, List.map_map, ← List.zipIdx_map_snd, List.map_map]
    rfl
  rw [hnames, List.nodup_cons]
  constructor
  · intro hrow
    obtain ⟨index, -, hindex⟩ := List.mem_map.mp hrow
    have hlist := congrArg (fun s => s.toList.head?) hindex
    simp [aggregateName, String.toList_append] at hlist
  · exact List.Nodup.map aggregateName_injective List.nodup_range'

/-- Over the record of the row and its aggregates a condition means what it means over the row. -/
theorem meaning_overHolder {condition : Term} {x holder : String} {d : Datum V}
    (hscoped : ScopedAggregates x condition) (hholder : holder ∉ condition.names) :
    (condition.overHolder condition.tableAggregates x holder).meaning I
        (ρ.set holder
          ((record (holderMembers condition.tableAggregates x)).meaning I (ρ.set x d)).data) =
      condition.meaning I (ρ.set x d) := by
  have hmembers := nodup_holderMembers condition.tableAggregates x
  rw [overHolder_eq]
  apply meaning_replaceFree
  · intro l hl b hb
    have hbound := (mem_boundNames_of_landing hl hb).1
    rw [held_isSome] at hl
    refine ⟨hscoped l hl b hb, ?_⟩
    intro new hnew
    rw [freeNames_held hnew, List.mem_singleton]
    rintro rfl
    exact hholder (names_of_boundNames hbound)
  · intro l hl new hnew
    rcases held_eq_some hnew with ⟨index, aggregate, hindex, heq, rfl⟩ | ⟨hnode, rfl⟩
    · obtain ⟨-, operator, args, rfl, hop⟩ :=
        exists_of_mem_tableAggregates (List.mem_of_getElem? hindex)
      have hdatum : ∃ e, (call operator args).meaning I (ρ.set x d) = .datum e := by
        apply I.exists_apply_eq_datum
        rintro rfl
        cases hop
      obtain ⟨e, he⟩ := hdatum
      have hmem : (aggregateName index, call operator args) ∈
          holderMembers condition.tableAggregates x := by
        apply List.mem_cons_of_mem
        exact List.mem_map.mpr ⟨(_, index), List.mem_zipIdx_iff_getElem?.mpr hindex, rfl⟩
      have hmember := member_record (I := I) (ρ := ρ.set x d) hmembers hmem
      rw [← meaning_beq heq, he]
      simp only [meaning, Denoted.data, Scope.set_self]
      exact congrArg Denoted.datum (hmember.trans (congrArg Denoted.data he))
    · have hmember := member_record (I := I) (ρ := ρ.set x d) hmembers List.mem_cons_self
      rw [hnode]
      simp only [meaning, Denoted.data, Scope.set_self]
      exact congrArg Denoted.datum (hmember.trans (ρ.set_self x d))
  · unfold held
    split
    · rfl
    · simp [occurrence]
  · intro y hy hne
    have hyholder : y ≠ holder := by
      rintro rfl
      exact hholder (names_of_freeNames hy)
    rw [Scope.set_of_ne hyholder, Scope.set_of_ne hne]

/-- A filter over the record of the row and its aggregates keeps the rows the condition keeps. -/
theorem meaning_heldFilter {source condition : Term} {x holder : String}
    (hscoped : ScopedAggregates x condition) (hholder : holder ∉ condition.names) :
    (heldFilter source x condition holder).meaning I ρ =
      (source.filter (fn x condition)).meaning I ρ := by
  have hrow : ∀ d, I.member ((record (holderMembers condition.tableAggregates x)).meaning I
      (ρ.set x d)).data "Row" = d := by
    intro d
    have hmember := member_record (I := I) (ρ := ρ.set x d)
      (nodup_holderMembers condition.tableAggregates x) List.mem_cons_self
    exact hmember.trans (ρ.set_self x d)
  rw [heldFilter, meaning_select_member, meaning_filter, meaning_select, meaning_filter]
  have hkeep := fun d => meaning_overHolder (I := I) (ρ := ρ) (d := d) hscoped hholder
  simp only [Denoted.elements, Denoted.data, Datum.elements, List.filter_map, List.map_map]
  simp only [Denoted.data] at hkeep hrow
  simp only [Function.comp_def, hkeep, hrow, List.map_id']

/-- A rule applied to a scoped node whose children no rule applies to keeps its meaning. -/
theorem Rewrites.meaning_eq {t : Term} {step : NameM Term} (h : Rewrites t step)
    (hchildren : ∀ c ∈ t.children, c.step? = none) (hscoped : t.Scoped) (hnames : t.Unnamed n)
    (hrun : step.run n = some (t', n')) : t'.meaning I ρ = t.meaning I ρ := by
  cases h with
  | quote body =>
    cases hrun
    rfl
  | @count owner hseq | @longCount owner hseq =>
    cases hrun
    obtain ⟨elements, howner⟩ := exists_meaning_eq_sequence (I := I) (ρ := ρ) hseq
      (hchildren owner (List.mem_singleton_self owner))
    simp [apply, meaning, meanings, howner, Reading.apply, Reading.member, Denoted.elements,
      Denoted.data, Datum.elements]
  | @memberOfElement operator hop source name =>
    cases hrun
    rw [apply, meaning_of_isElement hop, meaning_select_member, meaning,
      meaning_of_isElement hop]
    exact congrArg Denoted.datum (member_pick operator _ name).symm
  | asQueryable source =>
    cases hrun
    rfl
  | @condition operator hop source x body =>
    cases hrun
    cases operator <;> first | rfl | cases hop
  | @selector operator hop source x body =>
    cases hrun
    cases operator <;> first | rfl | cases hop
  | elementAt source index =>
    cases hrun
    rfl
  | select source x f y g =>
    cases hrun
    have hselectors : (source.select (fn x (g.substitute y f))).meaning I ρ =
        ((source.select (fn x f)).select (fn y g)).meaning I ρ := by
      rw [meaning_select, meaning_select, meaning_select]
      simp only [Denoted.elements, Denoted.data, Datum.elements, List.map_map]
      congr 3
      funext d
      exact congrArg Denoted.data (meaning_substitute_selector hscoped)
    exact hselectors
  | groupBy hkey source x rest =>
    apply meaning_selectKeyFirst _ hscoped hnames hrun
    intro t ht
    exact hchildren t (by simp [children, ht])
  | @filter condition hfound source x =>
    cases hrun
    apply meaning_heldFilter hscoped
    intro hmem
    apply hnames "h" (by simp) (n + 1) (Nat.lt_succ_self n)
    apply names_of_mem_children (c := lambda [x] condition) (by simp [children])
    exact names_of_mem_children (List.mem_singleton_self condition) hmem

end

end Term

end SqlCompiler
