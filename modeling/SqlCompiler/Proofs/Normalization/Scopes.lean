import SqlCompiler.Proofs.Normalization.Children
import SqlCompiler.Term.Normalize

/-!
# Names in scope

A function binds the names of its arguments in its body.  The rules that normalize terms put a term
in the place of another one, perhaps below functions: that is hygienic if no function on the way
down binds a name that either of the two reads from outside.

Main results:

- Definitions `Term.freeNames` and `Term.names`: the names a term reads from outside, and all names
  in it.
- Definition `Term.replaceFree`: nodes are replaced where a name is not bound anew.  The
  substitution for an argument and the reading of a record of aggregates are of this form
  (`Term.substitute_eq`, `Term.overHolder_eq`).
- Definitions `Term.landings` and `Term.Hygienic`: nodes with the names bound above them, and
  replacements of which no name is bound on the way.
- Theorem `Term.namesBy_replaceFree`: no other names appear.
-/

namespace SqlCompiler

namespace Term

/-! ## Names -/

/-- The names a node binds in its children. -/
def binders : Term → List String
  | lambda params _ => params
  | _ => []

@[simp]
theorem binders_withChildren {t : Term} {terms : List Term}
    (h : terms.length = t.children.length) : (t.withChildren terms).binders = t.binders := by
  cases t with
  | call _ _ | function _ _ | record _ | entity _ _ => rfl
  | _ =>
    rcases terms with _ | ⟨a, _ | ⟨b, _ | ⟨c, _ | ⟨d, rest⟩⟩⟩⟩ <;>
      simp [children, withChildren, binders] at h ⊢

/-- Equal terms bind the same names. -/
theorem binders_beq {a b : Term} (h : a.beq b = true) : a.binders = b.binders := by
  fun_cases beq a b
  all_goals simp_all [beq, binders]

theorem withChildren_eq_bound {t : Term} {terms : List Term} {x : String} :
    t.withChildren terms = bound x ↔ t = bound x := by
  cases t with
  | call _ _ | function _ _ | record _ | entity _ _ => simp [withChildren]
  | _ =>
    rcases terms with _ | ⟨a, _ | ⟨b, _ | ⟨c, _ | ⟨d, rest⟩⟩⟩⟩ <;> simp [withChildren]

mutual

/-- The names a term reads that are not bound in it. -/
def freeNames : Term → List String
  | bound name => [name]
  | member t _ | not t | negate t | convert t _ | quote t => t.freeNames
  | lambda params t => t.freeNames.filter fun name => !params.contains name
  | call _ args | function _ args => freeNamesOfTerms args
  | binary _ a b => a.freeNames ++ b.freeNames
  | conditional a b c => a.freeNames ++ b.freeNames ++ c.freeNames
  | record members | entity _ members => freeNamesOfMembers members
  | _ => []
termination_by structural t => t

/-- The names a list of terms reads. -/
def freeNamesOfTerms : List Term → List String
  | [] => []
  | t :: rest => t.freeNames ++ freeNamesOfTerms rest
termination_by structural ts => ts

/-- The names members read. -/
def freeNamesOfMembers : List (String × Term) → List String
  | [] => []
  | (_, t) :: rest => t.freeNames ++ freeNamesOfMembers rest
termination_by structural ms => ms

end

attribute [local simp] freeNames freeNamesOfTerms freeNamesOfMembers

section

variable (read : String → List String)

mutual

/-- The names that functions in a term bind, and what is taken of the names it reads. -/
def namesBy : Term → List String
  | bound name => read name
  | member t _ | not t | negate t | convert t _ | quote t => t.namesBy
  | lambda params t => params ++ t.namesBy
  | call _ args | function _ args => namesByOfTerms args
  | binary _ a b => a.namesBy ++ b.namesBy
  | conditional a b c => a.namesBy ++ b.namesBy ++ c.namesBy
  | record members | entity _ members => namesByOfMembers members
  | _ => []
termination_by structural t => t

/-- The names in a list of terms. -/
def namesByOfTerms : List Term → List String
  | [] => []
  | t :: rest => t.namesBy ++ namesByOfTerms rest
termination_by structural ts => ts

/-- The names in members. -/
def namesByOfMembers : List (String × Term) → List String
  | [] => []
  | (_, t) :: rest => t.namesBy ++ namesByOfMembers rest
termination_by structural ms => ms

end

attribute [local simp] namesBy namesByOfTerms namesByOfMembers

theorem namesByOfTerms_eq (terms : List Term) :
    namesByOfTerms read terms = terms.flatMap (namesBy read) := by
  induction terms with
  | nil => rfl
  | cons t rest ih => simp [namesByOfTerms, ih]

theorem namesByOfMembers_eq (members : List (String × Term)) :
    namesByOfMembers read members = (members.map (·.2)).flatMap (namesBy read) := by
  induction members with
  | nil => rfl
  | cons m rest ih => simp [namesByOfMembers, ih]

/-- A name comes from an argument, is bound by the node or comes from a child. -/
theorem mem_namesBy {x : String} {t : Term} :
    x ∈ t.namesBy read ↔
      (∃ y, t = bound y ∧ x ∈ read y) ∨ x ∈ t.binders ∨ ∃ c ∈ t.children, x ∈ c.namesBy read := by
  cases t with
  | bound y => simp [namesBy, children, binders]
  | _ => simp [namesBy, namesByOfTerms_eq, namesByOfMembers_eq, children, binders]

end

/-- Every name a term reads or binds. -/
def names : Term → List String := namesBy fun name => [name]

/-- The names that functions in a term bind. -/
def boundNames : Term → List String := namesBy fun _ => []

theorem freeNamesOfTerms_eq (terms : List Term) :
    freeNamesOfTerms terms = terms.flatMap freeNames := by
  induction terms with
  | nil => rfl
  | cons t rest ih => simp [freeNamesOfTerms, ih]

theorem freeNamesOfMembers_eq (members : List (String × Term)) :
    freeNamesOfMembers members = (members.map (·.2)).flatMap freeNames := by
  induction members with
  | nil => rfl
  | cons m rest ih => simp [freeNamesOfMembers, ih]

/-- A free name is the name of an argument, or free in a child and not bound by the node. -/
theorem mem_freeNames {x : String} {t : Term} :
    x ∈ t.freeNames ↔ t = bound x ∨ (x ∉ t.binders ∧ ∃ c ∈ t.children, x ∈ c.freeNames) := by
  cases t with
  | bound y => simp [freeNames, children, eq_comm]
  | lambda params body => simp [freeNames, children, binders, and_comm]
  | _ => simp [freeNames, freeNamesOfTerms_eq, freeNamesOfMembers_eq, children, binders]

theorem names_of_freeNames {x : String} {t : Term} (h : x ∈ t.freeNames) : x ∈ t.names := by
  induction t using induction_on_children with
  | node t ih =>
    apply (mem_namesBy _).mpr
    rcases mem_freeNames.mp h with h | ⟨-, c, hc, h⟩
    · exact .inl ⟨x, h, List.mem_singleton_self x⟩
    · exact .inr (.inr ⟨c, hc, ih c hc h⟩)

theorem names_of_boundNames {x : String} {t : Term} (h : x ∈ t.boundNames) : x ∈ t.names := by
  induction t using induction_on_children with
  | node t ih =>
    apply (mem_namesBy _).mpr
    rcases (mem_namesBy _).mp h with ⟨y, -, hy⟩ | h | ⟨c, hc, h⟩
    · cases hy
    · exact .inr (.inl h)
    · exact .inr (.inr ⟨c, hc, ih c hc h⟩)

section

variable {x : String}

@[simp]
theorem mem_names_bound {y : String} : x ∈ (bound y).names ↔ x = y := List.mem_singleton

@[simp]
theorem mem_names_member {t : Term} {name : String} : x ∈ (member t name).names ↔ x ∈ t.names :=
  Iff.rfl

@[simp]
theorem mem_names_lambda {params : List String} {t : Term} :
    x ∈ (lambda params t).names ↔ x ∈ params ∨ x ∈ t.names :=
  List.mem_append

@[simp]
theorem mem_names_call {operator : SequenceOperator} {args : List Term} :
    x ∈ (call operator args).names ↔ ∃ t ∈ args, x ∈ t.names := by
  simp [names, namesBy, namesByOfTerms_eq]

@[simp]
theorem mem_names_record {members : List (String × Term)} :
    x ∈ (record members).names ↔ ∃ m ∈ members, x ∈ m.2.names := by
  rw [names, namesBy, namesByOfMembers_eq, List.flatMap_map, List.mem_flatMap]

end

theorem names_of_mem_children {x : String} {t c : Term} (hc : c ∈ t.children) (h : x ∈ c.names) :
    x ∈ t.names :=
  (mem_namesBy _).mpr (.inr (.inr ⟨c, hc, h⟩))

theorem names_of_occursIn {x : String} {t node : Term} (h : node.OccursIn t) (hx : x ∈ node.names) :
    x ∈ t.names := by
  induction h with
  | here => exact hx
  | inside hc _ ih => exact names_of_mem_children hc ih

theorem names_of_mem_binders {x : String} {t : Term} (h : x ∈ t.binders) : x ∈ t.names :=
  (mem_namesBy _).mpr (.inr (.inl h))

/-! ## Replacing free nodes -/

/-- Answers for nodes, and none below a function that binds the name anew: it stays as it is. -/
def scopedRule (name : String) (new? : Term → Option Term) (node : Term) : Option Term :=
  (new? node).or (if node.binders.contains name then some node else none)

/-- Replace the outermost nodes there is an answer for, outside of functions that bind a name
anew. -/
def replaceFree (name : String) (new? : Term → Option Term) (t : Term) : Term :=
  t.replaceDown (scopedRule name new?)

/-- The occurrence of an argument that a substitution replaces. -/
def occurrence (name : String) (replacement node : Term) : Option Term :=
  match node with
  | bound other => if other == name then some replacement else none
  | _ => none

theorem occurrence_eq_some {name : String} {replacement node new : Term} :
    occurrence name replacement node = some new ↔ node = bound name ∧ replacement = new := by
  cases node with
  | bound other => simp [occurrence]
  | _ => simp [occurrence]

/-- What stands for an aggregate, or for the row, over the record of both. -/
def held (aggregates : List Term) (param holder : String) (node : Term) : Option Term :=
  match aggregates.findIdx? (· == node) with
  | some index => some (member (bound holder) (aggregateName index))
  | none => occurrence param (member (bound holder) "Row") node

/-- A substitution replaces the occurrences of an argument where it is not bound anew. -/
theorem substitute_eq (t : Term) (name : String) (replacement : Term) :
    t.substitute name replacement = t.replaceFree name (occurrence name replacement) := by
  unfold substitute replaceFree
  congr 1
  funext node
  cases node with
  | bound other => by_cases h : other = name <;> simp [scopedRule, occurrence, binders, h]
  | _ => simp [scopedRule, occurrence, binders]

/-- Over the record, the aggregates and the row are members of it. -/
theorem overHolder_eq (aggregates : List Term) (param holder : String) (t : Term) :
    t.overHolder aggregates param holder = t.replaceFree param (held aggregates param holder) := by
  unfold overHolder replaceFree
  congr 1
  funext node
  unfold scopedRule held
  cases aggregates.findIdx? (· == node) with
  | some index => rfl
  | none =>
    cases node with
    | bound other => by_cases h : other = param <;> simp [occurrence, binders, h]
    | _ => simp [occurrence, binders]

variable {name x : String} {new? : Term → Option Term} {t : Term}

theorem replaceFree_of_some {new : Term} (h : new? t = some new) :
    t.replaceFree name new? = new := by
  unfold replaceFree
  rw [replaceDown_eq, scopedRule, h]
  rfl

theorem replaceFree_of_bound (h : new? t = none) (hbound : name ∈ t.binders) :
    t.replaceFree name new? = t := by
  unfold replaceFree
  rw [replaceDown_eq, scopedRule, h, if_pos (by simpa using hbound)]
  rfl

theorem replaceFree_of_none (h : new? t = none) (hfree : name ∉ t.binders) :
    t.replaceFree name new? = t.withChildren (t.children.map (replaceFree name new?)) := by
  unfold replaceFree
  rw [replaceDown_eq, scopedRule, h, if_neg (by simpa using hfree)]
  rfl

/-! ## Where replacements land -/

/-- A node with the names bound above it. -/
structure Landing where
  binders : List String
  node : Term

/-- A landing below more names. -/
def Landing.under (l : Landing) (names : List String) : Landing :=
  { l with binders := names ++ l.binders }

section

variable (name : String) (test : Term → Bool)

mutual

/-- The outermost nodes of some kind, outside of functions that bind a name anew. -/
def landings (t : Term) : List Landing :=
  match test t with
  | true => [⟨[], t⟩]
  | false =>
    match t with
    | member t _ | not t | negate t | convert t _ | quote t => t.landings
    | lambda params t => if params.contains name then [] else t.landings.map (·.under params)
    | call _ args | function _ args => landingsInTerms args
    | binary _ a b => a.landings ++ b.landings
    | conditional a b c => a.landings ++ b.landings ++ c.landings
    | record members | entity _ members => landingsInMembers members
    | _ => []
termination_by structural t

/-- The outermost nodes of some kind in a list of terms. -/
def landingsInTerms : List Term → List Landing
  | [] => []
  | t :: rest => t.landings ++ landingsInTerms rest
termination_by structural ts => ts

/-- The outermost nodes of some kind in members. -/
def landingsInMembers : List (String × Term) → List Landing
  | [] => []
  | (_, t) :: rest => t.landings ++ landingsInMembers rest
termination_by structural ms => ms

end

theorem landingsInTerms_eq (terms : List Term) :
    landingsInTerms name test terms = terms.flatMap (landings name test) := by
  induction terms with
  | nil => rfl
  | cons t rest ih => simp [landingsInTerms, ih]

theorem landingsInMembers_eq (members : List (String × Term)) :
    landingsInMembers name test members = (members.map (·.2)).flatMap (landings name test) := by
  induction members with
  | nil => rfl
  | cons m rest ih => simp [landingsInMembers, ih]

/-- The nodes are the node itself, or those of its children below the names it binds. -/
theorem landings_eq (t : Term) :
    t.landings name test =
      if test t then [⟨[], t⟩]
      else if name ∈ t.binders then []
      else t.children.flatMap fun c => (c.landings name test).map (·.under t.binders) := by
  rw [landings.eq_def]
  cases test t with
  | true => rfl
  | false =>
    cases t with
    | lambda params body => simp [binders, children]
    | _ => simp [binders, children, landingsInTerms_eq, landingsInMembers_eq, Landing.under]

end

/-- A node of a child is one of the node, below the names it binds. -/
theorem under_mem_landings {test : Term → Bool} {c : Term} {l : Landing} (h : test t = false)
    (hfree : name ∉ t.binders) (hc : c ∈ t.children) (hl : l ∈ c.landings name test) :
    l.under t.binders ∈ t.landings name test := by
  rw [landings_eq, h, if_neg Bool.false_ne_true, if_neg hfree, List.mem_flatMap]
  exact ⟨c, hc, List.mem_map_of_mem hl⟩

theorem self_mem_landings {test : Term → Bool} (h : test t = true) :
    ⟨[], t⟩ ∈ t.landings name test := by
  rw [landings_eq, if_pos h]
  exact List.mem_singleton_self _

/-- No replaced node, nor what takes its place, reads a name that is bound on the way to it. -/
def Hygienic (name : String) (new? : Term → Option Term) (t : Term) : Prop :=
  ∀ l ∈ t.landings name fun node => (new? node).isSome, ∀ b ∈ l.binders,
    b ∉ l.node.freeNames ∧ ∀ new ∈ new? l.node, b ∉ new.freeNames

instance (t : Term) : Decidable (t.Hygienic name new?) :=
  inferInstanceAs (Decidable (∀ l ∈ t.landings name fun node => (new? node).isSome, _))

/-- A hygienic replacement is one in the children. -/
theorem Hygienic.child {c : Term} (hyg : t.Hygienic name new?) (h : new? t = none)
    (hfree : name ∉ t.binders) (hc : c ∈ t.children) : c.Hygienic name new? := by
  intro l hl b hb
  have hmem := under_mem_landings (by simp [h]) hfree hc hl
  exact hyg (l.under t.binders) hmem b (List.mem_append_right t.binders hb)

/-- The names after a replacement were there before, or are in what was put in. -/
theorem namesBy_replaceFree {read : String → List String}
    (h : x ∈ (t.replaceFree name new?).namesBy read) :
    x ∈ t.namesBy read ∨ ∃ node new, new? node = some new ∧ x ∈ new.namesBy read := by
  induction t using induction_on_children with
  | node t ih =>
    cases hnew : new? t with
    | some new =>
      rw [replaceFree_of_some hnew] at h
      exact .inr ⟨t, new, hnew, h⟩
    | none =>
      by_cases hbound : name ∈ t.binders
      · rw [replaceFree_of_bound hnew hbound] at h
        exact .inl h
      · have hlength : (t.children.map (replaceFree name new?)).length = t.children.length :=
          List.length_map ..
        rw [replaceFree_of_none hnew hbound, mem_namesBy, binders_withChildren hlength,
          children_withChildren hlength] at h
        rcases h with ⟨y, hy, h⟩ | h | ⟨c', hc', h⟩
        · rw [withChildren_eq_bound] at hy
          exact .inl ((mem_namesBy _).mpr (.inl ⟨y, hy, h⟩))
        · exact .inl ((mem_namesBy _).mpr (.inr (.inl h)))
        · obtain ⟨c, hc, rfl⟩ := List.mem_map.mp hc'
          rcases ih c hc h with h | h
          · exact .inl ((mem_namesBy _).mpr (.inr (.inr ⟨c, hc, h⟩)))
          · exact .inr h

theorem test_of_mem_landings {test : Term → Bool} {l : Landing}
    (h : l ∈ t.landings name test) : test l.node = true := by
  induction t using induction_on_children generalizing l with
  | node t ih =>
    rw [landings_eq] at h
    split at h
    · next htest =>
      obtain rfl := List.mem_singleton.mp h
      exact htest
    · split at h
      · cases h
      · obtain ⟨c, hc, hmem⟩ := List.mem_flatMap.mp h
        obtain ⟨l', hl', rfl⟩ := List.mem_map.mp hmem
        have htest : test l'.node = true := ih c hc hl'
        exact htest

/-- The names bound above a node are bound in the term, and the name is not among them. -/
theorem mem_boundNames_of_landing {test : Term → Bool} {l : Landing} {b : String}
    (hl : l ∈ t.landings name test) (hb : b ∈ l.binders) : b ∈ t.boundNames ∧ b ≠ name := by
  induction t using induction_on_children generalizing l with
  | node t ih =>
    rw [landings_eq] at hl
    split at hl
    · obtain rfl := List.mem_singleton.mp hl
      cases hb
    · split at hl
      · cases hl
      · next hname =>
        obtain ⟨c, hc, hmem⟩ := List.mem_flatMap.mp hl
        obtain ⟨l', hl', rfl⟩ := List.mem_map.mp hmem
        rcases List.mem_append.mp hb with hb | hb
        · refine ⟨(mem_namesBy _).mpr (.inr (.inl hb)), ?_⟩
          rintro rfl
          exact hname hb
        · obtain ⟨hbound, hne⟩ := ih c hc hl' hb
          exact ⟨(mem_namesBy _).mpr (.inr (.inr ⟨c, hc, hbound⟩)), hne⟩

/-- A term none of whose names is bound in another one may be put into it. -/
theorem hygienic_occurrence {replacement : Term}
    (h : ∀ b ∈ t.boundNames, b ∉ replacement.freeNames) :
    t.Hygienic name (occurrence name replacement) := by
  intro l hl b hb
  obtain ⟨hbound, hne⟩ := mem_boundNames_of_landing hl hb
  obtain ⟨new, hnew⟩ := Option.isSome_iff_exists.mp (test_of_mem_landings hl)
  obtain ⟨hnode, rfl⟩ := occurrence_eq_some.mp hnew
  rw [hnew, hnode]
  constructor
  · simpa [freeNames] using hne
  · rintro new ⟨⟩
    exact h b hbound

end Term

end SqlCompiler
