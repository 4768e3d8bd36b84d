import Mathlib.Data.List.Forall2
import SqlCompiler.Proofs.Normalization.Scopes

/-!
# What terms mean

A term means a datum: a value, a record, a sequence or a group of elements.  A function means what
it makes of data.  Names are scoped lexically: a function is applied where its arguments are bound,
and reads the other names from where it was written.

Main results:

- Definitions `Datum`, `Denoted` and `Reading`: data, what terms mean, and the meanings of tables,
  constants and all operators that no rule of the normal form speaks about.
- Definition `Term.meaning`: what a term means where its free names have data.
- Theorem `Term.meaning_eq`: a node means what its children make of the data it binds.
- Theorem `Term.meaning_congr`: only the free names matter.
- Theorem `Term.meaning_replaceFree`: a hygienic replacement by terms of the same meaning.
- Theorem `Term.meaning_beq`: equal terms mean the same.
-/

namespace SqlCompiler

/-! ## Data -/

/-- What a term that is not a function means. -/
inductive Datum (V : Type) where
  | value (v : V)
  | record (members : List (String × Datum V))
  | sequence (elements : List (Datum V))
  | group (key : Datum V) (elements : List (Datum V))
  /-- No element, or nothing that makes sense. -/
  | missing
  deriving Inhabited

namespace Datum

variable {V : Type}

/-- The elements of a sequence or group. -/
def elements : Datum V → List (Datum V)
  | sequence elements | group _ elements => elements
  | _ => []

/-- The first of some elements. -/
def firstOf (elements : List (Datum V)) : Datum V := elements.head?.getD missing

/-- The only one of some elements. -/
def onlyOf : List (Datum V) → Datum V
  | [d] => d
  | _ => missing

end Datum

/-- What a term means: a datum, or what becomes of data given for some number of arguments. -/
inductive Denoted (V : Type) where
  | datum (d : Datum V)
  | function (arity : Nat) (apply : List (Datum V) → Datum V)

instance {V : Type} : Inhabited (Denoted V) := ⟨.datum .missing⟩

namespace Denoted

variable {V : Type}

/-- The datum, if it is one. -/
def data : Denoted V → Datum V
  | datum d => d
  | function .. => .missing

/-- The elements of what is a sequence or group. -/
def elements (m : Denoted V) : List (Datum V) := m.data.elements

/-- The arity and the function, if it is one. -/
def asFunction? : Denoted V → Option (Nat × (List (Datum V) → Datum V))
  | datum _ => none
  | function arity apply => some (arity, apply)

end Denoted

/-- Data for the names in scope. -/
abbrev Scope (V : Type) := String → Datum V

namespace Scope

variable {V : Type}

/-- No name has a datum. -/
def empty : Scope V := fun _ => .missing

/-- Give a name a datum. -/
def set (ρ : Scope V) (name : String) (d : Datum V) : Scope V :=
  fun x => if x == name then d else ρ x

/-- Give names data in order. -/
def bind : List String → List (Datum V) → Scope V → Scope V
  | [], _, ρ => ρ
  | name :: names, d :: ds, ρ => bind names ds (ρ.set name d)
  | name :: names, [], ρ => bind names [] (ρ.set name .missing)

theorem set_self (ρ : Scope V) (name : String) (d : Datum V) : ρ.set name d name = d := by
  simp [set]

theorem set_of_ne {ρ : Scope V} {name x : String} {d : Datum V} (h : x ≠ name) :
    ρ.set name d x = ρ x := by
  simp [set, h]

theorem bind_of_not_mem {names : List String} {ds : List (Datum V)} {ρ : Scope V} {x : String}
    (h : x ∉ names) : bind names ds ρ x = ρ x := by
  induction names generalizing ds ρ with
  | nil => cases ds <;> rfl
  | cons name rest ih =>
    have hne : x ≠ name := fun heq => h (heq ▸ List.mem_cons_self)
    have hrest : x ∉ rest := fun hmem => h (List.mem_cons_of_mem name hmem)
    cases ds with
    | nil => rw [bind, ih hrest, set_of_ne hne]
    | cons d ds => rw [bind, ih hrest, set_of_ne hne]

/-- The names given data forget what they had before. -/
theorem bind_agree {names : List String} {ds : List (Datum V)} {ρ ρ' : Scope V} {x : String}
    (h : x ∉ names → ρ x = ρ' x) : bind names ds ρ x = bind names ds ρ' x := by
  induction names generalizing ds ρ ρ' with
  | nil => cases ds <;> exact h (by simp)
  | cons name rest ih =>
    have hset : ∀ d, x ∉ rest → ρ.set name d x = ρ'.set name d x := by
      intro d hrest
      by_cases hx : x = name
      · rw [hx, set_self, set_self]
      · rw [set_of_ne hx, set_of_ne hx]
        exact h (by simp [hx, hrest])
    cases ds with
    | nil => exact ih (hset .missing)
    | cons d ds => exact ih (hset d)

@[simp]
theorem bind_nil (ds : List (Datum V)) (ρ : Scope V) : bind [] ds ρ = ρ := by
  cases ds <;> rfl

end Scope

/-! ## Operators -/

/-- What tables, constants and the operators mean that the rules do not look into. -/
structure Reading (V : Type) where
  constant : Constant → Datum V
  parameter : String → Constant → Datum V
  table : String → List (Datum V)
  /-- A member of what is no record of members. -/
  property : V → String → Datum V
  call : String → List (Denoted V) → Datum V
  binary : TermOperator → Datum V → Datum V → Datum V
  not : Datum V → Datum V
  negate : Datum V → Datum V
  conditional : Datum V → Datum V → Datum V → Datum V
  convert : TypeKind → Datum V → Datum V
  /-- Whether a condition holds. -/
  holds : Datum V → Bool
  /-- Whether two keys are the same. -/
  same : Datum V → Datum V → Bool
  /-- The number of elements to leave out. -/
  amount : Datum V → Nat
  /-- The number of elements, their sum, least, and so on. -/
  fold : SequenceOperator → List (Datum V) → Datum V
  /-- The elements of what the other operators on sequences make. -/
  elements : SequenceOperator → List (Denoted V) → List (Datum V)
  /-- What the operators make that do not return a sequence. -/
  result : SequenceOperator → List (Denoted V) → Datum V
  /-- Equal constants mean the same. -/
  constant_congr : ∀ a b : Constant, (a == b) = true → constant a = constant b
  parameter_congr : ∀ name, ∀ a b : Constant, (a == b) = true → parameter name a = parameter name b

namespace Reading

variable {V : Type} (I : Reading V)

/-- A member of a datum.  A sequence has the number of its elements as a member, a group its key. -/
def member (d : Datum V) (name : String) : Datum V :=
  match d with
  | .value v => I.property v name
  | .record members => (Members.get? name members).getD .missing
  | .sequence elements =>
    if name == "Count" then I.fold .count elements
    else if name == "LongCount" then I.fold .longCount elements
    else .missing
  | .group key _ => if name == "Key" then key else .missing
  | .missing => .missing

/-- The groups of keyed elements, with one more. -/
def addToGroups (groups : List (Datum V × List (Datum V))) (keyed : Datum V × Datum V) :
    List (Datum V × List (Datum V)) :=
  if groups.any fun group => I.same group.1 keyed.1 then
    groups.map fun (key, elements) =>
      if I.same key keyed.1 then (key, elements ++ [keyed.2]) else (key, elements)
  else groups ++ [(keyed.1, [keyed.2])]

/-- The groups of keyed elements, in the order of their first elements. -/
def groups (keyed : List (Datum V × Datum V)) : List (Datum V × List (Datum V)) :=
  keyed.foldl I.addToGroups []

/-- The element and result functions among the ones after the key. -/
def groupFunctions (rest : List (Nat × (List (Datum V) → Datum V))) :
    Option (List (Datum V) → Datum V) × Option (Nat × (List (Datum V) → Datum V)) :=
  match rest with
  | (1, element) :: rest => (some element, rest.head?)
  | rest => (none, rest.head?)

/-- The element of a group that stands for an element of the source. -/
def elementOf (element : Option (List (Datum V) → Datum V)) (d : Datum V) : Datum V :=
  match element with
  | some element => element [d]
  | none => d

/-- What is made of a group. -/
def resultOf (result : Option (Nat × (List (Datum V) → Datum V)))
    (group : Datum V × List (Datum V)) : Datum V :=
  match result with
  | some (2, result) => result [group.1, .group group.1 group.2]
  | _ => .group group.1 group.2

/-- Elements grouped by a key, with functions for the elements and the results. -/
def groupBy (source : List (Datum V)) (key : List (Datum V) → Datum V)
    (rest : List (Nat × (List (Datum V) → Datum V))) : List (Datum V) :=
  (I.groups (source.map fun d => (key [d], elementOf (groupFunctions rest).1 d))).map
    (resultOf (groupFunctions rest).2)

/-- An operator applied to what its arguments mean. -/
def apply (operator : SequenceOperator) (args : List (Denoted V)) : Denoted V :=
  match operator, args with
  | .asQueryable, [source] => source
  | .filter, [source, .function 1 f] =>
    .datum (.sequence (source.elements.filter fun d => I.holds (f [d])))
  | .select, [source, .function 1 f] =>
    .datum (.sequence (source.elements.map fun d => f [d]))
  | .groupBy, source :: .function 1 key :: rest =>
    .datum (.sequence (I.groupBy source.elements key (rest.filterMap Denoted.asFunction?)))
  | .skip, [source, count] =>
    .datum (.sequence (source.elements.drop (I.amount count.data)))
  | .elementAt, [source, index] =>
    .datum (Datum.firstOf (source.elements.drop (I.amount index.data)))
  | .first, [source] | .firstOrDefault, [source] => .datum (Datum.firstOf source.elements)
  | .single, [source] | .singleOrDefault, [source] => .datum (Datum.onlyOf source.elements)
  | .count, [source] | .longCount, [source] | .any, [source] | .min, [source] | .max, [source]
  | .sum, [source] | .average, [source] => .datum (I.fold operator source.elements)
  | .first, [source, .function 1 f] | .firstOrDefault, [source, .function 1 f] =>
    .datum (Datum.firstOf (source.elements.filter fun d => I.holds (f [d])))
  | .single, [source, .function 1 f] | .singleOrDefault, [source, .function 1 f] =>
    .datum (Datum.onlyOf (source.elements.filter fun d => I.holds (f [d])))
  | .count, [source, .function 1 f] | .longCount, [source, .function 1 f]
  | .any, [source, .function 1 f] =>
    .datum (I.fold operator (source.elements.filter fun d => I.holds (f [d])))
  | .min, [source, .function 1 f] | .max, [source, .function 1 f]
  | .sum, [source, .function 1 f] | .average, [source, .function 1 f] =>
    .datum (I.fold operator (source.elements.map fun d => f [d]))
  | operator, args =>
    .datum (if operator.returnsSequence then .sequence (I.elements operator args)
      else I.result operator args)

/-- An operator makes a datum; only `AsQueryable` hands on what it is given. -/
theorem exists_apply_eq_datum {operator : SequenceOperator} (args : List (Denoted V))
    (h : operator ≠ .asQueryable) : ∃ d, I.apply operator args = .datum d := by
  unfold apply
  split
  case h_1 => exact absurd rfl h
  all_goals exact ⟨_, rfl⟩

/-- An operator whose result is a sequence makes one, unless it hands on what it is given. -/
theorem exists_apply_eq_sequence {operator : SequenceOperator} {args : List (Denoted V)}
    (hseq : operator.returnsSequence = true) (h : operator = .asQueryable → args.length ≠ 1) :
    ∃ elements, I.apply operator args = .datum (.sequence elements) := by
  unfold apply
  split
  case h_1 => exact absurd rfl (h rfl)
  case h_29 => exact ⟨_, by rw [if_pos hseq]⟩
  all_goals first | exact ⟨_, rfl⟩ | cases hseq

end Reading

/-! ## Terms -/

namespace Term

section

variable {V : Type} (I : Reading V)

mutual

/-- What a term means where its free names have data. -/
def meaning : Term → Scope V → Denoted V
  | constant c, _ => .datum (I.constant c)
  | parameter name c, _ => .datum (I.parameter name c)
  | bound name, ρ => .datum (ρ name)
  | table source, _ => .datum (.sequence (I.table source))
  | member owner name, ρ => .datum (I.member (owner.meaning ρ).data name)
  | call operator args, ρ => I.apply operator (meanings args ρ)
  | function name args, ρ => .datum (I.call name (meanings args ρ))
  | lambda params body, ρ =>
    .function params.length fun ds => (body.meaning (Scope.bind params ds ρ)).data
  | binary operator a b, ρ => .datum (I.binary operator (a.meaning ρ).data (b.meaning ρ).data)
  | not t, ρ => .datum (I.not (t.meaning ρ).data)
  | negate t, ρ => .datum (I.negate (t.meaning ρ).data)
  | conditional a b c, ρ =>
    .datum (I.conditional (a.meaning ρ).data (b.meaning ρ).data (c.meaning ρ).data)
  | convert t target, ρ => .datum (I.convert target (t.meaning ρ).data)
  | record members, ρ => .datum (.record (Members.ofList (meaningsOfMembers members ρ)))
  | entity _ members, ρ => .datum (.record (Members.ofList (meaningsOfMembers members ρ)))
  | quote t, ρ => t.meaning ρ
termination_by structural t => t

/-- What some terms mean. -/
def meanings : List Term → Scope V → List (Denoted V)
  | [], _ => []
  | t :: rest, ρ => t.meaning ρ :: meanings rest ρ
termination_by structural ts => ts

/-- What the members of a record mean. -/
def meaningsOfMembers : List (String × Term) → Scope V → List (String × Datum V)
  | [], _ => []
  | (name, t) :: rest, ρ => (name, (t.meaning ρ).data) :: meaningsOfMembers rest ρ
termination_by structural ms => ms

end

/-- What a node means, from what its children mean where the names it binds have some data. -/
def assemble (t : Term) (ρ : Scope V) (parts : List (Datum V) → List (Denoted V)) : Denoted V :=
  let part (i : Nat) : Datum V := ((parts []).getD i default).data
  match t with
  | constant c => .datum (I.constant c)
  | parameter name c => .datum (I.parameter name c)
  | bound name => .datum (ρ name)
  | table source => .datum (.sequence (I.table source))
  | member _ name => .datum (I.member (part 0) name)
  | call operator _ => I.apply operator (parts [])
  | function name _ => .datum (I.call name (parts []))
  | lambda params _ => .function params.length fun ds => ((parts ds).getD 0 default).data
  | binary operator _ _ => .datum (I.binary operator (part 0) (part 1))
  | not _ => .datum (I.not (part 0))
  | negate _ => .datum (I.negate (part 0))
  | conditional _ _ _ => .datum (I.conditional (part 0) (part 1) (part 2))
  | convert _ target => .datum (I.convert target (part 0))
  | record members | entity _ members =>
    .datum (.record (Members.ofList
      ((members.map (·.1)).zip ((parts []).map Denoted.data))))
  | quote _ => (parts []).getD 0 default

theorem meanings_eq (terms : List Term) (ρ : Scope V) :
    meanings I terms ρ = terms.map (·.meaning I ρ) := by
  induction terms with
  | nil => rfl
  | cons t rest ih => rw [meanings, ih, List.map_cons]

theorem meaningsOfMembers_eq (members : List (String × Term)) (ρ : Scope V) :
    meaningsOfMembers I members ρ =
      (members.map (·.1)).zip ((members.map (·.2)).map fun t => (t.meaning I ρ).data) := by
  induction members with
  | nil => rfl
  | cons m rest ih => simp [meaningsOfMembers, ih]

/-- A member of a record of pairwise different names means what was written for it. -/
theorem member_record {members : List (String × Term)} {m : String × Term} {ρ : Scope V}
    (hnodup : (members.map (·.1)).Nodup) (h : m ∈ members) :
    I.member ((record members).meaning I ρ).data m.1 = (m.2.meaning I ρ).data := by
  have hpairs : meaningsOfMembers I members ρ =
      members.map fun m => (m.1, (m.2.meaning I ρ).data) := by
    rw [meaningsOfMembers_eq, List.map_map, List.zip_map']
    rfl
  have hnames : ((meaningsOfMembers I members ρ).map (·.1)).Nodup := by
    simpa [hpairs, Function.comp_def] using hnodup
  have hmem : (m.1, (m.2.meaning I ρ).data) ∈ meaningsOfMembers I members ρ := by
    rw [hpairs]
    exact List.mem_map_of_mem h
  have hfound := Members.get?_ofList_of_mem hnames hmem
  simp only [meaning, Denoted.data, Reading.member, hfound, Option.getD_some]

/-- A node means what its children make of the data it binds. -/
theorem meaning_eq (t : Term) (ρ : Scope V) :
    t.meaning I ρ =
      t.assemble I ρ fun ds => t.children.map (·.meaning I (Scope.bind t.binders ds ρ)) := by
  cases t with
  | call operator args | function name args =>
    simp [meaning, assemble, children, binders, meanings_eq]
  | record members | entity name members =>
    simp [meaning, assemble, children, binders, meaningsOfMembers_eq, Function.comp_def]
  | _ => simp [meaning, assemble, children, binders]

variable {I} {t : Term} {ρ ρ' : Scope V}

/-- Only the kind of a node and what is given for its children matter. -/
theorem assemble_withChildren {terms : List Term} (h : terms.length = t.children.length)
    (parts : List (Datum V) → List (Denoted V)) :
    (t.withChildren terms).assemble I ρ parts = t.assemble I ρ parts := by
  cases t with
  | call _ _ | function _ _ => rfl
  | record members | entity _ members =>
    simp only [children, List.length_map] at h
    have hnames : (renewMembers members terms).map (·.1) = members.map (·.1) := by
      rw [renewMembers, List.map_fst_zip]
      simp [h]
    simp only [withChildren, assemble, hnames]
  | _ =>
    rcases terms with _ | ⟨a, _ | ⟨b, _ | ⟨c, _ | ⟨d, rest⟩⟩⟩⟩ <;>
      simp [children, withChildren, assemble] at h ⊢

/-- A node that is no argument means the same wherever it stands, given its children. -/
theorem assemble_congr {parts : List (Datum V) → List (Denoted V)}
    (h : ∀ x, t = bound x → ρ x = ρ' x) : t.assemble I ρ parts = t.assemble I ρ' parts := by
  cases t with
  | bound x =>
    simp only [assemble]
    rw [h x rfl]
  | _ => rfl

/-- Only the data of the free names matter. -/
theorem meaning_congr (h : ∀ x ∈ t.freeNames, ρ x = ρ' x) : t.meaning I ρ = t.meaning I ρ' := by
  induction t using induction_on_children generalizing ρ ρ' with
  | node t ih =>
    have hparts : ∀ ds, t.children.map (·.meaning I (Scope.bind t.binders ds ρ)) =
        t.children.map (·.meaning I (Scope.bind t.binders ds ρ')) := by
      intro ds
      apply List.map_congr_left
      intro c hc
      apply ih c hc
      intro x hx
      apply Scope.bind_agree
      intro hbinders
      exact h x (mem_freeNames.mpr (.inr ⟨hbinders, c, hc, hx⟩))
    rw [meaning_eq, meaning_eq I t ρ']
    simp only [hparts]
    apply assemble_congr
    intro x hx
    exact h x (mem_freeNames.mpr (.inl hx))

/-- A node whose children are given others of the same meaning keeps its meaning. -/
theorem meaning_withChildren {terms : List Term}
    (h : List.Forall₂ (fun c c' => ∀ ρ : Scope V, c'.meaning I ρ = c.meaning I ρ)
      t.children terms) (ρ : Scope V) :
    (t.withChildren terms).meaning I ρ = t.meaning I ρ := by
  have hlength := h.length_eq.symm
  have hparts : ∀ ρ : Scope V, terms.map (·.meaning I ρ) = t.children.map (·.meaning I ρ) := by
    intro ρ
    rw [← List.forall₂_eq_eq_eq, List.forall₂_map_left_iff, List.forall₂_map_right_iff]
    apply h.flip.imp
    intro c' c hc
    exact hc ρ
  rw [meaning_eq, meaning_eq I t ρ, assemble_withChildren hlength, binders_withChildren hlength,
    children_withChildren hlength]
  simp only [hparts]

/-- A replacement by terms of the same meaning, none of which is bound differently, gives a term of
the same meaning: what is replaced is worth in one scope what takes its place is worth in another,
and all other names are worth the same in both. -/
theorem meaning_replaceFree {name : String} {new? : Term → Option Term}
    (hyg : t.Hygienic name new?)
    (hnew : ∀ l ∈ t.landings name fun node => (new? node).isSome,
      ∀ new ∈ new? l.node, new.meaning I ρ' = l.node.meaning I ρ)
    (hname : (new? (bound name)).isSome)
    (hother : ∀ x ∈ t.freeNames, x ≠ name → ρ' x = ρ x) :
    (t.replaceFree name new?).meaning I ρ' = t.meaning I ρ := by
  induction t using induction_on_children generalizing ρ ρ' with
  | node t ih =>
    cases hrule : new? t with
    | some new =>
      rw [replaceFree_of_some hrule]
      exact hnew _ (self_mem_landings (by simp [hrule])) new hrule
    | none =>
      by_cases hbound : name ∈ t.binders
      · -- the name is bound anew, so nothing below is replaced
        rw [replaceFree_of_bound hrule hbound]
        apply meaning_congr
        intro x hx
        apply hother x hx
        rintro rfl
        rcases mem_freeNames.mp hx with rfl | ⟨hfree, -⟩
        · simp [binders] at hbound
        · exact hfree hbound
      · have hlength : (t.children.map (replaceFree name new?)).length = t.children.length :=
          List.length_map ..
        have hparts : ∀ ds, (t.children.map (replaceFree name new?)).map
            (·.meaning I (Scope.bind t.binders ds ρ')) =
              t.children.map (·.meaning I (Scope.bind t.binders ds ρ)) := by
          intro ds
          rw [List.map_map]
          apply List.map_congr_left
          intro c hc
          apply ih c hc (hyg.child hrule hbound hc)
          · -- the names bound here are free neither in what is replaced nor in the new term
            intro l hl new hl'
            have hmem := under_mem_landings (by simp [hrule]) hbound hc hl
            have hfresh := fun b hb => hyg _ hmem b (List.mem_append_left _ hb)
            calc new.meaning I (Scope.bind t.binders ds ρ') = new.meaning I ρ' :=
                  meaning_congr fun x hx =>
                    Scope.bind_of_not_mem fun hb => (hfresh x hb).2 new hl' hx
              _ = l.node.meaning I ρ := hnew (l.under t.binders) hmem new hl'
              _ = l.node.meaning I (Scope.bind t.binders ds ρ) :=
                  meaning_congr fun x hx =>
                    (Scope.bind_of_not_mem fun hb => (hfresh x hb).1 hx).symm
          · intro x hx hne
            apply Scope.bind_agree
            intro hbinders
            exact hother x (mem_freeNames.mpr (.inr ⟨hbinders, c, hc, hx⟩)) hne
        rw [replaceFree_of_none hrule hbound, meaning_eq, meaning_eq I t ρ,
          assemble_withChildren hlength, binders_withChildren hlength,
          children_withChildren hlength]
        simp only [hparts]
        apply assemble_congr
        rintro x rfl
        apply hother x (mem_freeNames.mpr (.inl rfl))
        rintro rfl
        rw [hrule] at hname
        cases hname

/-- What an argument stands for may be written in its place, unless a function on the way down
binds one of its names or it is a function itself. -/
theorem meaning_substitute {name : String} {replacement : Term} {d : Datum V}
    (hyg : t.Hygienic name (occurrence name replacement))
    (hdatum : replacement.meaning I ρ = .datum d) :
    (t.substitute name replacement).meaning I ρ = t.meaning I (ρ.set name d) := by
  rw [substitute_eq]
  apply meaning_replaceFree hyg
  · intro l hl new hnew
    obtain ⟨hnode, rfl⟩ := occurrence_eq_some.mp hnew
    rw [hnode, hdatum, meaning, Scope.set_self]
  · simp [occurrence]
  · intro x _ hne
    rw [Scope.set_of_ne hne]

/-! ## Equal terms -/

/-- Equal terms are equal nodes. -/
theorem assemble_beq {a b : Term} (h : a.beq b = true)
    (parts : List (Datum V) → List (Denoted V)) : a.assemble I ρ parts = b.assemble I ρ parts := by
  fun_cases beq a b
  case case1 c d => exact congrArg _ (I.constant_congr c d h)
  case case2 n c m d =>
    simp only [beq, Bool.and_eq_true, beq_iff_eq] at h
    obtain ⟨rfl, hc⟩ := h
    exact congrArg _ (I.parameter_congr n c d hc)
  case case15 as bs =>
    simp only [assemble, names_of_beqMembers h]
  case case16 n as m bs =>
    simp only [beq, Bool.and_eq_true] at h
    simp only [assemble, names_of_beqMembers h.2]
  all_goals simp_all [beq, assemble]

/-- Equal terms mean the same. -/
theorem meaning_beq {a b : Term} (h : a.beq b = true) (ρ : Scope V) :
    a.meaning I ρ = b.meaning I ρ := by
  induction a using induction_on_children generalizing b ρ with
  | node a ih =>
    have hparts : ∀ ρ : Scope V,
        a.children.map (·.meaning I ρ) = b.children.map (·.meaning I ρ) := by
      intro ρ
      rw [← List.forall₂_eq_eq_eq, List.forall₂_map_left_iff, List.forall₂_map_right_iff]
      have hchildren := (List.forall₂_and_left (p := (· ∈ a.children)) _ _).mpr
        ⟨fun c hc => hc, children_beq h⟩
      apply hchildren.imp
      rintro c d ⟨hc, hcd⟩
      exact ih c hc hcd ρ
    rw [meaning_eq, meaning_eq I b ρ, assemble_beq h, binders_beq h]
    simp only [hparts]

end

end Term

end SqlCompiler
