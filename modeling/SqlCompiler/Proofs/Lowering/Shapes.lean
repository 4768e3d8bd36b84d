import Mathlib.Data.List.Forall2
import SqlCompiler.Lowering.Basic
import SqlCompiler.Lowering.Clauses
import SqlCompiler.Proofs.Semantics.Elements

/-!
# Projections of a shape

A projection of a shape has the members the shape says, and no groups.

Main results:

- Definition `Projection.Fits`, `Projection.All`: the shape of a projection, and a property of
  each of its scalars.
- Definition `Scalar.IsPart`: the scalars that elements are made of.
- Theorem `Projection.Fits.member?`: a member of the shape is a member of the projection.
- Theorem `Members.ofList_map`, `membersFit_ofList`: records with a name given twice.
-/

namespace SqlCompiler

/-! ## Named members -/

namespace Members

variable {α β : Type} (f : α → β)

theorem get?_map (name : String) (members : Members α) :
    get? name (members.map fun m => (m.1, f m.2)) = (get? name members).map f := by
  induction members with
  | nil => rfl
  | cons m rest ih =>
    obtain ⟨key, a⟩ := m
    by_cases h : key = name
    · simp [get?, h]
    · simpa [get?, h] using ih

theorem insert_map (name : String) (a : α) (members : Members α) :
    insert name (f a) (members.map fun m => (m.1, f m.2)) =
      (insert name a members).map fun m => (m.1, f m.2) := by
  induction members with
  | nil => rfl
  | cons m rest ih =>
    obtain ⟨key, b⟩ := m
    by_cases h : key = name
    · simp [insert, h]
    · simpa [insert, h] using ih

theorem foldl_insert_map (pairs : List (String × α)) (members : Members α) :
    (pairs.map fun m => (m.1, f m.2)).foldl (fun ms m => insert m.1 m.2 ms)
        (members.map fun m => (m.1, f m.2)) =
      (pairs.foldl (fun ms m => insert m.1 m.2 ms) members).map fun m => (m.1, f m.2) := by
  induction pairs generalizing members with
  | nil => rfl
  | cons m rest ih =>
    rw [List.map_cons, List.foldl_cons, List.foldl_cons, ← ih]
    exact congrArg (fun ms => List.foldl _ ms _) (insert_map f m.1 m.2 members)

/-- Inserting pairs commutes with a change of their values. -/
theorem ofList_map (pairs : List (String × α)) :
    ofList (pairs.map fun m => (m.1, f m.2)) = (ofList pairs).map fun m => (m.1, f m.2) :=
  foldl_insert_map f pairs []

theorem mem_insert {name : String} {a : α} {members : Members α} {m : String × α}
    (h : m ∈ insert name a members) : m.2 = a ∨ m ∈ members := by
  induction members with
  | nil =>
    rw [insert, List.mem_singleton] at h
    exact .inl (by rw [h])
  | cons head rest ih =>
    obtain ⟨key, b⟩ := head
    rw [insert] at h
    split at h
    · rcases List.mem_cons.mp h with rfl | h
      · exact .inl rfl
      · exact .inr (List.mem_cons_of_mem _ h)
    · rcases List.mem_cons.mp h with rfl | h
      · exact .inr List.mem_cons_self
      · exact (ih h).imp_right (List.mem_cons_of_mem _)

/-- What is in the members was inserted. -/
theorem exists_of_mem_ofList {pairs : List (String × α)} {m : String × α}
    (h : m ∈ ofList pairs) : ∃ pair ∈ pairs, pair.2 = m.2 := by
  have hfold : ∀ (pairs : List (String × α)) (members : Members α),
      m ∈ pairs.foldl (fun ms pair => insert pair.1 pair.2 ms) members →
        (∃ pair ∈ pairs, pair.2 = m.2) ∨ m ∈ members := by
    intro pairs
    induction pairs with
    | nil => exact fun _ h => .inr h
    | cons pair rest ih =>
      intro members h
      rcases ih _ h with ⟨other, hother, heq⟩ | h
      · exact .inl ⟨other, List.mem_cons_of_mem _ hother, heq⟩
      · rcases mem_insert h with h | h
        · exact .inl ⟨pair, List.mem_cons_self, h.symm⟩
        · exact .inr h
  exact (hfold pairs [] h).resolve_right (by simp)

end Members

/-! ## Projections of a shape -/

/-- Whether a scalar is of a shape: one value, not the absent constant unless the shape says so. -/
def Scalar.Fits (e : Scalar) : Shape → Prop
  | .value absent => e.isNullValue = true → absent = true
  | .record _ => False

mutual

/-- Whether a projection is of a shape. -/
def Projection.Fits : Projection → Shape → Prop
  | .entity _ _ members, σ => ∃ shapes, σ = .record shapes ∧
    List.Forall₂ (fun m shape => m.1 = shape.1 ∧ m.2.Fits shape.2) members shapes
  | .record members, σ => ∃ shapes, σ = .record shapes ∧ membersFit members shapes
  | .scalar e, σ => e.Fits σ
  | .grouping .., _ => False
termination_by structural p => p

/-- Whether members are of some shapes, name by name. -/
def membersFit : List (String × Projection) → List (String × Shape) → Prop
  | [], shapes => shapes = []
  | (name, p) :: rest, shapes =>
    ∃ τ others, shapes = (name, τ) :: others ∧ p.Fits τ ∧ membersFit rest others
termination_by structural ms => ms

end

section

variable {shapes : List (String × Shape)}

@[simp]
theorem membersFit_nil : membersFit [] shapes ↔ shapes = [] := Iff.rfl

theorem membersFit_cons {name : String} {p : Projection} {rest : List (String × Projection)} :
    membersFit ((name, p) :: rest) shapes ↔
      ∃ τ others, shapes = (name, τ) :: others ∧ p.Fits τ ∧ membersFit rest others :=
  Iff.rfl

end

/-- Members that are scalars fit as the members of a record do. -/
theorem membersFit_scalars {members : List (String × Scalar)} {shapes : List (String × Shape)} :
    membersFit (members.map fun m => (m.1, Projection.scalar m.2)) shapes ↔
      List.Forall₂ (fun m shape => m.1 = shape.1 ∧ m.2.Fits shape.2) members shapes := by
  induction members generalizing shapes with
  | nil => rw [List.map_nil, membersFit_nil, List.forall₂_nil_left_iff]
  | cons m rest ih =>
    rw [List.map_cons, membersFit_cons, List.forall₂_cons_left_iff]
    constructor
    · rintro ⟨τ, others, rfl, hfits, hrest⟩
      exact ⟨(m.1, τ), others, ⟨rfl, hfits⟩, ih.mp hrest, rfl⟩
    · rintro ⟨⟨name, τ⟩, others, ⟨rfl, hfits⟩, hrest, rfl⟩
      exact ⟨τ, others, rfl, hfits, ih.mpr hrest⟩

theorem membersFit_get? {name : String} {τ : Shape} :
    ∀ {members : List (String × Projection)} {shapes : List (String × Shape)},
      membersFit members shapes → Members.get? name shapes = some τ →
        ∃ p, Members.get? name members = some p ∧ p.Fits τ
  | [], _, hfit, hget => by
    rw [membersFit_nil] at hfit
    simp [hfit] at hget
  | (key, p) :: rest, _, hfit, hget => by
    rw [membersFit_cons] at hfit
    obtain ⟨υ, others, rfl, hp, hrest⟩ := hfit
    by_cases h : key = name
    · simp only [Members.get?, h, beq_self_eq_true, if_true, Option.some.injEq] at hget ⊢
      exact ⟨p, rfl, hget ▸ hp⟩
    · simp only [Members.get?, beq_eq_false_iff_ne.mpr h, Bool.false_eq_true, if_false] at hget ⊢
      exact membersFit_get? hrest hget

theorem membersFit_insert {name : String} {p : Projection} {τ : Shape} (hp : p.Fits τ) :
    ∀ {members : List (String × Projection)} {shapes : List (String × Shape)},
      membersFit members shapes →
        membersFit (Members.insert name p members) (Members.insert name τ shapes)
  | [], _, hfit => by
    rw [membersFit_nil] at hfit
    rw [hfit, Members.insert, Members.insert, membersFit_cons]
    exact ⟨τ, [], rfl, hp, by rw [membersFit_nil]⟩
  | (key, q) :: rest, _, hfit => by
    rw [membersFit_cons] at hfit
    obtain ⟨υ, others, rfl, hq, hrest⟩ := hfit
    by_cases h : key = name
    · simp only [Members.insert, h, beq_self_eq_true, if_true, membersFit_cons]
      exact ⟨τ, others, rfl, hp, hrest⟩
    · simp only [Members.insert, beq_eq_false_iff_ne.mpr h, Bool.false_eq_true, if_false,
        membersFit_cons]
      exact ⟨υ, _, rfl, hq, membersFit_insert hp hrest⟩

/-- Members given twice keep their last shape. -/
theorem membersFit_ofList {members : List (String × Projection)}
    {shapes : List (String × Shape)} (h : membersFit members shapes) :
    membersFit (Members.ofList members) (Members.ofList shapes) := by
  have hfold : ∀ (members : List (String × Projection)) (shapes : List (String × Shape)),
      membersFit members shapes → ∀ ms ss, membersFit ms ss →
        membersFit (members.foldl (fun ms m => Members.insert m.1 m.2 ms) ms)
          (shapes.foldl (fun ss m => Members.insert m.1 m.2 ss) ss) := by
    intro members
    induction members with
    | nil =>
      intro shapes hfit ms ss h
      rw [membersFit_nil] at hfit
      rw [hfit]
      exact h
    | cons m rest ih =>
      intro shapes hfit ms ss h
      obtain ⟨name, p⟩ := m
      rw [membersFit_cons] at hfit
      obtain ⟨τ, others, rfl, hp, hrest⟩ := hfit
      exact ih others hrest _ _ (membersFit_insert hp h)
  exact hfold members shapes h [] [] (by rw [membersFit_nil])

/-- A member of the shape is a member of the projection. -/
theorem Projection.Fits.member? {p : Projection} {shapes : List (String × Shape)}
    (h : p.Fits (.record shapes)) {name : String} {τ : Shape}
    (hget : Members.get? name shapes = some τ) : ∃ m, p.member? name = some m ∧ m.Fits τ := by
  cases p with
  | entity entityName table members =>
    obtain ⟨_, heq, hfit⟩ := h
    cases heq
    obtain ⟨m, hm, hfits⟩ := membersFit_get? (membersFit_scalars.mpr hfit) hget
    rw [Members.get?_map (fun e => Projection.scalar e)] at hm
    exact ⟨m, hm, hfits⟩
  | record members =>
    obtain ⟨_, heq, hfit⟩ := h
    cases heq
    exact membersFit_get? hfit hget
  | scalar e => exact h.elim
  | grouping key element => exact h.elim

/-- A projection of single values is a scalar. -/
theorem Projection.Fits.scalar {p : Projection} {absent : Bool} (h : p.Fits (.value absent)) :
    ∃ e, p = .scalar e ∧ e.Fits (.value absent) := by
  cases p with
  | scalar e => exact ⟨e, rfl, h⟩
  | entity name table members => obtain ⟨_, heq, _⟩ := h; cases heq
  | record members => obtain ⟨_, heq, _⟩ := h; cases heq
  | grouping key element => exact h.elim

theorem Projection.Fits.isGrouping {p : Projection} {σ : Shape} (h : p.Fits σ) :
    p.isGrouping = false := by
  cases p with
  | grouping key element => exact h.elim
  | _ => rfl

/-! ## Members of elements -/

section

variable {V : Type} (I : Interpretation V) (ρ : Env V)

/-- The member of the element of a row is the element of the member. -/
theorem Projection.member?_denote {p m : Projection} {name : String}
    (h : p.member? name = some m) : (p.denote I ρ).member? name = some (m.denote I ρ) := by
  cases p with
  | entity entityName table members =>
    rw [Projection.member?] at h
    obtain ⟨e, he, rfl⟩ := Option.map_eq_some_iff.mp h
    change Members.get? name (members.map fun m => (m.1, Element.value (m.2.eval I ρ))) = _
    rw [Members.get?_map (fun e : Scalar => Element.value (e.eval I ρ)), he]
    rfl
  | record members =>
    have h : Members.get? name members = some m := h
    change Members.get? name (denoteMembers I ρ members) = _
    rw [denoteMembers_eq_map]
    exact (Members.get?_map (fun p => p.denote I ρ) name members).trans (by rw [h])
  | scalar e => cases h
  | grouping key element =>
    rw [Projection.member?] at h
    split at h
    · next hname =>
      cases h
      rw [eq_of_beq hname]
      rfl
    · cases h

/-- An entity stands for the element that the record of its members stands for. -/
theorem Projection.denote_record_scalars {name : String} {table : Option TableRef}
    {members : List (String × Scalar)} :
    (Projection.record (members.map fun m => (m.1, .scalar m.2))).denote I ρ =
      (Projection.entity name table members).denote I ρ := by
  rw [Projection.denote, Projection.denote, denoteMembers_eq_map, List.map_map]
  rfl

theorem denoteMembers_ofList (members : List (String × Projection)) :
    denoteMembers I ρ (Members.ofList members) = Members.ofList (denoteMembers I ρ members) := by
  rw [denoteMembers_eq_map, denoteMembers_eq_map]
  exact (Members.ofList_map (fun p => p.denote I ρ) members).symm

end

/-! ## Scalars of projections -/

mutual

/-- Whether every scalar of a projection has a property. -/
def Projection.All (S : Scalar → Prop) : Projection → Prop
  | .entity _ _ members => ∀ m ∈ members, S m.2
  | .record members => allMembers S members
  | .scalar e => S e
  | .grouping key _ => key.All S
termination_by structural p => p

/-- Whether every scalar of some members has a property. -/
def allMembers (S : Scalar → Prop) : List (String × Projection) → Prop
  | [] => True
  | (_, p) :: rest => p.All S ∧ allMembers S rest
termination_by structural ms => ms

end

section

variable {S S' : Scalar → Prop}

theorem allMembers_iff {members : List (String × Projection)} :
    allMembers S members ↔ ∀ m ∈ members, m.2.All S := by
  induction members with
  | nil => simp [allMembers]
  | cons m rest ih => simp [allMembers, ih]

@[simp]
theorem Projection.all_entity {name : String} {table : Option TableRef}
    {members : List (String × Scalar)} :
    (Projection.entity name table members).All S ↔ ∀ m ∈ members, S m.2 := Iff.rfl

@[simp]
theorem Projection.all_record {members : List (String × Projection)} :
    (Projection.record members).All S ↔ ∀ m ∈ members, m.2.All S := allMembers_iff

@[simp]
theorem Projection.all_scalar {e : Scalar} : (Projection.scalar e).All S ↔ S e := Iff.rfl

theorem mem_of_get? {α : Type} {name : String} {a : α} {members : Members α}
    (h : Members.get? name members = some a) : ∃ m ∈ members, m.2 = a := by
  induction members with
  | nil => simp at h
  | cons m rest ih =>
    obtain ⟨key, b⟩ := m
    rw [Members.get?] at h
    split at h
    · cases h
      exact ⟨_, List.mem_cons_self, rfl⟩
    · obtain ⟨m, hm, heq⟩ := ih h
      exact ⟨m, List.mem_cons_of_mem _ hm, heq⟩

/-- A member of a projection has the property too. -/
theorem Projection.All.member? {p m : Projection} (h : p.All S) {name : String}
    (hm : p.member? name = some m) : m.All S := by
  cases p with
  | entity entityName table members =>
    rw [Projection.member?] at hm
    obtain ⟨e, he, rfl⟩ := Option.map_eq_some_iff.mp hm
    rw [all_entity] at h
    obtain ⟨m, hmem, rfl⟩ := mem_of_get? he
    exact all_scalar.mpr (h m hmem)
  | record members =>
    rw [all_record] at h
    obtain ⟨m, hmem, rfl⟩ := mem_of_get? hm
    exact h m hmem
  | scalar e => cases hm
  | grouping key element =>
    rw [Projection.member?] at hm
    split at hm
    · cases hm
      exact h
    · cases hm

mutual

/-- The scalars of a projection are those of its leaves. -/
theorem Projection.all_iff_leavesAt (p : Projection) (path : String) :
    p.All S ↔ ∀ leaf ∈ p.leavesAt path, S leaf.2 := by
  cases p with
  | entity name table members =>
    rw [Projection.all_entity, Projection.leavesAt, List.forall_mem_map]
  | record members => exact allMembers_iff_leaves members path
  | scalar e => simp [Projection.leavesAt]
  | grouping key element => exact Projection.all_iff_leavesAt key _
termination_by structural p

/-- The scalars of members are those of their leaves. -/
theorem allMembers_iff_leaves (members : List (String × Projection)) (path : String) :
    allMembers S members ↔ ∀ leaf ∈ Projection.leavesOfMembers path members, S leaf.2 := by
  cases members with
  | nil => simp [Projection.leavesOfMembers, allMembers]
  | cons m rest =>
    obtain ⟨name, p⟩ := m
    rw [allMembers, Projection.leavesOfMembers, List.forall_mem_append,
      Projection.all_iff_leavesAt p, allMembers_iff_leaves rest path]
termination_by structural members

end

theorem Projection.all_iff_leaves {p : Projection} : p.All S ↔ ∀ leaf ∈ p.leaves, S leaf.2 :=
  p.all_iff_leavesAt ""

theorem Projection.All.imp {p : Projection} (h : p.All S) (himp : ∀ e, S e → S' e) : p.All S' :=
  Projection.all_iff_leaves.mpr fun leaf hleaf => himp _ (Projection.all_iff_leaves.mp h leaf hleaf)

end

/-! ## Elements and their leaves -/

section

variable {V : Type} {I : Interpretation V} {ρ ρ' : Env V}

mutual

/-- The element of a row depends on the values of the scalars only. -/
theorem Projection.denote_congr (p : Projection)
    (h : p.All fun e => e.eval I ρ = e.eval I ρ') : p.denote I ρ = p.denote I ρ' := by
  cases p with
  | entity name table members =>
    rw [Projection.denote, Projection.denote]
    refine congrArg Element.record (List.map_congr_left fun m hm => ?_)
    exact congrArg (fun v => (m.1, Element.value v)) (Projection.all_entity.mp h m hm)
  | record members =>
    rw [Projection.denote, Projection.denote, denoteMembers_congr members h]
  | scalar e =>
    rw [Projection.denote, Projection.denote, Projection.all_scalar.mp h]
  | grouping key element =>
    rw [Projection.denote, Projection.denote, Projection.denote_congr key h]
termination_by structural p

theorem denoteMembers_congr (members : List (String × Projection))
    (h : allMembers (fun e => e.eval I ρ = e.eval I ρ') members) :
    denoteMembers I ρ members = denoteMembers I ρ' members := by
  cases members with
  | nil => rfl
  | cons m rest =>
    obtain ⟨name, p⟩ := m
    rw [denoteMembers, denoteMembers, Projection.denote_congr p h.1, denoteMembers_congr rest h.2]
termination_by structural members

end

/-- Two rows stand for the same element if the scalars have the same values on them. -/
theorem Projection.denote_eq_iff {p : Projection} :
    p.denote I ρ = p.denote I ρ' ↔ p.All fun e => e.eval I ρ = e.eval I ρ' := by
  refine ⟨fun h => Projection.all_iff_leaves.mpr fun leaf hleaf => ?_, p.denote_congr⟩
  have hleaves : p.leaves.map (evalLeaf I ρ) = p.leaves.map (evalLeaf I ρ') := by
    rw [← p.leaves_denote, ← p.leaves_denote, h]
  exact congrArg Prod.snd (List.map_inj_left.mp hleaves leaf hleaf)

/-- Rows that stand for the same element agree on every leaf. -/
theorem Projection.eval_eq_of_denote_eq {p : Projection} {leaf : String × Scalar}
    (hleaf : leaf ∈ p.leaves) (h : p.denote I ρ = p.denote I ρ') :
    leaf.2.eval I ρ = leaf.2.eval I ρ' :=
  Projection.all_iff_leaves.mp (Projection.denote_eq_iff.mp h) leaf hleaf

end

/-- Whether a scalar is a text with arguments. -/
def Scalar.isRaw : Scalar → Bool
  | .raw .. => true
  | _ => false

/-- A scalar that elements of a query are made of: its conditions say something, its columns are
those of an earlier query, and it is no text. -/
structure Scalar.IsPart (s : Store) (q : QueryRef) (e : Scalar) : Prop where
  solid : ∀ c, e = .condition c → c.isSolid = true
  column : ∀ c, e = .column c →
    c.index < s.columns.size ∧ (s.column c).parent.index < q.index
  raw : e.isRaw = false

end SqlCompiler
