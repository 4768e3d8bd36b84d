import Mathlib.Data.List.Forall2
import SqlCompiler.Term.Basic

/-!
# Children of terms

A traversal of a term is one of the list of its children, whose results take their places.

Main results:

- Theorems `Term.withChildren_children` and `Term.children_withChildren`: a node is its children in
  their places.
- Definition `Term.OccursIn`: the nodes of a term.
- Theorem `Term.mapChildren_eq`: changing every child is changing the list of them.
- Theorem `Term.replaceDown_eq`: replacing nodes is replacing those of the children.
- Theorem `Term.gather_eq`: what a test finds below a node it has no answer for.
-/

namespace SqlCompiler

namespace Term

/-! ## Nodes and their children -/

theorem renewMembers_self (members : List (String × Term)) :
    renewMembers members (members.map (·.2)) = members := by
  rw [renewMembers, ← List.unzip_fst, ← List.unzip_snd, List.zip_unzip]

theorem map_snd_renewMembers {members : List (String × Term)} {terms : List Term}
    (h : terms.length = members.length) : (renewMembers members terms).map (·.2) = terms := by
  unfold renewMembers
  rw [List.map_snd_zip]
  simp [h]

@[simp]
theorem withChildren_children (t : Term) : t.withChildren t.children = t := by
  cases t <;> simp [withChildren, children, renewMembers_self]

theorem children_withChildren {t : Term} {terms : List Term}
    (h : terms.length = t.children.length) : (t.withChildren terms).children = terms := by
  cases t with
  | record members | entity _ members =>
    simp only [children, List.length_map] at h
    exact map_snd_renewMembers h
  | call _ args | function _ args => rfl
  | _ =>
    rcases terms with _ | ⟨a, _ | ⟨b, _ | ⟨c, _ | ⟨d, rest⟩⟩⟩⟩ <;>
      simp [children, withChildren] at h ⊢

/-! ## Equality -/

theorem forall₂_of_beqTerms {as bs : List Term} (h : beqTerms as bs = true) :
    List.Forall₂ (fun a b => a.beq b = true) as bs := by
  match as, bs with
  | [], [] => exact .nil
  | [], _ :: _ | _ :: _, [] => cases h
  | a :: as, b :: bs =>
    simp only [beqTerms, Bool.and_eq_true] at h
    exact .cons h.1 (forall₂_of_beqTerms h.2)

theorem forall₂_of_beqMembers {as bs : List (String × Term)} (h : beqMembers as bs = true) :
    List.Forall₂ (fun a b => a.1 = b.1 ∧ a.2.beq b.2 = true) as bs := by
  match as, bs with
  | [], [] => exact .nil
  | [], _ :: _ | _ :: _, [] => cases h
  | a :: as, b :: bs =>
    simp only [beqMembers, Bool.and_eq_true, beq_iff_eq] at h
    exact .cons h.1 (forall₂_of_beqMembers h.2)

theorem terms_of_beqMembers {as bs : List (String × Term)} (h : beqMembers as bs = true) :
    List.Forall₂ (fun a b => a.beq b = true) (as.map (·.2)) (bs.map (·.2)) := by
  rw [List.forall₂_map_left_iff, List.forall₂_map_right_iff]
  exact (forall₂_of_beqMembers h).imp fun _ _ hab => hab.2

theorem names_of_beqMembers {as bs : List (String × Term)} (h : beqMembers as bs = true) :
    as.map (·.1) = bs.map (·.1) := by
  rw [← List.forall₂_eq_eq_eq, List.forall₂_map_left_iff, List.forall₂_map_right_iff]
  exact (forall₂_of_beqMembers h).imp fun _ _ hab => hab.1

/-- Equal terms have equal children. -/
theorem children_beq {a b : Term} (h : a.beq b = true) :
    List.Forall₂ (fun c d => c.beq d = true) a.children b.children := by
  fun_cases beq a b
  case case6 f as g bs | case7 n as m bs =>
    simp only [beq, Bool.and_eq_true] at h
    exact forall₂_of_beqTerms h.2
  case case15 as bs =>
    exact terms_of_beqMembers h
  case case16 n as m bs =>
    simp only [beq, Bool.and_eq_true] at h
    exact terms_of_beqMembers h.2
  all_goals simp_all [beq, children]

/-! ## Sizes -/

theorem size_le_sizeOfTerms {t : Term} {terms : List Term} (h : t ∈ terms) :
    t.size ≤ sizeOfTerms terms := by
  induction terms with
  | nil => cases h
  | cons head rest ih =>
    rw [sizeOfTerms]
    rcases List.mem_cons.mp h with rfl | h
    · omega
    · have := ih h
      omega

theorem sizeOfMembers_eq (members : List (String × Term)) :
    sizeOfMembers members = sizeOfTerms (members.map (·.2)) := by
  induction members with
  | nil => rfl
  | cons m rest ih => simp [sizeOfMembers, sizeOfTerms, ih]

theorem size_eq_children (t : Term) : t.size = sizeOfTerms t.children + 1 := by
  cases t with
  | conditional a b c =>
    simp [size, children, sizeOfTerms]
    omega
  | _ => simp [size, children, sizeOfTerms, sizeOfMembers_eq]

/-- A child is smaller than the node. -/
theorem size_lt_of_mem_children {t c : Term} (h : c ∈ t.children) : c.size < t.size := by
  have hle := size_le_sizeOfTerms h
  have hsize := t.size_eq_children
  omega

/-- What holds of a term if it holds of its children holds of every term. -/
@[elab_as_elim]
theorem induction_on_children {motive : Term → Prop} (t : Term)
    (node : ∀ t : Term, (∀ c ∈ t.children, motive c) → motive t) : motive t := by
  apply node
  intro c hc
  have := size_lt_of_mem_children hc
  exact induction_on_children c node
termination_by t.size

/-- A node of a term, itself included. -/
inductive OccursIn (node : Term) : Term → Prop where
  | here : OccursIn node node
  | inside {t c : Term} (hc : c ∈ t.children) (h : OccursIn node c) : OccursIn node t

theorem OccursIn.trans {node part t : Term} (h : node.OccursIn part) (hpart : part.OccursIn t) :
    node.OccursIn t := by
  induction hpart with
  | here => exact h
  | inside hc _ ih => exact .inside hc ih

theorem OccursIn.child {t c : Term} (hc : c ∈ t.children) : c.OccursIn t := .inside hc .here

theorem OccursIn.size_le {node t : Term} (h : node.OccursIn t) : node.size ≤ t.size := by
  induction h with
  | here => exact Nat.le_refl _
  | inside hc _ ih => exact Nat.le_trans ih (Nat.le_of_lt (size_lt_of_mem_children hc))

/-! ## Traversals -/

section

variable {m : Type → Type} [Monad m] [LawfulMonad m]

/-- Changing the terms of members is changing the list of them. -/
theorem mapM_members (f : Term → m Term) (members : List (String × Term)) :
    (members.mapM fun (name, t) => return (name, ← f t)) =
      renewMembers members <$> (members.map (·.2)).mapM f := by
  induction members with
  | nil => simp [renewMembers]
  | cons member rest ih =>
    simp only [List.mapM_cons, List.map_cons, ih]
    simp [renewMembers, Functor.map_map]

/-- Changing every child is changing the list of the children. -/
theorem mapChildren_eq (f : Term → m Term) (t : Term) :
    t.mapChildren f = t.withChildren <$> t.children.mapM f := by
  cases t with
  | call operator args | function operator args =>
    rw [mapChildren, bind_pure_comp]
    rfl
  | record members | entity name members =>
    rw [mapChildren, mapM_members, bind_pure_comp, Functor.map_map]
    rfl
  | _ => simp [mapChildren, children, withChildren, Functor.map_map]

end

section

variable (rule : Term → Option Term)

theorem replaceTerms_eq (terms : List Term) :
    replaceTerms rule terms = terms.map (replaceDown rule) := by
  induction terms with
  | nil => rfl
  | cons t rest ih => rw [replaceTerms, ih, List.map_cons]

theorem replaceMembers_eq (members : List (String × Term)) :
    replaceMembers rule members =
      renewMembers members ((members.map (·.2)).map (replaceDown rule)) := by
  induction members with
  | nil => rfl
  | cons m rest ih => simp [replaceMembers, renewMembers, ih]

/-- A node that a rule has no answer for keeps its place above its replaced children. -/
theorem replaceDown_eq (t : Term) :
    t.replaceDown rule =
      (rule t).getD (t.withChildren (t.children.map (replaceDown rule))) := by
  cases t with
  | call operator args | function operator args =>
    rw [replaceDown, replaceTerms_eq]
    cases rule _ <;> rfl
  | record members | entity name members =>
    rw [replaceDown, replaceMembers_eq]
    cases rule _ <;> rfl
  | _ =>
    rw [replaceDown.eq_def]
    cases rule _ <;> simp [children, withChildren]

end

theorem gatherTerms_eq {α : Type} (test : Term → Option (List α)) (terms : List Term) :
    gatherTerms test terms = terms.flatMap (gather test) := by
  induction terms with
  | nil => rfl
  | cons t rest ih => simp [gatherTerms, ih]

theorem gatherMembers_eq {α : Type} (test : Term → Option (List α))
    (members : List (String × Term)) :
    gatherMembers test members = (members.map (·.2)).flatMap (gather test) := by
  induction members with
  | nil => rfl
  | cons m rest ih => simp [gatherMembers, ih]

/-- What a test finds at a node is its answer, else what it finds at the children. -/
theorem gather_eq {α : Type} (test : Term → Option (List α)) (t : Term) :
    t.gather test = (test t).getD (t.children.flatMap (gather test)) := by
  cases t with
  | call operator args | function operator args =>
    rw [gather, gatherTerms_eq]
    cases test _ <;> rfl
  | record members | entity name members =>
    rw [gather, gatherMembers_eq]
    cases test _ <;> rfl
  | _ =>
    rw [gather.eq_def]
    cases test _ <;> simp [children]

/-- What a test finds is part of its answer for a node of the term. -/
theorem mem_of_gather {α : Type} {test : Term → Option (List α)} {t : Term} {a : α}
    (h : a ∈ t.gather test) :
    ∃ node found, node.OccursIn t ∧ test node = some found ∧ a ∈ found := by
  induction t using induction_on_children with
  | node t ih =>
    rw [gather_eq] at h
    cases htest : test t with
    | some found =>
      rw [htest] at h
      exact ⟨t, found, .here, htest, h⟩
    | none =>
      rw [htest] at h
      obtain ⟨c, hc, h⟩ := List.mem_flatMap.mp h
      obtain ⟨node, found, hnode, hfound⟩ := ih c hc h
      exact ⟨node, found, .inside hc hnode, hfound⟩

end Term

end SqlCompiler
