import Mathlib.Data.List.Forall2
import SqlCompiler.Proofs.Normalization.Children
import SqlCompiler.Term.Normalize

/-!
# Normal forms are fixed

What normalizing a term ends with has no node to which a rule applies, so normalizing it again
changes nothing and makes up no name.  The rules are applied from the leaves up: a node is left
only after its children have been, and what a rule makes of it is normalized as a whole.

Proofs go by the fuel that a run takes: `Term.normalizing` ends with a term exactly if
`Term.normalizeWithin` does so within some fuel.

Main results:

- Definition `Term.IsNormal`: no rule applies at any node.
- Definition `Term.normalizeWithin`: normalizing for as long as the fuel lasts.
- Theorem `Term.normalizing_eq_some`: normalizing ends as it does within some fuel.
- Definition `Term.NormalizesTo`: normalizing a term, for as long as it takes, ends with another.
- Theorem `Term.normalizeWithin_isNormal`: what normalizing ends with is normal.
- Theorem `Term.NormalizesTo.fixed`: it is its own only normal form.
- Theorem `Term.normalize_normalize`: normalizing twice is normalizing once.
-/

namespace SqlCompiler

namespace Term

/-! ## Runs of steps that make up names -/

namespace NameM

variable {α β : Type} {n n' : Nat}

theorem run_bind_eq_some {step : NameM α} {next : α → NameM β} {b : β} :
    (step >>= next).run n = some (b, n') ↔
      ∃ a n₁, step.run n = some (a, n₁) ∧ (next a).run n₁ = some (b, n') := by
  rw [StateT.run_bind]
  constructor
  · intro h
    obtain ⟨⟨a, n₁⟩, hstep, hnext⟩ := Option.bind_eq_some_iff.mp h
    exact ⟨a, n₁, hstep, hnext⟩
  · rintro ⟨a, n₁, hstep, hnext⟩
    exact Option.bind_eq_some_iff.mpr ⟨(a, n₁), hstep, hnext⟩

theorem run_map_eq_some {step : NameM α} {f : α → β} {b : β} :
    (f <$> step).run n = some (b, n') ↔ ∃ a, step.run n = some (a, n') ∧ f a = b := by
  rw [← bind_pure_comp, run_bind_eq_some]
  constructor
  · rintro ⟨a, n₁, hstep, hpure⟩
    cases hpure
    exact ⟨a, hstep, rfl⟩
  · rintro ⟨a, hstep, rfl⟩
    exact ⟨a, n', hstep, rfl⟩

/-- Each result of steps over a list comes from its item. -/
theorem forall₂_of_mapM {f : α → NameM β} {items : List α} {results : List β}
    (h : (items.mapM f).run n = some (results, n')) :
    List.Forall₂ (fun a b => ∃ m m', (f a).run m = some (b, m')) items results := by
  induction items generalizing n results with
  | nil =>
    cases h
    exact .nil
  | cons a rest ih =>
    rw [List.mapM_cons] at h
    obtain ⟨b, n₁, hfirst, h⟩ := run_bind_eq_some.mp h
    obtain ⟨bs, n₂, hrest, h⟩ := run_bind_eq_some.mp h
    cases h
    exact .cons ⟨n, n₁, hfirst⟩ (ih hrest)

/-- Each item of the second of two related lists has a partner in the first. -/
theorem exists_of_forall₂ {R : α → β → Prop} {items : List α} {results : List β} {b : β}
    (h : List.Forall₂ R items results) (hb : b ∈ results) : ∃ a ∈ items, R a b := by
  induction h with
  | nil => cases hb
  | cons hab _ ih =>
    rcases List.mem_cons.mp hb with rfl | hb
    · exact ⟨_, List.mem_cons_self, hab⟩
    · obtain ⟨a, ha, hR⟩ := ih hb
      exact ⟨a, List.mem_cons_of_mem _ ha, hR⟩

/-- Steps over a list that each leave their item alone leave the list alone. -/
theorem run_mapM_self {f : α → NameM α} {items : List α}
    (h : ∀ a ∈ items, (f a).run n = some (a, n)) : (items.mapM f).run n = some (items, n) := by
  induction items with
  | nil => rfl
  | cons a rest ih =>
    rw [List.mapM_cons]
    have hrest := ih fun b hb => h b (List.mem_cons_of_mem a hb)
    exact run_bind_eq_some.mpr ⟨a, n, h a List.mem_cons_self,
      run_bind_eq_some.mpr ⟨rest, n, hrest, rfl⟩⟩

/-- Steps over a list that go at least as far go as far on the list. -/
theorem run_mapM_mono {f g : α → NameM β} {items : List α} {results : List β}
    (hfg : ∀ a ∈ items, ∀ n b n', (f a).run n = some (b, n') → (g a).run n = some (b, n'))
    (h : (items.mapM f).run n = some (results, n')) :
    (items.mapM g).run n = some (results, n') := by
  induction items generalizing n n' results with
  | nil => exact h
  | cons a rest ih =>
    rw [List.mapM_cons] at h ⊢
    obtain ⟨b, n₁, hfirst, h⟩ := run_bind_eq_some.mp h
    obtain ⟨bs, n₂, hrest, h⟩ := run_bind_eq_some.mp h
    have hfirst := hfg a List.mem_cons_self n b n₁ hfirst
    have hrest := ih (fun c hc => hfg c (List.mem_cons_of_mem a hc)) hrest
    exact run_bind_eq_some.mpr ⟨b, n₁, hfirst, run_bind_eq_some.mpr ⟨bs, n₂, hrest, h⟩⟩

/-- The results for the children of a node are the children of the node they are put into. -/
theorem mapChildren_eq_some {f : Term → NameM Term} {t t' : Term} :
    (t.mapChildren f).run n = some (t', n') ↔
      ∃ terms, (t.children.mapM f).run n = some (terms, n') ∧ t.withChildren terms = t' := by
  rw [mapChildren_eq, run_map_eq_some]

theorem children_of_mapChildren {f : Term → NameM Term} {t t' : Term}
    (h : (t.mapChildren f).run n = some (t', n')) :
    List.Forall₂ (fun c c' => ∃ m m', (f c).run m = some (c', m')) t.children t'.children := by
  obtain ⟨terms, hterms, rfl⟩ := mapChildren_eq_some.mp h
  have hforall := forall₂_of_mapM hterms
  rwa [children_withChildren hforall.length_eq.symm]

end NameM

/-! ## Normal terms -/

/-- No rule applies at any node. -/
def IsNormal (t : Term) : Prop := ∀ node : Term, node.OccursIn t → node.step? = none

variable {fuel more start stop : Nat} {t normal again : Term}

/-- A term is normal if no rule applies to it and its children are normal. -/
theorem isNormal_iff : t.IsNormal ↔ t.step? = none ∧ ∀ c ∈ t.children, c.IsNormal := by
  constructor
  · intro h
    constructor
    · exact h t .here
    · intro c hc node hnode
      exact h node (.inside hc hnode)
  · rintro ⟨hstep, hchildren⟩ node hnode
    cases hnode with
    | here => exact hstep
    | inside hc hnode => exact hchildren _ hc node hnode

/-- Apply the rules from the leaves up until none applies; gives up when the steps and nodes
below each other are more than `fuel`. -/
def normalizeWithin : Nat → Term → NameM Term
  | 0, _ => failure
  | fuel + 1, t => do
    let t ← t.mapChildren (normalizeWithin fuel)
    match t.step? with
    | some step => normalizeWithin fuel (← step)
    | none => return t

/-- What normalizing ends with is normal: the last node was left alone, with children that
normalizing ended with. -/
theorem normalizeWithin_isNormal (h : (normalizeWithin fuel t).run start = some (normal, stop)) :
    normal.IsNormal := by
  induction fuel generalizing t start normal stop with
  | zero => cases h
  | succ fuel ih =>
    rw [normalizeWithin] at h
    obtain ⟨t', n, hchildren, h⟩ := NameM.run_bind_eq_some.mp h
    cases hstep : t'.step? with
    | some step =>
      rw [hstep] at h
      obtain ⟨t'', n', -, h⟩ := NameM.run_bind_eq_some.mp h
      exact ih h
    | none =>
      rw [hstep] at h
      cases h
      rw [isNormal_iff]
      refine ⟨hstep, ?_⟩
      intro c hc
      have hforall := NameM.children_of_mapChildren hchildren
      obtain ⟨c₀, -, m, m', hrun⟩ := NameM.exists_of_forall₂ hforall hc
      exact ih hrun

/-- Normalizing leaves a normal term as it is and makes up no name. -/
theorem normalizeWithin_of_isNormal (h : t.IsNormal) (hfuel : t.size ≤ fuel) :
    (normalizeWithin fuel t).run start = some (t, start) := by
  induction fuel generalizing t start with
  | zero =>
    have hsize := t.size_eq_children
    omega
  | succ fuel ih =>
    obtain ⟨hstep, hchildren⟩ := isNormal_iff.mp h
    have hself : (t.children.mapM (normalizeWithin fuel)).run start =
        some (t.children, start) := by
      apply NameM.run_mapM_self
      intro c hc
      have hlt := size_lt_of_mem_children hc
      exact ih (hchildren c hc) (by omega)
    have hmap : (t.mapChildren (normalizeWithin fuel)).run start = some (t, start) :=
      NameM.mapChildren_eq_some.mpr ⟨t.children, hself, withChildren_children t⟩
    rw [normalizeWithin]
    apply NameM.run_bind_eq_some.mpr
    refine ⟨t, start, hmap, ?_⟩
    rw [hstep]
    rfl

/-- With more fuel normalizing ends the same way. -/
theorem normalizeWithin_mono (h : (normalizeWithin fuel t).run start = some (normal, stop))
    (hmore : fuel ≤ more) : (normalizeWithin more t).run start = some (normal, stop) := by
  induction fuel generalizing t start more normal stop with
  | zero => cases h
  | succ fuel ih =>
    obtain ⟨more, rfl⟩ : ∃ k, more = k + 1 := ⟨more - 1, by omega⟩
    have hle : fuel ≤ more := by omega
    rw [normalizeWithin] at h ⊢
    obtain ⟨t', n, hchildren, h⟩ := NameM.run_bind_eq_some.mp h
    obtain ⟨terms, hterms, rfl⟩ := NameM.mapChildren_eq_some.mp hchildren
    have hterms' : (t.children.mapM (normalizeWithin more)).run start = some (terms, n) := by
      apply NameM.run_mapM_mono _ hterms
      intro c _ m c' m' hc
      exact ih hc hle
    have hchildren' := NameM.mapChildren_eq_some.mpr ⟨terms, hterms', rfl⟩
    apply NameM.run_bind_eq_some.mpr
    refine ⟨t.withChildren terms, n, hchildren', ?_⟩
    cases hstep : (t.withChildren terms).step? with
    | none =>
      rw [hstep] at h
      exact h
    | some step =>
      rw [hstep] at h
      obtain ⟨t'', n', hrun, h⟩ := NameM.run_bind_eq_some.mp h
      exact NameM.run_bind_eq_some.mpr ⟨t'', n', hrun, ih h hle⟩

theorem mapM_normalizeWithin_mono {terms parts : List Term}
    (h : (terms.mapM (normalizeWithin fuel)).run start = some (parts, stop))
    (hmore : fuel ≤ more) : (terms.mapM (normalizeWithin more)).run start = some (parts, stop) :=
  NameM.run_mapM_mono (fun _ _ _ _ _ hc => normalizeWithin_mono hc hmore) h

/-! ## Normalizing without a bound -/

theorem normalizing_of_within (h : (normalizeWithin fuel t).run start = some (normal, stop)) :
    normalizing t start = some (normal, stop) := by
  induction fuel generalizing t start normal stop with
  | zero => cases h
  | succ fuel ih =>
    rw [normalizeWithin] at h
    obtain ⟨t', n, hchildren, h⟩ := NameM.run_bind_eq_some.mp h
    obtain ⟨parts, hparts, rfl⟩ := NameM.mapChildren_eq_some.mp hchildren
    have hparts' := NameM.run_mapM_mono (g := normalizing) (fun c _ m c' m' => ih) hparts
    rw [normalizing]
    refine Option.bind_eq_some_iff.mpr ⟨(parts, n), hparts', ?_⟩
    cases hstep : (t.withChildren parts).step? with
    | none =>
      rw [hstep] at h
      cases h
      simp [hstep]
    | some step =>
      rw [hstep] at h
      obtain ⟨t'', n', hrun, h⟩ := NameM.run_bind_eq_some.mp h
      simp [hstep, hrun, ih h]

/-- What steps over a list end with, given that each ends within some fuel, they end with within
fuel that lasts for all. -/
theorem exists_mapM_within {step : Term → NameM Term} {terms parts : List Term}
    (hstep : ∀ c start part stop, (step c).run start = some (part, stop) →
      ∃ fuel, (normalizeWithin fuel c).run start = some (part, stop))
    (h : (terms.mapM step).run start = some (parts, stop)) :
    ∃ fuel, (terms.mapM (normalizeWithin fuel)).run start = some (parts, stop) := by
  induction terms generalizing start parts with
  | nil =>
    cases h
    exact ⟨0, rfl⟩
  | cons t rest ih =>
    rw [List.mapM_cons] at h
    obtain ⟨part, n, hpart, h⟩ := NameM.run_bind_eq_some.mp h
    obtain ⟨others, _, hothers, h⟩ := NameM.run_bind_eq_some.mp h
    cases h
    obtain ⟨fuel, hpart⟩ := hstep t start part n hpart
    obtain ⟨fuel', hothers⟩ := ih hothers
    have hpart' := normalizeWithin_mono hpart (Nat.le_max_left fuel fuel')
    have hothers' := mapM_normalizeWithin_mono hothers (Nat.le_max_right fuel fuel')
    refine ⟨max fuel fuel', ?_⟩
    rw [List.mapM_cons]
    exact NameM.run_bind_eq_some.mpr ⟨part, n, hpart',
      NameM.run_bind_eq_some.mpr ⟨others, _, hothers', rfl⟩⟩

/-- Of a node and its children, the fuel that lasts for both lasts for the whole. -/
theorem within_of_normalizing {result : Term × Nat} (h : normalizing t start = some result) :
    ∃ fuel, (normalizeWithin fuel t).run start = some result := by
  refine normalizing.partial_correctness
    (fun t start result => ∃ fuel, (normalizeWithin fuel t).run start = some result)
    ?_ t start result h
  intro normalizing hnormalizing t start result h
  obtain ⟨⟨parts, n⟩, hparts, h⟩ := Option.bind_eq_some_iff.mp h
  obtain ⟨fuel, hparts⟩ := exists_mapM_within
    (fun c start part stop => hnormalizing c start (part, stop)) hparts
  cases hstep : (t.withChildren parts).step? with
  | none =>
    simp only [hstep] at h
    cases h
    refine ⟨fuel + 1, ?_⟩
    rw [normalizeWithin]
    have hchildren := NameM.mapChildren_eq_some.mpr ⟨parts, hparts, rfl⟩
    refine NameM.run_bind_eq_some.mpr ⟨t.withChildren parts, n, hchildren, ?_⟩
    rw [hstep]
    rfl
  | some step =>
    simp only [hstep] at h
    obtain ⟨⟨t', n'⟩, hrun, h⟩ := Option.bind_eq_some_iff.mp h
    obtain ⟨fuel', h⟩ := hnormalizing t' n' result h
    have hparts' := mapM_normalizeWithin_mono hparts (Nat.le_max_left fuel fuel')
    have h' := normalizeWithin_mono h (Nat.le_max_right fuel fuel')
    refine ⟨max fuel fuel' + 1, ?_⟩
    rw [normalizeWithin]
    have hchildren := NameM.mapChildren_eq_some.mpr ⟨parts, hparts', rfl⟩
    refine NameM.run_bind_eq_some.mpr ⟨t.withChildren parts, n, hchildren, ?_⟩
    rw [hstep]
    exact NameM.run_bind_eq_some.mpr ⟨t', n', hrun, h'⟩

/-- Normalizing ends with a term exactly if it does so within some fuel. -/
theorem normalizing_eq_some :
    normalizing t start = some (normal, stop) ↔
      ∃ fuel, (normalizeWithin fuel t).run start = some (normal, stop) := by
  constructor
  · exact within_of_normalizing
  · rintro ⟨fuel, h⟩
    exact normalizing_of_within h

/-! ## Normal forms -/

/-- Normalizing a term ends with another, however long it takes. -/
def NormalizesTo (t normal : Term) : Prop :=
  ∃ fuel stop, (normalizeWithin fuel t).run 0 = some (normal, stop)

/-- A term has at most one normal form. -/
theorem NormalizesTo.unique (h : t.NormalizesTo normal) (h' : t.NormalizesTo again) :
    again = normal := by
  obtain ⟨fuel, stop, h⟩ := h
  obtain ⟨fuel', stop', h'⟩ := h'
  have hmax := normalizeWithin_mono h (Nat.le_max_left fuel fuel')
  have hmax' := normalizeWithin_mono h' (Nat.le_max_right fuel fuel')
  rw [hmax] at hmax'
  cases hmax'
  rfl

theorem IsNormal.normalizesTo (h : t.IsNormal) : t.NormalizesTo t :=
  ⟨t.size, 0, normalizeWithin_of_isNormal h (Nat.le_refl t.size)⟩

/-- The normal form of a term that has one. -/
theorem NormalizesTo.normalize (h : t.NormalizesTo normal) : t.normalize = normal := by
  obtain ⟨fuel, stop, h⟩ := h
  unfold Term.normalize
  rw [normalizing_of_within h]

theorem IsNormal.normalize (h : t.IsNormal) : t.normalize = t := h.normalizesTo.normalize

/-- A term without a normal form stays as it is. -/
theorem normalize_cases (t : Term) :
    (t.NormalizesTo t.normalize) ∨ ((∀ normal, ¬t.NormalizesTo normal) ∧ t.normalize = t) := by
  by_cases h : ∃ normal, t.NormalizesTo normal
  · obtain ⟨normal, h⟩ := h
    rw [h.normalize]
    exact .inl h
  · refine .inr ⟨not_exists.mp h, ?_⟩
    unfold Term.normalize
    cases hrun : normalizing t 0 with
    | none => rfl
    | some result =>
      obtain ⟨fuel, hrun⟩ := normalizing_eq_some.mp hrun
      exact absurd ⟨result.1, fuel, result.2, hrun⟩ h

/-- Normalizing twice is normalizing once. -/
theorem normalize_normalize (t : Term) : t.normalize.normalize = t.normalize := by
  rcases t.normalize_cases with ⟨fuel, stop, hrun⟩ | ⟨-, hself⟩
  · exact (normalizeWithin_isNormal hrun).normalize
  · rw [hself, hself]

end Term

end SqlCompiler
