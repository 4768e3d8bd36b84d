import SqlCompiler.Proofs.Modifications.Flattening
import SqlCompiler.Proofs.Modifications.References

/-!
# References that still resolve

An update or a delete over several tables is moved to a copy of its target, or its joins become
further sources.  Whatever it refers to is still in view at the place where it stands, and the target
itself is only spoken of in the queries that have been moved.

Main results:

- Definition `Store.Continued`: what stands at the places of a statement that has been moved.
- Theorem `Store.Moved.continued`: nothing else does.
- Theorem `Store.restructureDml_keepsReferences`: every reference of a restructured statement resolves.
-/

namespace SqlCompiler.Store

variable {s s' : Store} {t : StatementRef} {target : TableRef} {around scopes scopes' : List QueryRef}
  {q : QueryRef} {p : Scalar}

/-! ## What goes on -/

namespace Carried

variable (hkeeps : s.KeepsAllBut q s') (hcarried : s.Carried s' q scopes scopes')
include hkeeps hcarried

/-- A table stays in view. -/
theorem shows {table : TableRef} (htable : table.index < s.tables.size)
    (h : s.Shows scopes table) : s'.Shows scopes' table := by
  rcases h with hpseudo | hreads
  · left
    rwa [hkeeps.table table htable]
  · exact .inr (hcarried.reads _ hreads)

/-- What was found is found. -/
theorem resolves (hlinked : s.Linked) (hknown : s.Knows q p)
    (hparent : ∀ c, p = .column c → (s.column c).parent ≠ q) (h : s.Resolves scopes p) :
    s'.Resolves scopes' p := by
  cases p with
  | field f =>
    change s'.Shows scopes' (s'.field f).table
    rw [hkeeps.field f hknown]
    exact hcarried.shows hkeeps (hlinked.table_lt hknown) h
  | allFields table => exact hcarried.shows hkeeps hknown h
  | tableSource table => exact hcarried.shows hkeeps hknown h
  | column c =>
    obtain ⟨r, hr, hfound⟩ := h
    change ∃ r ∈ scopes', r = (s'.column c).parent ∨ s'.Reads r (.query (s'.column c).parent)
    rw [hkeeps.column c hknown]
    rcases hfound with rfl | hreads
    · exact ⟨_, hcarried.mem _ hr (hparent c rfl), .inl rfl⟩
    · obtain ⟨r', hr', hreads'⟩ := hcarried.reads _ ⟨r, hr, hreads⟩
      exact ⟨r', hr', .inr hreads'⟩
  | _ => trivial

/-- The target is spoken of below a query that has been moved. -/
theorem speaks (hown : s.OwnSource q target) (hknown : s.Knows q p) (h : s.Resolves scopes p)
    (hspeaks : s'.SpeaksOf target p) : ∃ r ∈ scopes', r = q ∨ s.queries.size < r.index := by
  have hshows : s.Shows scopes target → ∃ r ∈ scopes', r = q ∨ s.queries.size < r.index := by
    rintro (hpseudo | ⟨r, hr, hreads⟩)
    · exact absurd hpseudo (by simp [hown.stored])
    · exact hcarried.moved (hown.alone r hreads ▸ hr)
  cases p with
  | field f =>
    have hspeaks : (s'.field f).table = target := hspeaks
    rw [hkeeps.field f hknown] at hspeaks
    exact hshows (hspeaks ▸ h)
  | allFields table =>
    have hspeaks : table = target := hspeaks
    exact hshows (hspeaks ▸ h)
  | tableSource table =>
    have hspeaks : table = target := hspeaks
    exact hshows (hspeaks ▸ h)
  | _ => cases hspeaks

end Carried

/-! ## Moved statements -/

/-- Whether something that is no query and no column refers to what is in view, and to the target
only below a query that has been moved. -/
structure InView (s s' : Store) (q : QueryRef) (target : TableRef) (scopes : List QueryRef)
    (p : Scalar) : Prop where
  notColumn : ∀ c, p ≠ .column c
  notQuery : ∀ r, p ≠ .query r
  resolves : s'.Resolves scopes p
  speaks : s'.SpeaksOf target p → ∃ r ∈ scopes, r = q ∨ s.queries.size < r.index

/-- What is no reference is in view everywhere. -/
theorem InView.of_isReference (h : p.isReference = false) : s.InView s' q target scopes p := by
  cases p with
  | field f => cases h
  | allFields table => cases h
  | tableSource table => cases h
  | column c => cases h
  | query r => cases h
  | _ => exact ⟨fun _ => Scalar.noConfusion, fun _ => Scalar.noConfusion, trivial, False.elim⟩

/-- What stands at a place of a moved statement: what stood in the statement, a query below the one
over the copy, or what refers to nothing but tables in view. -/
inductive Continued (s s' : Store) (t : StatementRef) (target : TableRef) (around : List QueryRef) :
    List QueryRef → Scalar → Prop where
  | carried {scopes scopes' : List QueryRef} {p : Scalar} (h : s.Stands t around scopes p)
      (hcarried : s.Carried s' (s.statement t).query scopes scopes') :
    Continued s s' t target around scopes' p
  | below {r : QueryRef} (h : s.StandsBelow s' t target around r) :
    Continued s s' t target around (⟨s.queries.size⟩ :: around) (.query r)
  | inView {scopes : List QueryRef} {p : Scalar}
      (h : s.InView s' (s.statement t).query target scopes p) :
    Continued s s' t target around scopes p

section

variable (hmoved : s.Moved t target s') (hgrounded : s.Grounded t around)
include hmoved hgrounded

/-- Below the query over the copy, a query that has been moved has everything in view that the
statement had. -/
theorem StandsBelow.carried {r : QueryRef} (h : s.StandsBelow s' t target around r) :
    s.Carried s' (s.statement t).query ((s.statement t).query :: around)
      (r :: ⟨s.queries.size⟩ :: around) :=
  .replace hmoved.keeps
    (.enter hmoved.keeps (.refl hmoved.keeps hgrounded.outside) (Nat.le_refl _)) h.moved h.reads

/-- A query that stays holds what it held. -/
theorem Moved.clauses_eq {r : QueryRef} (h : s.Stands t around scopes (.query r)) :
    s'.clauses r = s.clauses r := by
  have hopen : s.IsOpen t around r := .inr ⟨scopes, h⟩
  obtain ⟨hlt, hne⟩ : r.index < s.queries.size ∧ r ≠ (s.statement t).query :=
    hgrounded.parts _ _ h
  have hcolumns : (s.query r).columns.flatMap (fun c => (s'.column c).expression.walk) =
      (s.query r).columns.flatMap (fun c => (s.column c).expression.walk) :=
    List.flatMap_congr fun c hc => by rw [hmoved.keeps.column c (hgrounded.columns r hopen c hc)]
  have hitems : (s.query r).allSources.flatMap (fun x => s'.itemParts x.item) =
      (s.query r).allSources.flatMap (fun x => s.itemParts x.item) := by
    apply List.flatMap_congr
    intro x hx
    cases hitem : x.item with
    | table table =>
      have htable := hgrounded.tables r hopen table ⟨x, hx, hitem⟩
      rw [itemParts, itemParts, hmoved.keeps.table table htable]
    | query r => rfl
  rw [clauses, clauses, hmoved.keeps.query r hlt hne, hcolumns, hitems]

variable (hlinked : s.Linked) (hown : s.OwnSource (s.statement t).query target)
include hlinked hown

omit hlinked in
/-- The counterpart of a field of the target is in view, and does not speak of the target. -/
theorem Moved.inView_copied {f f' : FieldRef} (h : s.Copied s' ⟨s.tables.size⟩ f f')
    (hscopes : ⟨s.queries.size⟩ ∈ scopes) :
    s.InView s' (s.statement t).query target scopes (.field f') where
  notColumn _ := Scalar.noConfusion
  notQuery _ := Scalar.noConfusion
  resolves := by
    change s'.Shows scopes (s'.field f').table
    rw [h.field]
    right
    refine ⟨_, hscopes, Source.ofTable ⟨s.tables.size⟩, ?_, rfl⟩
    rw [hmoved.outer]
    exact List.mem_cons_self
  speaks hspeaks := by
    have hspeaks : (s'.field f').table = target := hspeaks
    rw [h.field] at hspeaks
    have htarget := hgrounded.tables _ (.inl rfl) target hown.listed
    rw [← hspeaks] at htarget
    exact absurd htarget (Nat.lt_irrefl _)

/-- What reads rows of the target by single fields reads those of the copy once it is renamed. -/
theorem Moved.continued_renamed (hp : p ∈ (s.statement t).body.parts)
    (hrow : s.ReadsRow target p) :
    s.Continued s' t target around (⟨s.queries.size⟩ :: around)
      ((fieldRenaming (s.rebase (s.statement t).query target).1.mapping).scalar p) := by
  have hknown := hgrounded.parts _ _ (.body hp)
  have hpseudo {table : TableRef} (htable : table.index < s.tables.size)
      (h : (s.table table).kind.isPseudo = true) :
      s'.Shows (⟨s.queries.size⟩ :: around) table ∧ table ≠ target := by
    constructor
    · left
      rwa [hmoved.keeps.table table htable]
    · rintro rfl
      rw [hown.stored] at h
      cases h
  apply Continued.inView
  cases p with
  | field f =>
    by_cases hf : f ∈ (s.table target).fields
    · obtain ⟨f', hpaired, hcopied⟩ := hmoved.copied f hf
      have hrenamed : (fieldRenaming (s.rebase (s.statement t).query target).1.mapping).scalar
          (.field f) = .field f' := by
        simp [Transformer.scalar, fieldRenaming, hpaired]
      rw [hrenamed]
      exact hmoved.inView_copied hgrounded hown hcopied List.mem_cons_self
    · have hrenamed : (fieldRenaming (s.rebase (s.statement t).query target).1.mapping).scalar
          (.field f) = .field f := by
        simp [Transformer.scalar, fieldRenaming, hmoved.others f hf]
      have hother : (s.field f).table ≠ target := by
        rintro rfl
        exact hf (hlinked.listed f hknown)
      have hview := hpseudo (hlinked.table_lt hknown) (hrow.resolve_left hother)
      have hfield : s'.field f = s.field f := hmoved.keeps.field f hknown
      rw [hrenamed]
      constructor
      · exact fun _ => Scalar.noConfusion
      · exact fun _ => Scalar.noConfusion
      · change s'.Shows _ (s'.field f).table
        rw [hfield]
        exact hview.1
      · intro hspeaks
        have hspeaks : (s'.field f).table = target := hspeaks
        exact absurd (hfield ▸ hspeaks) hother
  | allFields table =>
    have hview := hpseudo hknown hrow
    exact ⟨fun _ => Scalar.noConfusion, fun _ => Scalar.noConfusion, hview.1,
      fun hspeaks => absurd hspeaks hview.2⟩
  | tableSource table =>
    have hview := hpseudo hknown hrow
    exact ⟨fun _ => Scalar.noConfusion, fun _ => Scalar.noConfusion, hview.1,
      fun hspeaks => absurd hspeaks hview.2⟩
  | column c => cases hrow
  | query r => cases hrow
  | _ => exact ⟨fun _ => Scalar.noConfusion, fun _ => Scalar.noConfusion, trivial, False.elim⟩

omit hgrounded hlinked in
/-- The query over the copy holds nothing but the query that has become its filter. -/
theorem Moved.eq_of_mem_outer (hp : p ∈ s'.clauses ⟨s.queries.size⟩) :
    p = .query (s.statement t).query := by
  have hkind : s'.itemParts (.table ⟨s.tables.size⟩) = [] := by
    rw [itemParts, hmoved.kind, hown.parts]
  have hsource : (Query.allSources { sources := [.ofTable ⟨s.tables.size⟩] }).flatMap
      (fun x => s'.itemParts x.item) = [] := by
    change s'.itemParts (.table ⟨s.tables.size⟩) ++ [] = []
    rw [hkind, List.append_nil]
  rw [clauses, hmoved.outer] at hp
  simp only [Query.allSources] at hsource hp
  rw [hsource] at hp
  have hp : p ∈ (Condition.empty.conjoin (.existsIn (s.statement t).query)).walk := by
    simpa [Source.ofTable, joinConditions, conditionsOf, walkScalars, Condition.empty,
      Condition.walk, walkBranches] using hp
  simpa [Predicate.existsIn, Predicate.walk, Call.plain, Call.walk, walkScalars, Scalar.walk] using
    (Condition.mem_walk_conjoin.mp hp).resolve_left List.not_mem_nil

/-- What stands in a query below the one over the copy. -/
theorem Moved.continued_clause {r : QueryRef} (h : s.StandsBelow s' t target around r)
    (hp : p ∈ s'.clauses r) :
    s.Continued s' t target around (r :: ⟨s.queries.size⟩ :: around) p := by
  rcases h.clauses p hp with hstands | ⟨k, hk, rfl | ⟨k', hcopied, rfl⟩⟩
  · exact .carried hstands (h.carried hmoved hgrounded)
  · -- the key of the target itself
    obtain ⟨hvalid, htable⟩ := hlinked.owner target k hk
    have hfield : (s'.field k).table = target := by rw [hmoved.keeps.field k hvalid, htable]
    refine .inView ⟨fun _ => Scalar.noConfusion, fun _ => Scalar.noConfusion, .inr ?_,
      fun _ => ⟨r, List.mem_cons_self, h.moved⟩⟩
    rw [hfield]
    exact ⟨r, List.mem_cons_self, (h.reads _).mpr hown.listed⟩
  · exact .inView (hmoved.inView_copied hgrounded hown hcopied
      (List.mem_cons_of_mem _ List.mem_cons_self))

variable (hrow : s.KeepsToRow t target)
include hrow

/-- What a moved statement hands back. -/
theorem Moved.continued_output {output : Option OutputClause}
    (houtput : (s.statement t).body.output? = output)
    (hparts : ∀ o, output = some o → o.parts ⊆ (s.statement t).body.parts)
    (hp : p ∈ ((output.map (fieldRenaming
      (s.rebase (s.statement t).query target).1.mapping).output).map OutputClause.parts).getD []) :
    s.Continued s' t target around (⟨s.queries.size⟩ :: around) p := by
  cases output with
  | none => cases hp
  | some o =>
    obtain ⟨hvalues, hrows⟩ := hrow.output o houtput
    have hp : p ∈ ((fieldRenaming (s.rebase (s.statement t).query target).1.mapping).output
      o).parts := hp
    rw [OutputClause.parts_renamed hvalues] at hp
    obtain ⟨part, hpart, rfl⟩ := List.mem_map.mp hp
    exact hmoved.continued_renamed hgrounded hlinked hown (hparts o rfl hpart) (hrows part hpart)

/-- What is assigned by a moved update. -/
theorem Moved.continued_value {item item' : Assignment} (hitem : item ∈ (s.statement t).body.assigned)
    (hvalue : s.MovedValue s' (s'.query (s.statement t).query) target
      (s.rebase (s.statement t).query target).1 item.value item'.value)
    (hp : p ∈ (item'.value.map Scalar.walk).getD []) :
    s.Continued s' t target around (⟨s.queries.size⟩ :: around) p := by
  generalize hold : item.value = v at hvalue
  generalize item'.value = v' at hvalue hp
  cases hvalue with
  | absent => cases hp
  | @own e hreads =>
    have hp : p ∈ ((fieldRenaming (s.rebase (s.statement t).query target).1.mapping).scalar
      e).walk := hp
    rw [Scalar.walk_renamed] at hp
    obtain ⟨part, hpart, rfl⟩ := List.mem_map.mp hp
    exact hmoved.continued_renamed hgrounded hlinked hown (mem_parts_value hitem hold hpart)
      (readsRow_of_own hreads (hrow.values item hitem e hold hreads) hpart)
  | @other e sub hreads hfresh hselects =>
    cases List.mem_singleton.mp hp
    exact .below (hmoved.standsBelow_selected hgrounded hfresh hselects fun part hpart =>
      .body (mem_parts_value hitem hold hpart))

omit hgrounded hlinked hown hrow in
/-- Every assignment of a moved update comes from one of the update. -/
theorem Moved.exists_item {item' : Assignment} (h : item' ∈ (s'.statement t).body.assigned) :
    ∃ item ∈ (s.statement t).body.assigned,
      s.MovedItem s' (s'.query (s.statement t).query) target
        (s.rebase (s.statement t).query target).1 item item' := by
  obtain ⟨i, hi, rfl⟩ := List.getElem_of_mem h
  have hlength := hmoved.items.length_eq
  exact ⟨_, List.getElem_mem (hlength ▸ hi), hmoved.items.get (hlength ▸ hi) hi⟩

/-- What a moved statement holds outside its query. -/
theorem Moved.continued_body
    (hbody : (s.statement t).body.isDelete = true ∨ (s.statement t).body.isUpdate = true)
    (hp : p ∈ (s'.statement t).body.parts) :
    s.Continued s' t target around (⟨s.queries.size⟩ :: around) p := by
  rw [hmoved.body] at hp
  cases hstatement : (s.statement t).body with
  | delete table top output =>
    rw [hstatement] at hp
    have hparts (o : OutputClause) (ho : output = some o) :
        o.parts ⊆ (s.statement t).body.parts := by
      rw [hstatement, ho]
      exact List.subset_append_right _ _
    rcases List.mem_append.mp hp with hp | hp
    · cases top with
      | none => cases hp
      | some top =>
        exact .inView (.of_isReference (hrow.top table top output hstatement p hp))
    · exact hmoved.continued_output hgrounded hlinked hown hrow (by rw [hstatement]; rfl) hparts hp
  | update update output =>
    rw [hstatement] at hp
    have hparts (o : OutputClause) (ho : output = some o) :
        o.parts ⊆ (s.statement t).body.parts := by
      rw [hstatement, ho]
      exact List.subset_append_right _ _
    rcases List.mem_append.mp hp with hp | hp
    · rcases List.mem_append.mp hp with hp | hp
      · obtain ⟨item', hitem', hp⟩ := List.mem_flatMap.mp hp
        obtain ⟨item, hitem, hmovedItem⟩ := hmoved.exists_item hitem'
        rw [hmovedItem.target, Scalar.walk_renamed] at hp
        obtain ⟨part, hpart, rfl⟩ := List.mem_map.mp hp
        exact hmoved.continued_renamed hgrounded hlinked hown (mem_parts_target hitem hpart)
          (hrow.targets item hitem part hpart)
      · obtain ⟨item', hitem', hp⟩ := List.mem_flatMap.mp hp
        obtain ⟨item, hitem, hmovedItem⟩ := hmoved.exists_item hitem'
        exact hmoved.continued_value hgrounded hlinked hown hrow hitem hmovedItem.value hp
    · exact hmoved.continued_output hgrounded hlinked hown hrow (by rw [hstatement]; rfl) hparts hp
  | _ => simp [hstatement, StatementBody.isDelete, StatementBody.isUpdate] at hbody

/-- Nothing else stands at the places of a moved statement. -/
theorem Moved.continued
    (hbody : (s.statement t).body.isDelete = true ∨ (s.statement t).body.isUpdate = true)
    (h : s'.Stands t around scopes p) : s.Continued s' t target around scopes p := by
  have hkeeps := hmoved.keeps
  have haround : s.Carried s' (s.statement t).query around around :=
    .refl hkeeps hgrounded.outside
  induction h with
  | cte hc =>
    rw [hmoved.ctes] at hc
    rw [hmoved.cte]
    exact .carried (.cte hc) haround
  | body hp =>
    rw [hmoved.query]
    exact hmoved.continued_body hgrounded hlinked hown hrow hbody hp
  | rootSource hr =>
    rw [hmoved.query, Reads, hmoved.outer] at hr
    obtain ⟨x, hx, hitem⟩ := hr
    cases List.mem_singleton.mp hx
    cases hitem
  | rootBranch hoperator =>
    rw [hmoved.query, hmoved.outer] at hoperator
    cases hoperator
  | @rootClause p hp =>
    rw [hmoved.query] at hp ⊢
    cases hmoved.eq_of_mem_outer hown hp
    exact .below (hmoved.standsBelow_filter hgrounded)
  | source h hr ih =>
    cases ih with
    | carried hstands hcarried =>
      obtain ⟨hlt, hne⟩ := hgrounded.parts _ _ hstands
      exact .carried (.source hstands ((hkeeps.reads_iff hlt hne _).mp hr))
        (hcarried.cons hkeeps hlt hne)
    | below hbelow =>
      exact .carried (.rootSource ((hbelow.reads _).mp hr)) (hbelow.carried hmoved hgrounded)
    | inView hview => exact absurd rfl (hview.notQuery _)
  | branch h hoperator ih =>
    cases ih with
    | carried hstands hcarried =>
      obtain ⟨hlt, hne⟩ := hgrounded.parts _ _ hstands
      rw [hkeeps.query _ hlt hne] at hoperator
      exact .carried (.branch hstands hoperator) hcarried
    | below hbelow =>
      exact .carried (.rootBranch (hbelow.operators hoperator))
        (haround.enter hkeeps (Nat.le_refl _))
    | inView hview => exact absurd rfl (hview.notQuery _)
  | clause h hp ih =>
    cases ih with
    | carried hstands hcarried =>
      obtain ⟨hlt, hne⟩ := hgrounded.parts _ _ hstands
      rw [hmoved.clauses_eq hgrounded hstands] at hp
      exact .carried (.clause hstands hp) (hcarried.cons hkeeps hlt hne)
    | below hbelow => exact hmoved.continued_clause hgrounded hlinked hown hbelow hp
    | inView hview => exact absurd rfl (hview.notQuery _)
  | @column scopes' c p h hc hp ih =>
    cases ih with
    | carried hstands hcarried =>
      have hlt : c.index < s.columns.size := hgrounded.parts _ _ hstands
      obtain ⟨hparent, hne⟩ := hgrounded.parents _ _ hstands
      rw [hkeeps.column c hlt] at hp
      exact .carried (.column hstands (hcarried.here c hlt hparent hne hc) hp) hcarried
    | inView hview => exact absurd rfl (hview.notColumn _)

variable (hresolves : ∀ scopes p, s.Stands t around scopes p → s.Resolves scopes p)
include hresolves

/-- Everything in a moved statement resolves, and speaks of the target only below a query that has
been moved. -/
theorem Moved.resolves
    (hbody : (s.statement t).body.isDelete = true ∨ (s.statement t).body.isUpdate = true)
    (h : s'.Stands t around scopes p) :
    s'.Resolves scopes p ∧ (s'.SpeaksOf target p →
      ∃ r ∈ scopes, r = (s.statement t).query ∨ s.queries.size < r.index) := by
  cases hmoved.continued hgrounded hlinked hown hrow hbody h with
  | @carried before _ _ hstands hcarried =>
    have hknown := hgrounded.parts _ _ hstands
    have hparent (c : ColumnRef) (hc : p = .column c) :
        (s.column c).parent ≠ (s.statement t).query := by
      rw [hc] at hstands
      exact (hgrounded.parents _ _ hstands).2
    have hbefore := hresolves _ _ hstands
    exact ⟨hcarried.resolves hmoved.keeps hlinked hknown hparent hbefore,
      hcarried.speaks hmoved.keeps hown hknown hbefore⟩
  | below hbelow => exact ⟨trivial, False.elim⟩
  | inView hview => exact ⟨hview.resolves, hview.speaks⟩

end

/-! ## Flattened updates -/

/-- Whether two stores hold the same things in the same places, though perhaps in another order. -/
structure Alike (s s' : Store) : Prop where
  statement : s'.statement = s.statement
  cte : s'.cte = s.cte
  table : s'.table = s.table
  field : s'.field = s.field
  column : s'.column = s.column
  reads : ∀ r item, s'.Reads r item ↔ s.Reads r item
  operators : ∀ r, (s'.query r).setOperators = (s.query r).setOperators
  clauses : ∀ r, s'.clauses r ⊆ s.clauses r

namespace Alike

variable (h : s.Alike s')
include h

omit h in
protected theorem refl (s : Store) : s.Alike s where
  statement := rfl
  cte := rfl
  table := rfl
  field := rfl
  column := rfl
  reads _ _ := Iff.rfl
  operators _ := rfl
  clauses _ := List.Subset.refl _

theorem isHere (c : ColumnRef) : s'.IsHere c scopes ↔ s.IsHere c scopes := by
  induction scopes with
  | nil => exact Iff.rfl
  | cons r outer ih => rw [IsHere, IsHere, h.column, h.reads, ih]

/-- What stands at a place of a statement stood there. -/
theorem stands (hp : s'.Stands t around scopes p) : s.Stands t around scopes p := by
  induction hp with
  | cte hc =>
    rw [h.statement] at hc
    rw [h.cte]
    exact .cte hc
  | body hp =>
    rw [h.statement] at hp ⊢
    exact .body hp
  | rootSource hr =>
    rw [h.statement] at hr ⊢
    exact .rootSource ((h.reads _ _).mp hr)
  | rootBranch hoperator =>
    rw [h.statement, h.operators] at hoperator
    exact .rootBranch hoperator
  | rootClause hp =>
    rw [h.statement] at hp ⊢
    exact .rootClause (h.clauses _ hp)
  | source _ hr ih => exact .source ih ((h.reads _ _).mp hr)
  | branch _ hoperator ih => exact .branch ih (h.operators _ ▸ hoperator)
  | clause _ hp ih => exact .clause ih (h.clauses _ hp)
  | column _ hc hp ih =>
    rw [h.column] at hp
    exact .column ih ((h.isHere _).mp hc) hp

/-- What was found is found. -/
theorem resolves : s'.Resolves scopes p ↔ s.Resolves scopes p := by
  have hshows (table : TableRef) : s'.Shows scopes table ↔ s.Shows scopes table := by
    unfold Shows
    rw [h.table]
    simp only [h.reads]
  cases p with
  | field f =>
    change s'.Shows scopes (s'.field f).table ↔ s.Shows scopes (s.field f).table
    rw [h.field]
    exact hshows _
  | allFields table => exact hshows table
  | tableSource table => exact hshows table
  | column c =>
    change (∃ r ∈ scopes, r = (s'.column c).parent ∨ s'.Reads r (.query (s'.column c).parent)) ↔
      ∃ r ∈ scopes, r = (s.column c).parent ∨ s.Reads r (.query (s.column c).parent)
    simp only [h.column, h.reads]
  | _ => exact Iff.rfl

end Alike

/-- A query holds the same once it is flattened. -/
theorem alike_flattened (hquery : s'.query q = (s.query q).flattened)
    (hothers : ∀ r, r ≠ q → s'.query r = s.query r) (hstatement : s'.statement = s.statement)
    (hcte : s'.cte = s.cte) (htable : s'.table = s.table) (hfield : s'.field = s.field)
    (hcolumn : s'.column = s.column) : s.Alike s' := by
  have hparts (item : SourceItem) : s'.itemParts item = s.itemParts item := by
    cases item with
    | table table => rw [itemParts, itemParts, htable]
    | query r => rfl
  have hsources : (s.query q).flattened.allSources.map (·.item) =
      (s.query q).allSources.map (·.item) := by
    rw [Query.allSources_flattened, List.map_map]
    rfl
  constructor
  · exact hstatement
  · exact hcte
  · exact htable
  · exact hfield
  · exact hcolumn
  · intro r item
    by_cases hr : r = q
    · subst hr
      have hitems := congrArg (item ∈ ·) hsources
      simpa [Reads, hquery] using hitems
    · rw [Reads, Reads, hothers r hr]
  · intro r
    by_cases hr : r = q
    · rw [hr, hquery]
      rfl
    · rw [hothers r hr]
  · intro r p hp
    by_cases hr : r = q
    · subst hr
      have hempty : p ∉ Condition.empty.walk := List.not_mem_nil
      rw [clauses, hquery, hcolumn] at hp
      simp only [Query.allSources_flattened, Query.joinConditions_flattened, List.flatMap_map, hparts,
        List.flatMap_nil, List.append_nil, List.mem_append] at hp
      simp only [Query.flattened, Condition.mem_walk_conjoinAll, mem_walk_foldl_conjoinAll] at hp
      rw [clauses]
      simp only [List.mem_append, List.mem_flatMap (f := Condition.walk)]
      grind
    · rw [clauses, hothers r hr, hcolumn] at hp
      simp only [hparts] at hp
      exact hp

/-! ## Restructured statements -/

/-- Whether everything that a statement refers to is in view at its place, and an old target is only
spoken of below a query that has been moved. -/
structure KeepsReferences (s : Store) (t : StatementRef) (target : TableRef)
    (around : List QueryRef) (s' : Store) : Prop where
  resolves : ∀ scopes p, s'.Stands t around scopes p → s'.Resolves scopes p
  target : (s'.statement t).query ≠ (s.statement t).query →
    ∀ scopes p, s'.Stands t around scopes p → s'.SpeaksOf target p →
      ∃ r ∈ scopes, r = (s.statement t).query ∨ s.queries.size < r.index

theorem Alike.keepsReferences (h : s.Alike s')
    (hresolves : ∀ scopes p, s.Stands t around scopes p → s.Resolves scopes p) :
    s.KeepsReferences t target around s' where
  resolves scopes p hp := h.resolves.mpr (hresolves scopes p (h.stands hp))
  target hne := absurd (congrArg Statement.query (congrFun h.statement t)) hne

section

variable (hlinked : s.Linked) (hgrounded : s.Grounded t around)
  (hbody : (s.statement t).body.isDelete = true ∨ (s.statement t).body.isUpdate = true)
  (htarget : s.modified? t = some target) (hown : s.OwnSource (s.statement t).query target)
  (hrow : s.KeepsToRow t target)
  (hresolves : ∀ scopes p, s.Stands t around scopes p → s.Resolves scopes p)
include hlinked hgrounded hbody htarget hown hrow hresolves

/-- A statement that is moved to a copy of its target keeps its references. -/
theorem split_keepsReferences :
    ∃ s', s.split t = (.ok (), s') ∧ s.KeepsReferences t target around s' := by
  by_cases hmulti : (s.query (s.statement t).query).isMultiTable = true
  · obtain ⟨s', hsplit, hmoved⟩ :=
      split_moved hlinked hgrounded.knowsModification hmulti htarget hbody
    refine ⟨s', hsplit, ?_, ?_⟩
    · intro scopes p hp
      exact (hmoved.resolves hgrounded hlinked hown hrow hresolves hbody hp).1
    · intro _ scopes p hp
      exact (hmoved.resolves hgrounded hlinked hown hrow hresolves hbody hp).2
  · refine ⟨s, ?_, (Alike.refl s).keepsReferences hresolves⟩
    unfold split
    cases hstatement : (s.statement t).body with
    | delete table top output => simp [splitDelete, hstatement, hmulti]
    | update update output => simp [splitUpdate, hstatement, hmulti]
    | _ => simp [hstatement, StatementBody.isDelete, StatementBody.isUpdate] at hbody

/-- A restructured statement keeps its references. -/
theorem restructureDml_keepsReferences (rules : Capabilities) :
    ∃ s', s.restructureDml rules t = (.ok (), s') ∧ s.KeepsReferences t target around s' := by
  have hsplit := split_keepsReferences hlinked hgrounded hbody htarget hown hrow hresolves
  unfold restructureDml
  by_cases hrules : rules.multiTableDml = true
  · exact ⟨s, by rw [if_pos hrules], (Alike.refl s).keepsReferences hresolves⟩
  · rw [if_neg hrules]
    cases hstatement : (s.statement t).body with
    | delete table top output =>
      rw [split, hstatement] at hsplit
      exact hsplit
    | update update output =>
      rw [split, hstatement] at hsplit
      by_cases hfrom : rules.updateFrom = true
      · simp only [hfrom, if_true]
        by_cases hinner : (s.query (s.statement t).query).sources.all innerOnly = true
        · obtain ⟨s', hflatten, hquery, hothers, htable, hfield, hcolumn, hstatements, hcte⟩ :=
            flattenUpdate_query hstatement hgrounded.query (List.all_eq_true.mp hinner)
          exact ⟨s', hflatten, (alike_flattened hquery hothers hstatements hcte htable hfield
            hcolumn).keepsReferences hresolves⟩
        · by_cases hjoined : (s.query (s.statement t).query).sources.all
              (fun source => source.joins.isEmpty) = true
          · refine ⟨s, ?_, (Alike.refl s).keepsReferences hresolves⟩
            simp only [flattenUpdate, hstatement, hjoined, if_true]
          · simp only [flattenUpdate, hstatement, hjoined, hinner, Bool.not_false,
              Bool.false_eq_true, if_false, if_true]
            exact hsplit
      · simp only [hfrom, Bool.false_eq_true, if_false]
        exact hsplit
    | _ => simp [hstatement, StatementBody.isDelete, StatementBody.isUpdate] at hbody

end

/-- Ages that are set to a price and handed back. -/
def returnedAges : Store :=
  sales (.update { table := some ⟨0⟩, items := [⟨.field ⟨1⟩, some (.field ⟨5⟩)⟩] }
      (some { items := [⟨.field ⟨0⟩, some (.field ⟨1⟩)⟩] }))
    { sources := [personWithItems] }

theorem reads_returnedAges {item : SourceItem} :
    returnedAges.Reads ⟨0⟩ item ↔ ∃ i < 3, item = .table ⟨i⟩ := by
  have hsources : (returnedAges.query ⟨0⟩).allSources.map (·.item) =
      (List.range 3).map fun i => .table ⟨i⟩ := rfl
  have hmem : item ∈ (returnedAges.query ⟨0⟩).allSources.map (·.item) ↔
      item ∈ (List.range 3).map fun i => .table ⟨i⟩ := by rw [hsources]
  simpa [Reads, eq_comm] using hmem

/-- The statement that hands ages back reads nothing but fields in its one query. -/
theorem stands_returnedAges (h : returnedAges.Stands ⟨0⟩ [] scopes p) :
    scopes = [⟨0⟩] ∧ (p = .int 30 ∨ ∃ i < 6, p = .field ⟨i⟩) := by
  have hparts : (returnedAges.statement ⟨0⟩).body.parts ++ returnedAges.clauses ⟨0⟩ =
      [.field ⟨1⟩, .field ⟨5⟩, .field ⟨1⟩, .field ⟨3⟩, .field ⟨0⟩, .field ⟨1⟩, .int 30, .field ⟨4⟩,
        .field ⟨2⟩] := rfl
  have hlisted {p : Scalar}
      (hp : p ∈ (returnedAges.statement ⟨0⟩).body.parts ++ returnedAges.clauses ⟨0⟩) :
      p = .int 30 ∨ ∃ i < 6, p = .field ⟨i⟩ := by
    rw [hparts] at hp
    simp only [List.mem_cons, List.not_mem_nil, or_false] at hp
    grind
  induction h with
  | cte hc => cases hc
  | body hp => exact ⟨rfl, hlisted (List.mem_append_left _ hp)⟩
  | rootSource hr =>
    obtain ⟨i, -, hitem⟩ := reads_returnedAges.mp hr
    cases hitem
  | rootBranch hoperator => cases hoperator
  | rootClause hp => exact ⟨rfl, hlisted (List.mem_append_right _ hp)⟩
  | source _ _ ih => simp [Scalar.int, Scalar.constant] at ih
  | branch _ _ ih => simp [Scalar.int, Scalar.constant] at ih
  | clause _ _ ih => simp [Scalar.int, Scalar.constant] at ih
  | column _ _ _ ih => simp [Scalar.int, Scalar.constant] at ih

theorem open_returnedAges {r : QueryRef} (h : returnedAges.IsOpen ⟨0⟩ [] r) : r = ⟨0⟩ := by
  rcases h with rfl | ⟨scopes, h⟩
  · rfl
  · simpa [Scalar.int, Scalar.constant] using stands_returnedAges h

theorem grounded_returnedAges : returnedAges.Grounded ⟨0⟩ [] where
  statement := by decide
  query := by decide
  outside := List.forall_mem_nil _
  parts scopes p hp := by
    obtain ⟨-, rfl | ⟨i, hi, rfl⟩⟩ := stands_returnedAges hp
    · trivial
    · exact hi
  tables r hr table hreads := by
    cases open_returnedAges hr
    obtain ⟨i, hi, hitem⟩ := reads_returnedAges.mp hreads
    cases hitem
    exact hi
  columns r hr := by
    cases open_returnedAges hr
    exact List.forall_mem_nil _
  parents scopes c hc := by simpa [Scalar.int, Scalar.constant] using stands_returnedAges hc

theorem ownSource_returnedAges : returnedAges.OwnSource ⟨0⟩ ⟨0⟩ where
  listed := reads_returnedAges.mpr ⟨0, by decide, rfl⟩
  alone r hr := by
    by_contra hne
    have hindex : 1 ≤ r.index := by
      by_contra hlt
      exact hne (congrArg QueryRef.mk (Nat.lt_one_iff.mp (Nat.lt_of_not_le hlt)))
    have hempty : returnedAges.query r = {} := query_of_le hindex
    rw [Reads, hempty] at hr
    obtain ⟨x, hx, -⟩ := hr
    cases hx
  parts := rfl
  stored := rfl

theorem keepsToRow_returnedAges : returnedAges.KeepsToRow ⟨0⟩ ⟨0⟩ where
  top table top output h := by cases h
  output o ho := by
    cases ho
    constructor
    · decide
    · intro p hp
      cases List.mem_singleton.mp hp
      exact .inl rfl
  targets item hitem p hp := by
    cases List.mem_singleton.mp hitem
    cases List.mem_singleton.mp hp
    exact .inl rfl
  values item hitem e he hreads := by
    cases List.mem_singleton.mp hitem
    cases he
    cases hreads

/-- The age that is handed back is that of the copy. -/
theorem restructureDml_keepsReferences_returnedAges :
    ∃ s', returnedAges.restructureDml {} ⟨0⟩ = (.ok (), s') ∧
      returnedAges.KeepsReferences ⟨0⟩ ⟨0⟩ [] s' := by
  apply restructureDml_keepsReferences (linked_sales ..) grounded_returnedAges (.inr rfl) rfl
    ownSource_returnedAges keepsToRow_returnedAges
  intro scopes p hp
  obtain ⟨rfl, rfl | ⟨i, hi, rfl⟩⟩ := stands_returnedAges hp
  · trivial
  · have htables : ∀ i < 6, (returnedAges.field ⟨i⟩).table.index < 3 := by decide
    exact .inr ⟨⟨0⟩, List.mem_cons_self, reads_returnedAges.mpr ⟨_, htables i hi, rfl⟩⟩

end SqlCompiler.Store
