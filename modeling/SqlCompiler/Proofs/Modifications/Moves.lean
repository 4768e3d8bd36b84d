import SqlCompiler.Proofs.Idempotence.Modifications
import SqlCompiler.Proofs.Modifications.Continuations

/-!
# Modifications that are moved

An update or a delete over several tables becomes one over a copy of its target.  Its query is put
below a new one as a filter, and the values of an update are renamed or selected by new queries.

Main results:

- Definition `Store.split`: an update or a delete is moved to a copy of its target.
- Definition `Store.Moved`: what the statement, its queries and its values have become.
- Theorem `Store.split_moved`: every update or delete over several tables is moved.
-/

namespace SqlCompiler

/-- A whole row of a table. -/
def Scalar.isWholeRow : Scalar → Bool
  | .allFields _ | .tableSource _ => true
  | _ => false

/-- The assignments of an update. -/
def StatementBody.assigned : StatementBody → List Assignment
  | .update u _ => u.items
  | _ => []

/-- An update or a delete over a copy of its target, with given assignments. -/
def StatementBody.moved (rebased : Rebased) (items : List Assignment) :
    StatementBody → StatementBody
  | .update u output =>
    .update { u with items, table := some rebased.copy }
      (output.map (fieldRenaming rebased.mapping).output)
  | .delete _ top output =>
    .delete (some rebased.copy) top (output.map (fieldRenaming rebased.mapping).output)
  | body => body

namespace Store

/-- The table that an update or a delete modifies. -/
def modified? (s : Store) (t : StatementRef) : Option TableRef :=
  s.dmlTarget? (s.statement t).query (s.statement t).body.target?

/-- Move an update or a delete to a copy of its target. -/
def split (s : Store) (t : StatementRef) : Except SqlError Unit × Store :=
  match (s.statement t).body with
  | .update .. => s.splitUpdate t
  | _ => s.splitDelete t

/-- Whether the query of an update or a delete and its values refer to nothing that is not there,
nor to the query itself. -/
structure KnowsModification (s : Store) (t : StatementRef) : Prop where
  statement : t.index < s.statements.size
  query : (s.statement t).query.index < s.queries.size
  sources : ∀ x ∈ (s.query (s.statement t).query).allSources,
    s.KnowsItem (s.statement t).query x.item
  joins : ∀ c ∈ (s.query (s.statement t).query).sources.flatMap joinConditions, ∀ p ∈ c.walk,
    s.Knows (s.statement t).query p
  whereClause : ∀ p ∈ (s.query (s.statement t).query).whereClause.walk,
    s.Knows (s.statement t).query p
  values : ∀ item ∈ (s.statement t).body.assigned, ∀ e, item.value = some e →
    ∀ p ∈ e.walk, s.Knows (s.statement t).query p
  targets : ∀ item ∈ (s.statement t).body.assigned, ∀ p ∈ item.target.walk,
    s.Knows (s.statement t).query p

/-- Whether the values of an update compute no aggregates, and those that read nothing but the target
read single fields of it. -/
def AssignsFields (s : Store) (t : StatementRef) (target : TableRef) : Prop :=
  ∀ item ∈ (s.statement t).body.assigned, ∀ e, item.value = some e →
    e.anyPart Scalar.isAggregate = false ∧
      (s.readsOther target e = false → e.anyPart Scalar.isWholeRow = false)

/-- What an update or a delete has become: one of a copy of its target, with the old query as a
filter of a new one. -/
structure Moved (s : Store) (t : StatementRef) (target : TableRef) (s' : Store) : Prop where
  keeps : s.KeepsAllBut (s.statement t).query s'
  query : (s'.statement t).query = ⟨s.queries.size⟩
  named : (s'.statement t).body.target? = some ⟨s.tables.size⟩
  body : (s'.statement t).body = (s.statement t).body.moved
    (s.rebase (s.statement t).query target).1 (s'.statement t).body.assigned
  ctes : (s'.statement t).ctes = (s.statement t).ctes
  cte : s'.cte = s.cte
  outer : s'.query ⟨s.queries.size⟩ =
    { sources := [.ofTable ⟨s.tables.size⟩]
      whereClause := Condition.empty.conjoin (.existsIn (s.statement t).query) }
  filter : s'.query (s.statement t).query =
    { s.query (s.statement t).query with
      parent := some ⟨s.queries.size⟩
      columns := []
      whereClause := (s.query (s.statement t).query).whereClause.conjoinAll
        (s.rebase (s.statement t).query target).1.keyCondition }
  name : (s'.table ⟨s.tables.size⟩).name = (s.table target).name
  kind : (s'.table ⟨s.tables.size⟩).kind = (s.table target).kind
  copied : ∀ f ∈ (s.table target).fields, ∃ f',
    paired (s.rebase (s.statement t).query target).1.mapping f = some f' ∧
      s.Copied s' ⟨s.tables.size⟩ f f'
  others : ∀ f ∉ (s.table target).fields,
    paired (s.rebase (s.statement t).query target).1.mapping f = none
  items : List.Forall₂
    (s.MovedItem s' (s'.query (s.statement t).query) target
      (s.rebase (s.statement t).query target).1)
    (s.statement t).body.assigned (s'.statement t).body.assigned
  added : ∀ r : QueryRef, s.queries.size < r.index → r.index < s'.queries.size →
    ∃ item ∈ (s.statement t).body.assigned, ∃ e, item.value = some e ∧
      s'.SelectsValue (s'.query (s.statement t).query)
        (s.rebase (s.statement t).query target).1 r e

section

variable {s s' : Store} {q r : QueryRef} {t : StatementRef} {target : TableRef}

theorem KeepsAllBut.modifyStatement (h : s.KeepsAllBut q s') (t : StatementRef)
    (f : Statement → Statement) : s.KeepsAllBut q (s'.modifyStatement t f) where
  tables := h.tables
  fields := h.fields
  queries := h.queries
  columns := h.columns
  table := h.table
  field := h.field
  query := h.query
  column := h.column

/-- A counterpart stays when further things are added. -/
theorem Copied.later {s'' : Store} {copy : TableRef} {f f' : FieldRef}
    (h : s.Copied s' copy f f') (hadded : s'.KeepsAllBut r s'')
    (hcopy : copy.index < s'.tables.size) : s.Copied s'' copy f f' where
  fresh := h.fresh
  valid := Nat.lt_of_lt_of_le h.valid hadded.fields
  field := by rw [hadded.field f' h.valid, h.field]
  listed := by
    rw [hadded.table copy hcopy]
    exact h.listed

/-- What a value reads is told apart by the same tables when things are added. -/
theorem KeepsAllBut.readsOther (h : s.KeepsAllBut r s') {e : Scalar}
    (he : ∀ p ∈ e.walk, s.Knows q p) : s'.readsOther target e = s.readsOther target e := by
  have hpart : ∀ p ∈ e.walk, ∀ f, p = .field f → s'.field f = s.field f := by
    rintro p hp f rfl
    exact h.field f (he _ hp)
  rw [Bool.eq_iff_iff, Store.readsOther, Store.readsOther, Scalar.anyPart, Scalar.anyPart,
    List.any_eq_true, List.any_eq_true]
  apply exists_congr
  intro p
  apply and_congr_right
  intro hp
  cases p with
  | field f => simp only [hpart _ hp f rfl]
  | _ => exact Iff.rfl

/-! ## The move -/

theorem mapping_rebase (s : Store) (q : QueryRef) (target : TableRef) :
    (s.rebase q target).1.mapping = (s.copyTable target).1.2 := by
  rw [rebase_fst]

theorem keyCondition_rebase (s : Store) (q : QueryRef) (target : TableRef) :
    (s.rebase q target).1.keyCondition =
      keyEqualities (s.rebase q target).1.mapping (s.targetKeys target) := by
  rw [rebase_fst]

/-- The store in which the target has been copied, and a query put below a new one over the copy. -/
structure Rebuilt (s : Store) (q : QueryRef) (target : TableRef) (s' : Store) : Prop where
  keeps : s.KeepsAllBut q s'
  tables : s.tables.size < s'.tables.size
  name : (s'.table ⟨s.tables.size⟩).name = (s.table target).name
  kind : (s'.table ⟨s.tables.size⟩).kind = (s.table target).kind
  copied : ∀ f ∈ (s.table target).fields, ∃ f',
    paired (s.rebase q target).1.mapping f = some f' ∧ s.Copied s' ⟨s.tables.size⟩ f f'
  others : ∀ f ∉ (s.table target).fields, paired (s.rebase q target).1.mapping f = none

theorem rebuilt_rebase (hlinked : s.Linked) (q : QueryRef) (target : TableRef) :
    s.Rebuilt q target (s.rebase q target).2 := by
  have hvalid (f : FieldRef) (hf : f ∈ (s.table target).fields) : f.index < s.fields.size :=
    (hlinked.owner target f hf).1
  have hcopied := copied_copyTable hvalid
  have hkeeps : (s.copyTable target).2.KeepsAllBut q (s.rebase q target).2 :=
    (KeepsAllBut.refl _ q).rebase
  have hcopy : (⟨s.tables.size⟩ : TableRef).index < (s.copyTable target).2.tables.size := by
    simp [tables_copyTable]
  constructor
  · exact keepsAllBut_rebase s q target
  · exact Nat.lt_of_lt_of_le hcopy hkeeps.tables
  · rw [hkeeps.table _ hcopy,
      apply_copyTable (g := Table.name) (fun _ _ => rfl) (fun _ _ => rfl), if_pos rfl]
  · rw [hkeeps.table _ hcopy, kind_copyTable, if_pos rfl]
  · intro f hf
    rw [← hcopied.1] at hf
    obtain ⟨f', hpaired, hmem⟩ := paired_of_mem hf
    rw [mapping_rebase]
    exact ⟨f', hpaired, (hcopied.2 _ hmem).later hkeeps hcopy⟩
  · intro f hf
    rw [mapping_rebase]
    rw [← hcopied.1] at hf
    exact paired_of_notMem hf

/-- The statement is changed to one of the copy, after further things have been added. -/
theorem moved_modifyStatement {f : Statement → Statement} (hlinked : s.Linked)
    (hknows : s.KnowsModification t)
    (hadded : (s.rebase (s.statement t).query target).2.KeepsAllBut
      ⟨(s.rebase (s.statement t).query target).2.queries.size⟩ s')
    (hkept : s'.statements = s.statements ∧ s'.ctes = s.ctes)
    (hquery : (f (s.statement t)).query = ⟨s.queries.size⟩)
    (hnamed : (f (s.statement t)).body.target? = some ⟨s.tables.size⟩)
    (hbody : (f (s.statement t)).body = (s.statement t).body.moved
      (s.rebase (s.statement t).query target).1 (f (s.statement t)).body.assigned)
    (hctes : (f (s.statement t)).ctes = (s.statement t).ctes)
    (hitems : List.Forall₂
      (s.MovedItem s' ((s.rebase (s.statement t).query target).2.query (s.statement t).query) target
        (s.rebase (s.statement t).query target).1)
      (s.statement t).body.assigned (f (s.statement t)).body.assigned)
    (hvalues : ∀ r : QueryRef, s.queries.size < r.index → r.index < s'.queries.size →
      ∃ item ∈ (s.statement t).body.assigned, ∃ e, item.value = some e ∧
        s'.SelectsValue ((s.rebase (s.statement t).query target).2.query (s.statement t).query)
          (s.rebase (s.statement t).query target).1 r e) :
    s.Moved t target (s'.modifyStatement t f) := by
  have hrebuilt := rebuilt_rebase hlinked (s.statement t).query target
  have hq := hknows.query
  have hsize := queries_rebase s (s.statement t).query target
  have hchanged : (s'.modifyStatement t f).statement t = f (s.statement t) := by
    rw [statement_modifyStatement f (by rw [hkept.1]; exact hknows.statement), statement,
      hkept.1]
    rfl
  have hne : (s.statement t).query ≠
      ⟨(s.rebase (s.statement t).query target).2.queries.size⟩ := by
    intro heq
    rw [heq] at hq
    exact absurd hq (by rw [hsize]; exact Nat.not_lt_of_lt (Nat.lt_succ_self _))
  have hfilter : (s'.modifyStatement t f).query (s.statement t).query =
      (s.rebase (s.statement t).query target).2.query (s.statement t).query :=
    hadded.query _ (by omega) hne
  have hsame : s'.KeepsAllBut ⟨s'.queries.size⟩ (s'.modifyStatement t f) :=
    (KeepsAllBut.refl _ _).modifyStatement t f
  have hcopy := Nat.lt_of_lt_of_le hrebuilt.tables hadded.tables
  constructor
  · exact (hrebuilt.keeps.trans hadded (by simp [hsize])).modifyStatement t f
  · rw [hchanged, hquery]
  · rw [hchanged, hnamed]
  · rw [hchanged]
    exact hbody
  · rw [hchanged, hctes]
  · funext c
    change (s'.ctes[c.index]?).getD default = s.cte c
    rw [hkept.2]
    rfl
  · have houter : (s.rebase (s.statement t).query target).2.query ⟨s.queries.size⟩ = _ :=
      query_rebase_outer hq
    rw [← houter]
    exact hadded.query _ (by simp [hsize]) (by simp [hsize])
  · rw [hfilter, keyCondition_rebase, mapping_rebase, query_rebase_self hq]
  · exact (congrArg Table.name (hadded.table _ hrebuilt.tables)).trans hrebuilt.name
  · exact (congrArg Table.kind (hadded.table _ hrebuilt.tables)).trans hrebuilt.kind
  · intro f hf
    obtain ⟨f', hpaired, hcopied⟩ := hrebuilt.copied f hf
    exact ⟨f', hpaired, (hcopied.later hadded hrebuilt.tables).later hsame hcopy⟩
  · exact hrebuilt.others
  · rw [hchanged, hfilter]
    exact hitems.imp fun _ _ hitem => ⟨hitem.value.later hsame, hitem.target⟩
  · intro r hr hlt
    obtain ⟨item, hitem, e, he, hselects⟩ := hvalues r hr hlt
    rw [hfilter]
    exact ⟨item, hitem, e, he, hselects.later hsame⟩

/-- Statements and common table expressions stay. -/
theorem rebaseItems_keeps (s : Store) (q : QueryRef) (target : TableRef) (rebased : Rebased)
    (items : List Assignment) :
    (s.rebaseItems q target rebased items).2.statements = s.statements ∧
      (s.rebaseItems q target rebased items).2.ctes = s.ctes := by
  induction items generalizing s with
  | nil => exact ⟨rfl, rfl⟩
  | cons item rest ih =>
    rw [rebaseItems]
    dsimp only
    split
    · exact ih s
    · split
      · exact ih _
      · exact ih s

theorem rebase_keeps (s : Store) (q : QueryRef) (target : TableRef) :
    (s.rebase q target).2.statements = s.statements ∧ (s.rebase q target).2.ctes = s.ctes := by
  have hstatements : (s.copyTable target).2.statements = s.statements := by
    rw [content_copyTable]
  have hctes : (s.copyTable target).2.ctes = s.ctes := by rw [content_copyTable]
  exact ⟨hstatements, hctes⟩

section

variable (hlinked : s.Linked) (hknows : s.KnowsModification t)
  (hmulti : (s.query (s.statement t).query).isMultiTable = true)
  (htarget : s.modified? t = some target)
include hlinked hknows hmulti htarget

theorem splitDelete_moved {table : Option TableRef} {top : Option Scalar}
    {output : Option OutputClause} (hbody : (s.statement t).body = .delete table top output) :
    ∃ s', s.splitDelete t = (.ok (), s') ∧ s.Moved t target s' := by
  have hnamed : s.dmlTarget? (s.statement t).query table = some target := by
    rwa [modified?, hbody] at htarget
  have hitems : (s.statement t).body.assigned = [] := by
    rw [hbody]
    rfl
  simp only [splitDelete, hbody, hmulti, hnamed, Bool.not_true, Bool.false_eq_true, if_false]
  refine ⟨_, rfl, moved_modifyStatement hlinked hknows (KeepsAllBut.refl _ _)
    (rebase_keeps s _ _) (by rw [rebase_fst]) (congrArg some (by rw [rebase_fst]))
    (by rw [hbody]; rfl) rfl ?_ ?_⟩
  · rw [hitems]
    exact .nil
  · intro r hr hlt
    rw [queries_rebase] at hlt
    omega

theorem splitUpdate_moved {update : UpdateClause} {output : Option OutputClause}
    (hbody : (s.statement t).body = .update update output) :
    ∃ s', s.splitUpdate t = (.ok (), s') ∧ s.Moved t target s' := by
  have hnamed : s.dmlTarget? (s.statement t).query update.table = some target := by
    rwa [modified?, hbody] at htarget
  have hitems : (s.statement t).body.assigned = update.items := by
    rw [hbody]
    rfl
  have hvalues := hknows.values
  have hq := hknows.query
  have hsize := queries_rebase s (s.statement t).query target
  have hkept : ((s.rebase (s.statement t).query target).2.rebaseItems (s.statement t).query target
      (s.rebase (s.statement t).query target).1 update.items).2.statements = s.statements ∧
      ((s.rebase (s.statement t).query target).2.rebaseItems (s.statement t).query target
        (s.rebase (s.statement t).query target).1 update.items).2.ctes = s.ctes := by
    have hrebased := rebase_keeps s (s.statement t).query target
    have hitems := rebaseItems_keeps (s.rebase (s.statement t).query target).2
      (s.statement t).query target (s.rebase (s.statement t).query target).1 update.items
    exact ⟨hitems.1.trans hrebased.1, hitems.2.trans hrebased.2⟩
  simp only [splitUpdate, hbody, hmulti, hnamed, Bool.not_true, Bool.false_eq_true, if_false]
  refine ⟨_, rfl, moved_modifyStatement hlinked hknows ((KeepsAllBut.refl _ _).rebaseItems ..)
    hkept (by rw [rebase_fst]) (congrArg some (by rw [rebase_fst])) (by rw [hbody]; rfl) rfl ?_ ?_⟩
  · rw [hitems] at hvalues ⊢
    apply moved_rebaseItems
    · omega
    · omega
    · rfl
    · intro item hitem e he
      exact (keepsAllBut_rebase s _ target).readsOther (hvalues item hitem e he)
  · intro r hr hlt
    rw [hitems]
    exact selectsValue_rebaseItems update.items (by omega) rfl (by omega) hlt

/-- Every update or delete over several tables is moved to a copy of its target. -/
theorem split_moved
    (hbody : (s.statement t).body.isDelete = true ∨ (s.statement t).body.isUpdate = true) :
    ∃ s', s.split t = (.ok (), s') ∧ s.Moved t target s' := by
  unfold split
  cases hstatement : (s.statement t).body with
  | delete table top output => exact splitDelete_moved hlinked hknows hmulti htarget hstatement
  | update update output => exact splitUpdate_moved hlinked hknows hmulti htarget hstatement
  | _ => simp [hstatement, StatementBody.isDelete, StatementBody.isUpdate] at hbody

end

end

end Store

end SqlCompiler
