import SqlCompiler.Proofs.Lowering.Pipelines
import SqlCompiler.Proofs.Renaming.Rules

/-!
# Two ways to write an update

An update is written as a chain of calls, each of which sets a member, or with a function that makes
a record of the members.  The chain is lowered call by call, and each value of it on its own: a
value is lowered also if its field is left out, and in a context of which only functions know the
row.  The members of the record are lowered in one context, those that are left out not at all.  So
the two stores come to have different nodes, and the assignments are compared under a renaming,
which leaves the nodes of the source as they are.

Main results:

- Theorem `assignAll_nil`: assignments one after another leave the last one of each field, in the
  position of the first one.
- Definition `Aligned`: two runs go on from the rows of a source, the second one with more nodes.
- Theorems `Aligned.keep` and `Aligned.skip`: one value that both runs lower or only the second one.
- Definition `InStep`: a chain and a record that have come to the same assignments.
- Theorem `InStep.settings`: they stay in step over any list of members, or both fail.
- Theorem `update_settings_agree`: both ways update the same, or both fail.
-/

namespace SqlCompiler

open Renaming (refl)

/-! ## Settings -/

/-- An assignment of a value to a member of a row.  A chain has the member as a function that
selects it, and the value as a function of the row or, if it is not about the row, as it is. -/
structure Setting (row : String) where
  member : String
  value : Term
  selector : Term
  given : Term
  selects : selector.memberOfFunction = .ok member
  gives : given = value ∧ isFunctionTerm value = false ∨ given.functionOf 1 = .ok ([row], value)

/-- A chain with one more call. -/
def Setting.call {row : String} (s : Setting row) (chain : Term) : Term :=
  .call .set [chain, s.selector, s.given]

/-- A source with a call for each of some settings. -/
def Term.settingAll {row : String} (source : Term) (settings : List (Setting row)) : Term :=
  settings.foldl (fun chain s => s.call chain) source

/-- The members of the record that makes some settings. -/
def Setting.members {row : String} (settings : List (Setting row)) : List (String × Term) :=
  settings.map fun s => (s.member, s.value)

namespace Setting

variable {row : String} (s : Setting row)

/-- The value as a call of a chain has it lowered. -/
def lower (l : Lowerer) (rows : Lowered) : LowerM Scalar :=
  if isFunctionTerm s.given then l.applyScalar s.given [rows.projection] rows.query
  else l.scalar s.given rows.query

theorem lower_mirrors {σ : Renaming} {rows : Lowered} (hrows : σ.lowered rows = rows) :
    LowerM.Mirrors σ σ.scalar (s.lower standardLowerer rows) (s.lower standardLowerer rows) := by
  have h : LowerM.Mirrors σ σ.scalar (s.lower standardLowerer rows)
      (s.lower standardLowerer (σ.lowered rows)) :=
    .ite Iff.rfl ((standardLowerer_mirrors σ).applyScalar s.given rfl rows.query)
      ((standardLowerer_mirrors σ).scalar s.given rows.query)
  rwa [hrows] at h

theorem lower_keeps (n : Nat) (rows : Lowered) :
    LowerM.Frames n (s.lower standardLowerer rows) :=
  LowerM.Closed.ite ((standardLowerer_keeps n).closed.applyScalar _ _ _)
    ((standardLowerer_keeps n).scalar _ _)

end Setting

/-- Only functions are applied. -/
theorem isFunctionTerm_of_functionOf {f body : Term} {arity : Nat} {params : List String}
    (h : f.functionOf arity = .ok (params, body)) : isFunctionTerm f = true := by
  cases f with
  | lambda | quote => rfl
  | _ => cases h

/-! ## Assignments -/

/-- Assignments to fields, one for each of them. -/
def assignmentsTo (fields : List FieldRef) (value : FieldRef → Option Scalar) : List Assignment :=
  fields.map fun f => { target := .field f, value := value f }

/-- Assignments after other ones. -/
def assignAll (items : List Assignment) (made : List (FieldRef × Scalar)) : List Assignment :=
  made.foldl (fun items a => assign (.toField a.1 a.2) items) items

/-- Each assigned field, in the position of its first assignment, with the value of its last one. -/
def lastAssigned (made : List (FieldRef × Scalar)) : List Assignment :=
  assignmentsTo (made.map (·.1)).eraseDups fun f => List.lookup f made.reverse

theorem nodup_eraseDups (fields : List FieldRef) : fields.eraseDups.Nodup := by
  induction fields using List.reverseRecOn with
  | nil => exact List.nodup_nil
  | append_singleton fields f ih =>
    rw [List.eraseDups_append]
    by_cases hf : f ∈ fields
    · simpa [List.removeAll, hf] using ih
    · have hnew : f ∉ fields.eraseDups := by rwa [List.mem_eraseDups]
      simpa [List.removeAll, hf, List.eraseDups_cons] using List.nodup_append.mpr
        ⟨ih, List.nodup_singleton f, by simpa using fun g hg => ne_of_mem_of_not_mem hg hnew⟩

theorem assignmentsTo_congr {fields : List FieldRef} {value value' : FieldRef → Option Scalar}
    (h : ∀ f ∈ fields, value f = value' f) :
    assignmentsTo fields value = assignmentsTo fields value' :=
  List.map_congr_left fun f hf => by rw [h f hf]

section

variable {fields : List FieldRef} {f : FieldRef} (e : Scalar) (value : FieldRef → Option Scalar)

/-- Another assignment to a field takes the place of the one there is. -/
theorem assign_of_mem (hnodup : fields.Nodup) (hf : f ∈ fields) :
    assign (.toField f e) (assignmentsTo fields value) =
      assignmentsTo fields (Function.update value f (some e)) := by
  induction fields with
  | nil => cases hf
  | cons g rest ih =>
    obtain ⟨hg, hrest⟩ := List.nodup_cons.mp hnodup
    change (if (g == f) = true then _ else _) = _
    by_cases hsame : g = f
    · subst hsame
      have hothers : assignmentsTo rest value =
          assignmentsTo rest (Function.update value g (some e)) :=
        assignmentsTo_congr fun h hh =>
          (Function.update_of_ne (ne_of_mem_of_not_mem hh hg) _ _).symm
      rw [if_pos (beq_self_eq_true g)]
      exact congrArg₂ List.cons (by simp [Assignment.toField]) hothers
    · have hrest := ih hrest ((List.mem_cons.mp hf).resolve_left (Ne.symm hsame))
      rw [if_neg (by simpa using hsame)]
      exact congrArg₂ List.cons (by simp [hsame]) hrest

/-- An assignment to another field comes last. -/
theorem assign_of_not_mem (hf : f ∉ fields) :
    assign (.toField f e) (assignmentsTo fields value) =
      assignmentsTo (fields ++ [f]) (Function.update value f (some e)) := by
  induction fields with
  | nil => simp [assignmentsTo, assign, Assignment.toField]
  | cons g rest ih =>
    obtain ⟨hne, hrest⟩ : f ≠ g ∧ f ∉ rest := by simpa using hf
    change (if (g == f) = true then _ else _) = _
    rw [if_neg (by simpa using Ne.symm hne)]
    exact congrArg₂ List.cons (by simp [Ne.symm hne]) (ih hrest)

end

/-- Assignments one after another. -/
theorem assignAll_nil (made : List (FieldRef × Scalar)) :
    assignAll [] made = lastAssigned made := by
  unfold assignAll
  induction made using List.reverseRecOn with
  | nil => rfl
  | append_singleton made last ih =>
    obtain ⟨f, e⟩ := last
    have hvalue : (fun g => List.lookup g (made ++ [(f, e)]).reverse) =
        Function.update (fun g => List.lookup g made.reverse) f (some e) := by
      funext g
      rw [List.reverse_append, List.reverse_singleton, List.singleton_append, List.lookup_cons]
      by_cases hg : g = f
      · subst hg
        simp
      · simp [hg, beq_eq_false_iff_ne.mpr hg]
    rw [List.foldl_append, ih, lastAssigned, lastAssigned, hvalue, List.map_append,
      List.eraseDups_append]
    by_cases hf : f ∈ made.map (·.1)
    · have hdup : ([f].removeAll (made.map (·.1))).eraseDups = [] := by simp [List.removeAll, hf]
      exact (assign_of_mem e _ (nodup_eraseDups _) (List.mem_eraseDups.mpr hf)).trans
        (by rw [List.map_singleton, hdup, List.append_nil])
    · have hnew : ([f].removeAll (made.map (·.1))).eraseDups = [f] := by
        simp [List.removeAll, hf, List.eraseDups_cons]
      exact (assign_of_not_mem e _ (mt List.mem_eraseDups.mp hf)).trans
        (by rw [List.map_singleton, hnew])

/-- Assignments keep their order under other names. -/
theorem Renaming.assign_assignment (ρ : Renaming) (item : Assignment) (items : List Assignment) :
    assign (ρ.assignment item) (items.map ρ.assignment) =
      (assign item items).map ρ.assignment := by
  induction items with
  | nil => rfl
  | cons first rest ih =>
    have hsame : ((ρ.assignment first).target == (ρ.assignment item).target) =
        (first.target == item.target) := ρ.scalar_beq _ _
    rw [List.map_cons, assign, assign, hsame, ih]
    split <;> rfl

/-- Assignments whose fields keep their numbers. -/
theorem Renaming.lastAssigned_map (ρ : Renaming) {made : List (FieldRef × Scalar)}
    (hfixed : ∀ a ∈ made, ρ.field a.1 = a.1) :
    lastAssigned (made.map fun a => (a.1, ρ.scalar a.2)) =
      (lastAssigned made).map ρ.assignment := by
  have hall : ∀ (made : List (FieldRef × Scalar)) (items : List Assignment),
      (∀ a ∈ made, ρ.field a.1 = a.1) →
        assignAll (items.map ρ.assignment) (made.map fun a => (a.1, ρ.scalar a.2)) =
          (assignAll items made).map ρ.assignment := by
    intro made
    induction made with
    | nil => exact fun _ _ => rfl
    | cons a rest ih =>
      intro items hfixed
      have hitem : Assignment.toField a.1 (ρ.scalar a.2) = ρ.assignment (.toField a.1 a.2) := by
        simp [Renaming.assignment, Assignment.toField, hfixed a (.head _)]
      rw [List.map_cons, assignAll, List.foldl_cons, hitem, ρ.assign_assignment]
      exact ih _ fun other hother => hfixed other (.tail _ hother)
  have hmade := hall made [] hfixed
  rwa [List.map_nil, assignAll_nil, assignAll_nil] at hmade

/-! ## Targets -/

/-- The query of some rows reads a table directly, whose entity they are. -/
structure Lowered.Targets (rows : Lowered) (t : TableRef) (s : Store) : Prop where
  projection : ∃ name members, rows.projection = .entity name (some t) members
  read : (s.query rows.query).allSources.any (·.table? == some t) = true

theorem Lowered.Targets.gives {rows : Lowered} {t : TableRef} {st : LowerState}
    (h : rows.Targets t st.store) (ctx : LowerContext) : rows.target.Gives ctx st t st := by
  obtain ⟨name, members, hprojection⟩ := h.projection
  refine LowerM.Gives.store.bind ?_
  rw [hprojection]
  dsimp only
  rw [if_pos h.read]
  exact .pure t

theorem Lowered.targets_of_gives {rows : Lowered} {t : TableRef} {ctx : LowerContext}
    {st st' : LowerState} (h : rows.target.Gives ctx st t st') : rows.Targets t st.store := by
  obtain ⟨_, _, hstore, h⟩ := h.of_bind
  cases hstore
  cases hprojection : rows.projection with
  | entity name table members =>
    rw [hprojection] at h
    cases table with
    | none => cases h
    | some table =>
      dsimp only at h
      split at h
      · next hread =>
        cases h
        exact ⟨⟨name, members, hprojection⟩, hread⟩
      · cases h
  | _ =>
    rw [hprojection] at h
    cases h

/-- A query that reads a table is there. -/
theorem Lowered.Targets.valid {rows : Lowered} {t : TableRef} {s : Store} (h : rows.Targets t s) :
    rows.query.index < s.queries.size := by
  refine Nat.lt_of_not_le fun hle => ?_
  have hread := h.read
  rw [Store.query, Array.getElem?_eq_none hle] at hread
  cases hread

/-- A store that says about a query and the fields of a table what another one says. -/
structure Store.Matches (q : QueryRef) (t : TableRef) (s s' : Store) : Prop where
  query : s'.query q = s.query q
  fieldByName : ∀ name, s'.fieldByName t name = s.fieldByName t name
  skips : ∀ name f, s.fieldByName t name = some f →
    (s'.field f).skipOnUpdate = (s.field f).skipOnUpdate

theorem Store.Matches.refl (q : QueryRef) (t : TableRef) (s : Store) : s.Matches q t s :=
  ⟨rfl, fun _ => rfl, fun _ _ _ => rfl⟩

/-- A copy says the same, under names that leave the query and the table as they are. -/
theorem Store.Matches.copies {ρ : Renaming} {q : QueryRef} {t : TableRef} {s r c : Store}
    (h : s.Matches q t r) (hself : ρ.Copies s s) (hcopies : ρ.Copies r c) (hq : ρ.query q = q)
    (ht : ρ.table t = t) : s.Matches q t c := by
  have hfield : ∀ name, (s.fieldByName t name).map ρ.field = s.fieldByName t name := fun name => by
    rw [← hself.fieldByName, ht]
  refine ⟨?_, fun name => ?_, fun name f hf => ?_⟩
  · have hquery := hcopies.query q
    rwa [h.query, ← hself.query, hq] at hquery
  · have hfound := hcopies.fieldByName t name
    rwa [ht, h.fieldByName, hfield] at hfound
  · have hsame : ρ.field f = f := by
      have hname := hfield name
      rw [hf] at hname
      exact Option.some.inj hname
    have hskips := congrArg (·.skipOnUpdate) (hcopies.field f)
    rw [hsame] at hskips
    exact hskips.trans (h.skips name f hf)

/-- The field that an update sets for a member, unless it is excluded from updates. -/
def Store.settable (s : Store) (t : TableRef) (member : String) : Option FieldRef :=
  (s.fieldByName t member).filter fun f => !(s.field f).skipOnUpdate

theorem LowerM.Gives.settableField {s : Store} {q : QueryRef} {t : TableRef} {st : LowerState}
    (h : s.Matches q t st.store) {member : String} (hmapped : (s.fieldByName t member).isSome)
    (ctx : LowerContext) :
    (LowerM.settableField t member .update).Gives ctx st (s.settable t member) st := by
  obtain ⟨f, hf⟩ := Option.isSome_iff_exists.mp hmapped
  refine LowerM.Gives.store.bind ?_
  rw [h.fieldByName, hf]
  have hsettable : s.settable t member =
      if WriteKind.skips .update (st.store.field f) then none else some f := by
    rw [Store.settable, hf, Option.filter_some, ← h.skips member f hf, WriteKind.skips]
    cases (st.store.field f).skipOnUpdate <;> rfl
  rw [hsettable]
  exact .pure _

theorem LowerM.Fails.settableField {s : Store} {q : QueryRef} {t : TableRef} {st : LowerState}
    (h : s.Matches q t st.store) {member : String} (hmissing : s.fieldByName t member = none)
    (ctx : LowerContext) : (LowerM.settableField t member .update).Fails ctx st := by
  refine .after LowerM.Gives.store ?_
  rw [h.fieldByName, hmissing]
  exact .throw _

/-! ## Fields and values -/

/-- The fields that an update by some settings sets, with their values. -/
def Setting.kept {row : String} (s : Store) (table : TableRef) (settings : List (Setting row)) :
    List (FieldRef × Term) :=
  settings.filterMap fun x => (s.settable table x.member).map fun f => (f, x.value)

namespace Setting

variable {row : String} {s : Store} {table : TableRef} {x : Setting row}
  (rest : List (Setting row))

theorem kept_of_settable {f : FieldRef} (h : s.settable table x.member = some f) :
    kept s table (x :: rest) = (f, x.value) :: kept s table rest := by
  rw [kept, List.filterMap_cons, h]
  rfl

theorem kept_of_not_settable (h : s.settable table x.member = none) :
    kept s table (x :: rest) = kept s table rest := by
  rw [kept, List.filterMap_cons, h]
  rfl

end Setting

/-- The values of fields, lowered one after another. -/
def Lowerer.fieldValues (l : Lowerer) (q : QueryRef) (assigned : List (FieldRef × Term)) :
    LowerM (List (FieldRef × Scalar)) :=
  assigned.mapM fun a => return (a.1, ← l.scalar a.2 q)

theorem LowerM.Gives.fieldValues {l : Lowerer} {q : QueryRef} {f : FieldRef} {t : Term} {e : Scalar}
    {rest : List (FieldRef × Term)} {made : List (FieldRef × Scalar)} {ctx : LowerContext}
    {st st₁ st₂ : LowerState} (hvalue : (l.scalar t q).Gives ctx st e st₁)
    (hrest : (l.fieldValues q rest).Gives ctx st₁ made st₂) :
    (l.fieldValues q ((f, t) :: rest)).Gives ctx st ((f, e) :: made) st₂ := by
  rw [Lowerer.fieldValues, List.mapM_cons]
  exact LowerM.Gives.bind (hvalue.bind (.pure (f, e))) (hrest.bind (.pure _))

theorem LowerM.Gives.fieldValues_fields {l : Lowerer} {q : QueryRef}
    {assigned : List (FieldRef × Term)} {made : List (FieldRef × Scalar)} {ctx : LowerContext}
    {st st' : LowerState} (h : (l.fieldValues q assigned).Gives ctx st made st') :
    made.map (·.1) = assigned.map (·.1) := by
  induction assigned generalizing made st with
  | nil =>
    cases h
    rfl
  | cons a rest ih =>
    rw [Lowerer.fieldValues, List.mapM_cons] at h
    obtain ⟨_, _, hvalue, h⟩ := h.of_bind
    obtain ⟨others, _, hrest, h⟩ := h.of_bind
    obtain ⟨e, _, -, hpair⟩ := hvalue.of_bind
    cases hpair
    cases h
    exact congrArg (a.1 :: ·) (ih hrest)

/-! ## Aligned runs -/

/-- A renaming that leaves the numbers of the nodes of a store as they are. -/
def Renaming.Fixes (σ : Renaming) (s : Store) : Prop :=
  ∀ kind i, i < s.count kind → σ.number kind i = i

theorem Renaming.Fixes.agrees {σ : Renaming} {s : Store} (h : σ.Fixes s) : refl.Agrees σ s s where
  below := h
  above kind i hi := by
    refine Nat.le_of_not_lt fun hlt => ?_
    have hsame := σ.injective kind (h kind _ hlt)
    omega

/-- Rows with all that they refer to in the store. -/
structure Lowered.Rooted (rows : Lowered) (base : LowerState) : Prop where
  embeds : refl.Embeds base.store base.store
  covers : base.ranking.Covers standardRules
  fixed : ∀ {σ : Renaming}, σ.Fixes base.store → σ.lowered rows = rows

/-- One run goes on from some rows, and another one with perhaps more nodes. -/
structure Aligned (base : LowerState) (ρ : Renaming) (st st' : LowerState) : Prop where
  together : ρ.Embeds st.store st'.store
  alone : refl.Embeds st.store st.store
  keeps : base.store.KeepsBelow base.store.queries.size st.store
  fixes : ρ.Fixes base.store
  covers : st.ranking.Covers standardRules
  covers' : st'.ranking.Covers standardRules

section

variable {schema : Schema} {provider : Provider} {row : String} {rows : Lowered} {base : LowerState}
  {ρ : Renaming} {st st' : LowerState}

/-- The context of the terms about a row. -/
def rowContext (schema : Schema) (provider : Provider) (row : String) (rows : Lowered) :
    LowerContext :=
  { schema, provider, scope := [(row, rows.projection)] }

theorem Renaming.contexts_top (σ : Renaming) (hnatural : provider.functions.Natural) :
    σ.Contexts { schema, provider } { schema, provider } := ⟨rfl, rfl, hnatural, [], rfl⟩

theorem Renaming.contexts_widened (σ : Renaming) (hnatural : provider.functions.Natural) :
    σ.Contexts { schema, provider } (rowContext schema provider row rows) :=
  ⟨rfl, rfl, hnatural, [(row, rows.projection)], rfl⟩

theorem Renaming.contexts_row {σ : Renaming} (hrows : σ.lowered rows = rows)
    (hnatural : provider.functions.Natural) :
    σ.Contexts (rowContext schema provider row rows) (rowContext schema provider row rows) := by
  refine ⟨rfl, rfl, hnatural, [], ?_⟩
  have hprojection : σ.projection rows.projection = rows.projection :=
    congrArg Lowered.projection hrows
  simp [rowContext, Renaming.scope, hprojection]

theorem Lowered.Rooted.aligned (h : rows.Rooted base) : Aligned base refl base base :=
  ⟨h.embeds, h.embeds, .refl _ _, fun _ _ _ => rfl, h.covers, h.covers⟩

/-- Rows that are lowered in an empty store. -/
theorem Lowered.rooted {source : Term} {ranking : Ranking} (hnatural : provider.functions.Natural)
    (hcovers : ranking.Covers standardRules) (hreads : rows.outcome.reads = true)
    (h : (standardLowerer.sequence source none).Gives { schema, provider } { ranking } rows base) :
    rows.Rooted base := by
  have hempty : refl.Embeds ({ ranking } : LowerState).store ({ ranking } : LowerState).store :=
    Renaming.embeds_empty
  have hsource : ∀ σ : Renaming, LowerM.MirrorsIf σ (fun lowered => lowered.outcome.reads = true)
      σ.lowered (standardLowerer.sequence source none) (standardLowerer.sequence source none) :=
    fun σ => (standardLowerer_mirrors σ).sequence source none
  obtain ⟨base', hgives, hembeds, hcovers, -, hfixed⟩ := hempty.run
    (fun σ _ => ⟨σ.contexts_top hnatural, hsource σ⟩) hcovers hcovers h hreads
  obtain ⟨hsame, rfl⟩ := hgives.unique h
  exact ⟨hembeds, hcovers, fun hσ => (hfixed _ hσ.agrees).2.trans hsame⟩

/-- The table of the rows is the same under renamings that leave the source as it is. -/
theorem Lowered.Rooted.table_fixed (h : rows.Rooted base) {t : TableRef}
    (htarget : rows.Targets t base.store) {σ : Renaming} (hσ : σ.Fixes base.store) :
    σ.table t = t := by
  obtain ⟨name, members, hprojection⟩ := htarget.projection
  have htable := congrArg Lowered.projection (h.fixed hσ)
  rw [Renaming.lowered, hprojection] at htable
  injection htable with _ htable
  exact Option.some.inj htable

/-- A value that is lowered for the query of the rows. -/
theorem Lowered.Rooted.scalar_mirrors (h : rows.Rooted base) {σ : Renaming}
    (hσ : σ.Fixes base.store) (t : Term) :
    LowerM.Mirrors σ σ.scalar (standardLowerer.scalar t rows.query)
      (standardLowerer.scalar t rows.query) := by
  have hscalar := (standardLowerer_mirrors σ).scalar t rows.query
  rwa [show σ.query rows.query = rows.query from congrArg Lowered.query (h.fixed hσ)] at hscalar

theorem Lowered.Rooted.field_fixed (h : rows.Rooted base) {t : TableRef}
    (htarget : rows.Targets t base.store) {σ : Renaming} (hσ : σ.Fixes base.store) {name : String}
    {f : FieldRef} (hf : base.store.fieldByName t name = some f) : σ.field f = f := by
  have hfound := (h.embeds.copies hσ.agrees).fieldByName t name
  rw [h.table_fixed htarget hσ, hf] at hfound
  exact (Option.some.inj hfound).symm

namespace Aligned

theorem grows (h : Aligned base ρ st st') (kind : NodeKind) :
    base.store.count kind ≤ st.store.count kind := by
  cases kind
  exacts [h.keeps.tables, h.keeps.fields, h.keeps.queries, h.keeps.columns]

theorem fixes_of_agrees (h : Aligned base ρ st st') {σ : Renaming}
    (hσ : ρ.Agrees σ st.store st'.store) : σ.Fixes base.store := fun kind i hi => by
  rw [hσ.below kind i (Nat.lt_of_lt_of_le hi (h.grows kind)), h.fixes kind i hi]

theorem alone_fixes (h : Aligned base ρ st st') {σ : Renaming}
    (hσ : refl.Agrees σ st.store st.store) : σ.Fixes base.store :=
  fun kind i hi => hσ.below kind i (Nat.lt_of_lt_of_le hi (h.grows kind))

/-- Both runs say about the table of the rows what the source says. -/
theorem matches_base (h : Aligned base ρ st st') (hrows : rows.Rooted base) {t : TableRef}
    (htarget : rows.Targets t base.store) :
    base.store.Matches rows.query t st.store ∧ base.store.Matches rows.query t st'.store := by
  have hfixed : ∀ {σ : Renaming} {r c : Store}, σ.Fixes base.store →
      base.store.Matches rows.query t r → σ.Copies r c → base.store.Matches rows.query t c := by
    intro σ r c hσ hmatches hcopies
    exact hmatches.copies (hrows.embeds.copies hσ.agrees) hcopies
      (congrArg Lowered.query (hrows.fixed hσ)) (hrows.table_fixed htarget hσ)
  obtain ⟨σ, hσ, hagrees⟩ := hrows.embeds.grow h.keeps (Nat.zero_lt_of_lt htarget.valid)
  have hst := hfixed (hagrees σ hσ.agrees).below (.refl _ _ _) (hσ.copies hσ.agrees)
  exact ⟨hst, hfixed h.fixes hst (h.together.copies h.together.agrees)⟩

variable {s : Setting row} (h : Aligned base ρ st st') (hrows : rows.Rooted base)
  (hnatural : provider.functions.Natural) (hpos : 0 < base.store.queries.size)
include h hrows hnatural hpos

/-- A value that translates where the source was lowered translates in both runs. -/
theorem translates {e₀ : Scalar} {base' : LowerState}
    (htranslates : (s.lower standardLowerer rows).Gives { schema, provider } base e₀ base') :
    ∃ e st₁ st₁', (s.lower standardLowerer rows).Gives { schema, provider } st e st₁ ∧
      (s.lower standardLowerer rows).Gives { schema, provider } st' (ρ.scalar e) st₁' ∧
      ρ.Embeds st₁.store st₁'.store ∧ st₁.ranking.Covers standardRules ∧
      st₁'.ranking.Covers standardRules ∧
      ∀ σ : Renaming, ρ.Agrees σ st₁.store st₁'.store →
        ρ.Agrees σ st.store st'.store ∧ σ.scalar e = ρ.scalar e := by
  have hsteps : ∀ {σ : Renaming}, σ.Fixes base.store →
      σ.Contexts { schema, provider } { schema, provider } ∧
        LowerM.Mirrors σ σ.scalar (s.lower standardLowerer rows) (s.lower standardLowerer rows) :=
    fun hσ => ⟨Renaming.contexts_top _ hnatural, s.lower_mirrors (hrows.fixed hσ)⟩
  obtain ⟨σ, hσ, hagrees⟩ := hrows.embeds.grow h.keeps hpos
  obtain ⟨st₁, hgives, -, -, hcovers, -⟩ := hσ.run
    (fun τ hτ => hsteps (hagrees τ hτ).below) hrows.covers h.covers htranslates trivial
  obtain ⟨st₁', hgives', hembeds, -, hcovers', hfixed⟩ := h.together.run
    (fun τ hτ => hsteps (h.fixes_of_agrees hτ)) h.covers h.covers' hgives trivial
  exact ⟨_, st₁, st₁', hgives, hgives', hembeds, hcovers, hcovers', hfixed⟩

omit hpos in
/-- In a record the value is lowered with the row in scope, also where a chain has it lowered
without: a value that does not mention the row is the same. -/
theorem lowered_in_row {e : Scalar} {st₁ st₁' : LowerState}
    (hgives : (s.lower standardLowerer rows).Gives { schema, provider } st e st₁)
    (hcovers : st₁.ranking.Covers standardRules) (hembeds : ρ.Embeds st₁.store st₁'.store) :
    ∃ st₂, (standardLowerer.scalar s.value rows.query).Gives (rowContext schema provider row rows)
        st e st₂ ∧ st₂.ranking.Covers standardRules ∧ ρ.Embeds st₂.store st₁'.store ∧
      ∀ kind, st₂.store.count kind = st₁.store.count kind := by
  rcases s.gives with ⟨hgiven, hplain⟩ | hfunction
  · rw [Setting.lower, hgiven, hplain] at hgives
    obtain ⟨st₁'', hagain, hself, -⟩ := h.alone.run
      (fun σ hσ => ⟨σ.contexts_top hnatural, hrows.scalar_mirrors (h.alone_fixes hσ) s.value⟩)
      h.covers h.covers hgives trivial
    obtain ⟨hsame, rfl⟩ := hagain.unique hgives
    obtain ⟨st₂, hgives₂, hembeds₂, -, hcovers₂, -⟩ := h.alone.run
      (fun σ hσ => ⟨σ.contexts_widened hnatural, hrows.scalar_mirrors (h.alone_fixes hσ) s.value⟩)
      h.covers h.covers hgives trivial
    rw [hsame] at hgives₂
    exact ⟨st₂, hgives₂, hcovers₂, hself.exchange hembeds₂ hembeds, hembeds₂.count_eq⟩
  · rw [Setting.lower, isFunctionTerm_of_functionOf hfunction] at hgives
    obtain ⟨_, _, hfound, hgives⟩ := LowerM.Gives.of_bind hgives
    rw [show s.given.functionOf [rows.projection].length = _ from hfunction] at hfound
    cases hfound
    exact ⟨st₁, hgives, hcovers, hembeds, fun _ => rfl⟩

/-- An assignment that both runs make. -/
theorem keep {e₀ : Scalar} {base' : LowerState}
    (htranslates : (s.lower standardLowerer rows).Gives { schema, provider } base e₀ base') :
    ∃ e st₁ st₁', (standardLowerer.scalar s.value rows.query).Gives
        (rowContext schema provider row rows) st e st₁ ∧
      (s.lower standardLowerer rows).Gives { schema, provider } st' (ρ.scalar e) st₁' ∧
      Aligned base ρ st₁ st₁' ∧ refl.scalar e = e ∧ ∀ σ : Renaming,
        ρ.Agrees σ st₁.store st₁'.store → ρ.Agrees σ st.store st'.store ∧
          σ.scalar e = ρ.scalar e := by
  obtain ⟨e, st₂, st₁', hgives, hgives', hembeds, hcovers, hcovers', hfixed⟩ :=
    h.translates hrows hnatural hpos htranslates
  obtain ⟨st₁, hrow, hcovers, hembeds, hcount⟩ :=
    h.lowered_in_row hrows hnatural hgives hcovers hembeds
  obtain ⟨_, hagain, hself, -⟩ := h.alone.run
    (fun σ hσ => ⟨Renaming.contexts_row (hrows.fixed (h.alone_fixes hσ)) hnatural,
      hrows.scalar_mirrors (h.alone_fixes hσ) s.value⟩) h.covers h.covers hrow trivial
  obtain ⟨hsame, rfl⟩ := hagain.unique hrow
  have hkeeps := ((standardLowerer_keeps base.store.queries.size).scalar s.value rows.query
    _ _ _ _ h.keeps.queries hrow).1
  refine ⟨e, _, st₁', hrow, hgives', ⟨hembeds, hself, h.keeps.trans hkeeps, h.fixes, hcovers,
    hcovers'⟩, hsame, fun σ hσ => hfixed σ ⟨fun kind i hi => hσ.below kind i ?_,
      fun kind i hi => hσ.above kind i ?_⟩⟩
  · rwa [hcount]
  · rwa [hcount]

/-- An assignment that the second run makes only to leave it out. -/
theorem skip {e₀ : Scalar} {base' : LowerState}
    (htranslates : (s.lower standardLowerer rows).Gives { schema, provider } base e₀ base') :
    ∃ e st₁' σ, (s.lower standardLowerer rows).Gives { schema, provider } st' e st₁' ∧
      Aligned base σ st st₁' ∧ ∀ τ : Renaming, σ.Agrees τ st.store st₁'.store →
        ρ.Agrees τ st.store st'.store := by
  obtain ⟨e, -, st₁', -, hgives, -, -, hcovers', -⟩ := h.translates hrows hnatural hpos htranslates
  have hkeeps := (s.lower_keeps st'.store.queries.size rows _ _ _ _ (Nat.le_refl _) hgives).1
  obtain ⟨σ, hσ, hagrees⟩ := h.together.grow hkeeps (Nat.lt_of_lt_of_le hpos h.keeps.queries)
  exact ⟨_, st₁', σ, hgives, ⟨hσ, h.alone, h.keeps, h.fixes_of_agrees (hagrees σ hσ.agrees),
    h.covers, hcovers'⟩, hagrees⟩

end Aligned

end

/-! ## Calls of a chain -/

/-- One more assignment, unless there is no field for it. -/
def assignFound (found : Option FieldRef) (e : Scalar) (items : List Assignment) :
    List Assignment :=
  match found with
  | some f => assign (.toField f e) items
  | none => items

/-- The assignments of a chain so far. -/
def Outcome.assigned? : Outcome → Option (List Assignment)
  | assignments items => some items
  | sequence => some []
  | _ => none

section

variable {ctx : LowerContext} {start st st₁ : LowerState} {rows : Lowered} {row : String} {t : Term}
  {outcome : Outcome} {items : List Assignment}

/-- What a call of a chain does after its source. -/
def Setting.apply (s : Setting row) (rows : Lowered) (items : List Assignment) :
    LowerM Lowered := do
  let table ← rows.target
  let member ← LowerM.ofExcept s.selector.memberOfFunction
  let value ← s.lower standardLowerer rows
  let found ← LowerM.settableField table member .update
  return { rows with outcome := .assignments (assignFound found value items) }

/-- A call of a chain in steps. -/
theorem Setting.lower_call (s : Setting row) (t : Term) (parent : Option QueryRef) :
    updateRule.lower standardLowerer (s.call t) parent = (do
      let rows ← standardLowerer.sequence t parent
      match rows.outcome.assigned? with
      | some items => s.apply rows items
      | none => LowerM.refuse (s.call t).text "Set needs a sequence of entities") := by
  refine bind_congr (x := standardLowerer.sequence t parent) fun rows => ?_
  obtain ⟨q, p, outcome⟩ := rows
  have happly : ∀ items, s.apply ⟨q, p, outcome⟩ items = (do
      let table ← Lowered.target ⟨q, p, outcome⟩
      let member ← LowerM.ofExcept s.selector.memberOfFunction
      let value ←
        if isFunctionTerm s.given then standardLowerer.applyScalar s.given [p] q
        else standardLowerer.scalar s.given q
      let items :=
        match ← LowerM.settableField table member .update with
        | some f => assign (.toField f value) items
        | none => items
      return ⟨q, p, .assignments items⟩) := by
    intro items
    refine bind_congr fun table => bind_congr fun member => ?_
    unfold Setting.lower
    split <;> rfl
  cases outcome with
  | assignments items => exact (happly items).symm
  | sequence => exact (happly []).symm
  | _ => rfl

theorem updateRule_only (s : Setting row) (t : Term) :
    standardRules.filter (·.accepts (s.call t)) = [updateRule] := rfl

/-- A chain fails with its source. -/
theorem LowerM.Fails.setting (s : Setting row)
    (hsource : (standardLowerer.sequence t none).Fails ctx start)
    (hcovers : start.ranking.Covers standardRules) :
    (standardLowerer.sequence (s.call t) none).Fails ctx start := by
  rw [standardLowerer_sequence]
  refine LowerM.Fails.dispatch ?_ (updateRule_only s t) hcovers
  rw [s.lower_call]
  exact hsource.bind

theorem LowerM.Fails.settingAll (settings : List (Setting row))
    (hsource : (standardLowerer.sequence t none).Fails ctx start)
    (hcovers : start.ranking.Covers standardRules) :
    (standardLowerer.sequence (t.settingAll settings) none).Fails ctx start := by
  induction settings generalizing t with
  | nil => exact hsource
  | cons s rest ih => exact ih (.setting s hsource hcovers)

variable {s : Setting row}
  (hsource : (standardLowerer.sequence t none).Gives ctx start { rows with outcome } st)
  (houtcome : outcome.assigned? = some items) (hcovers : start.ranking.Covers standardRules)
include hsource houtcome hcovers

/-- A chain fails with its last call. -/
theorem LowerM.Fails.setting_of_apply (happly : (s.apply rows items).Fails ctx st) :
    (standardLowerer.sequence (s.call t) none).Fails ctx start := by
  rw [standardLowerer_sequence]
  refine LowerM.Fails.dispatch ?_ (updateRule_only s t) hcovers
  rw [s.lower_call]
  refine .after hsource ?_
  dsimp only
  rw [houtcome]
  exact happly

/-- A chain with one more call. -/
theorem LowerM.Gives.setting {lowered : Lowered}
    (happly : (s.apply rows items).Gives ctx st lowered st₁)
    (hcovers₁ : st₁.ranking.Covers standardRules) :
    ∃ ranking, (standardLowerer.sequence (s.call t) none).Gives ctx start lowered
      { st₁ with ranking } ∧ ranking.Covers standardRules := by
  rw [standardLowerer_sequence]
  refine LowerM.Gives.dispatch ?_ (updateRule_only s t) hcovers hcovers₁
  rw [s.lower_call]
  refine hsource.bind ?_
  dsimp only
  rw [houtcome]
  exact happly

end

/-! ## Both ways -/

section

variable {row : String}

/-- The assignments of members of a record, after other ones. -/
def Lowerer.assignMembers (l : Lowerer) (table : TableRef) (q : QueryRef)
    (members : List (String × Term)) (items : List Assignment) : LowerM (List Assignment) :=
  members.foldlM (fun items (name, value) => l.assignMember table .update q items name value) items

variable {schema : Schema} {provider : Provider} {rows : Lowered} {base : LowerState}
  {table : TableRef} (hnatural : provider.functions.Natural) (hrows : rows.Rooted base)
  (htarget : rows.Targets table base.store)

theorem Lowered.Targets.matches {s' : Store} (htarget : rows.Targets table base.store)
    (h : base.store.Matches rows.query table s') : rows.Targets table s' :=
  ⟨htarget.projection, by rw [h.query]; exact htarget.read⟩

/-- The fields that are set keep their numbers. -/
theorem Lowered.Rooted.kept_fixed (hrows : rows.Rooted base)
    (htarget : rows.Targets table base.store) {σ : Renaming} (hσ : σ.Fixes base.store)
    {settings : List (Setting row)} (f : FieldRef)
    (hf : f ∈ (Setting.kept base.store table settings).map (·.1)) : σ.field f = f := by
  obtain ⟨a, ha, rfl⟩ := List.mem_map.mp hf
  obtain ⟨s, -, hs⟩ := List.mem_filterMap.mp ha
  obtain ⟨f, hsettable, rfl⟩ := Option.map_eq_some_iff.mp hs
  exact hrows.field_fixed htarget hσ (Option.filter_eq_some_iff.mp hsettable).1

theorem LowerM.Gives.apply {s : Setting row} {ctx : LowerContext} {st st₁ : LowerState} {e : Scalar}
    {found : Option FieldRef} (htarget : rows.Targets table st.store)
    (hvalue : (s.lower standardLowerer rows).Gives ctx st e st₁)
    (hfound : (LowerM.settableField table s.member .update).Gives ctx st₁ found st₁)
    (items : List Assignment) :
    (s.apply rows items).Gives ctx st
      { rows with outcome := .assignments (assignFound found e items) } st₁ :=
  (htarget.gives ctx).bind ((LowerM.Gives.ofExcept s.selects).bind
    (hvalue.bind (hfound.bind (.pure _))))

/-- A chain that is lowered while a record is: their assignments are the same so far, whatever the
nodes that the record does not have are called. -/
structure InStep (schema : Schema) (provider : Provider) (start base : LowerState) (rows : Lowered)
    (ρ : Renaming) (items : List Assignment) (st : LowerState) (chain : Term) (outcome : Outcome)
    (items' : List Assignment) (st' : LowerState) : Prop where
  gives : (standardLowerer.sequence chain none).Gives { schema, provider } start
    { rows with outcome } st'
  assigned : outcome.assigned? = some items'
  aligned : Aligned base ρ st st'
  same : ∀ σ : Renaming, ρ.Agrees σ st.store st'.store → items' = items.map σ.assignment

variable {start : LowerState} (hcovers : start.ranking.Covers standardRules)

namespace InStep

variable {ρ : Renaming} {items items' : List Assignment} {st st' base' : LowerState} {chain : Term}
  {outcome : Outcome} {s : Setting row} {e₀ : Scalar}
  (h : InStep schema provider start base rows ρ items st chain outcome items' st')

include h hcovers in
/-- One more call of the chain. -/
theorem call {σ : Renaming} {items₁ items₁' : List Assignment} {st₁ st₁' : LowerState}
    (happly : (s.apply rows items').Gives { schema, provider } st'
      { rows with outcome := .assignments items₁' } st₁')
    (haligned : Aligned base σ st₁ st₁')
    (hsame : ∀ τ : Renaming, σ.Agrees τ st₁.store st₁'.store → items₁' = items₁.map τ.assignment) :
    ∃ st₂', InStep schema provider start base rows σ items₁ st₁ (s.call chain)
      (.assignments items₁') items₁' st₂' := by
  obtain ⟨ranking, hgives, hcovers'⟩ :=
    LowerM.Gives.setting h.gives h.assigned hcovers happly haligned.covers'
  exact ⟨_, hgives, rfl, { haligned with covers' := hcovers' }, hsame⟩

variable (htranslates : (s.lower standardLowerer rows).Gives { schema, provider } base e₀ base')
include hnatural hrows htarget hcovers h htranslates

/-- A member that no field has is refused both ways. -/
theorem unmapped (hmissing : base.store.fieldByName table s.member = none) :
    (standardLowerer.assignMember table .update rows.query items s.member s.value).Fails
        (rowContext schema provider row rows) st ∧
      (standardLowerer.sequence (s.call chain) none).Fails { schema, provider } start := by
  obtain ⟨hst, hst'⟩ := h.aligned.matches_base hrows htarget
  obtain ⟨e, st₁', σ, hvalue, haligned, -⟩ :=
    h.aligned.skip hrows hnatural (Nat.zero_lt_of_lt htarget.valid) htranslates
  have hmatches := (haligned.matches_base hrows htarget).2
  have happly : (s.apply rows items').Fails { schema, provider } st' :=
    .after ((htarget.matches hst').gives _) <| .after (LowerM.Gives.ofExcept s.selects) <|
      .after hvalue <| .bind (.settableField hmatches hmissing _)
  exact ⟨.bind (.settableField hst hmissing _),
    .setting_of_apply h.gives h.assigned hcovers happly⟩

/-- A field that is left out. -/
theorem skipped (hmapped : (base.store.fieldByName table s.member).isSome)
    (hsettable : base.store.settable table s.member = none) :
    (standardLowerer.assignMember table .update rows.query items s.member s.value).Gives
        (rowContext schema provider row rows) st items st ∧
      ∃ σ st₁', InStep schema provider start base rows σ items st (s.call chain)
        (.assignments items') items' st₁' := by
  obtain ⟨hst, hst'⟩ := h.aligned.matches_base hrows htarget
  obtain ⟨e, st₁', σ, hvalue, haligned, hagrees⟩ :=
    h.aligned.skip hrows hnatural (Nat.zero_lt_of_lt htarget.valid) htranslates
  have hmatches := (haligned.matches_base hrows htarget).2
  have hfound := LowerM.Gives.settableField hst hmapped (rowContext schema provider row rows)
  have hfound' := LowerM.Gives.settableField hmatches hmapped { schema, provider }
  rw [hsettable] at hfound hfound'
  exact ⟨hfound.bind (.pure _), σ, h.call hcovers
    (.apply (htarget.matches hst') hvalue hfound' items') haligned
    fun τ hτ => h.same τ (hagrees τ hτ)⟩

/-- A field that is set. -/
theorem kept {f : FieldRef} (hsettable : base.store.settable table s.member = some f) :
    ∃ e st₁, (standardLowerer.scalar s.value rows.query).Gives
        (rowContext schema provider row rows) st e st₁ ∧ refl.scalar e = e ∧
      (standardLowerer.assignMember table .update rows.query items s.member s.value).Gives
        (rowContext schema provider row rows) st (assign (.toField f e) items) st₁ ∧
      ∃ items₁' st₁', InStep schema provider start base rows ρ (assign (.toField f e) items) st₁
        (s.call chain) (.assignments items₁') items₁' st₁' := by
  obtain ⟨hst, hst'⟩ := h.aligned.matches_base hrows htarget
  obtain ⟨e, st₁, st₁', hvalue, hvalue', haligned, hself, hagrees⟩ :=
    h.aligned.keep hrows hnatural (Nat.zero_lt_of_lt htarget.valid) htranslates
  have hmatches := (haligned.matches_base hrows htarget).2
  obtain ⟨hfield, -⟩ := Option.filter_eq_some_iff.mp hsettable
  have hmapped := Option.isSome_of_mem hfield
  have hfound := LowerM.Gives.settableField hst hmapped (rowContext schema provider row rows)
  have hfound' := LowerM.Gives.settableField hmatches hmapped { schema, provider }
  rw [hsettable] at hfound hfound'
  refine ⟨e, st₁, hvalue, hself, hfound.bind (hvalue.bind (.pure _)), _, h.call hcovers
    (.apply (htarget.matches hst') hvalue' hfound' items') haligned fun σ hσ => ?_⟩
  obtain ⟨hagrees, hscalar⟩ := hagrees σ hσ
  have hsame := hrows.field_fixed htarget (h.aligned.fixes_of_agrees hagrees) hfield
  have hitem : σ.assignment (.toField f e) = .toField f (σ.scalar e) := by
    simp [Renaming.assignment, Assignment.toField, hsame]
  rw [assignFound, h.same σ hagrees, ← hscalar, ← σ.assign_assignment, hitem]

omit h htranslates in
/-- However many members are assigned, a record and the chain that are lowered in step stay so, or
both fail. -/
theorem settings (settings : List (Setting row))
    (htranslates : ∀ s ∈ settings, ∃ e st,
      (s.lower standardLowerer rows).Gives { schema, provider } base e st)
    (h : InStep schema provider start base rows ρ items st chain outcome items' st') :
    (∃ made st₁, ∃ σ : Renaming,
      (standardLowerer.fieldValues rows.query (Setting.kept base.store table settings)).Gives
        (rowContext schema provider row rows) st made st₁ ∧
      (∀ a ∈ made, refl.scalar a.2 = a.2) ∧
      ((∀ s ∈ settings, (base.store.settable table s.member).isSome) → σ = ρ) ∧
      (standardLowerer.assignMembers table rows.query (Setting.members settings) items).Gives
        (rowContext schema provider row rows) st (assignAll items made) st₁ ∧
      ∃ outcome₁ items₁' st₁', InStep schema provider start base rows σ (assignAll items made) st₁
        (chain.settingAll settings) outcome₁ items₁' st₁') ∨
    (standardLowerer.assignMembers table rows.query (Setting.members settings) items).Fails
        (rowContext schema provider row rows) st ∧
      (standardLowerer.sequence (chain.settingAll settings) none).Fails { schema, provider }
        start := by
  induction settings generalizing chain outcome items items' st st' ρ with
  | nil => exact .inl ⟨[], st, ρ, .pure _, nofun, fun _ => rfl, .pure _, outcome, items', st', h⟩
  | cons s rest ih =>
    have hrest : ∀ x ∈ rest, _ := fun x hx => htranslates x (.tail _ hx)
    obtain ⟨e₀, base', hs⟩ := htranslates s (.head _)
    cases hmapped : base.store.fieldByName table s.member with
    | none =>
      obtain ⟨hmember, hcall⟩ := h.unmapped hnatural hrows htarget hcovers hs hmapped
      exact .inr ⟨.bind hmember, .settingAll rest hcall hcovers⟩
    | some f =>
      have hsome : (base.store.fieldByName table s.member).isSome := hmapped ▸ rfl
      cases hsettable : base.store.settable table s.member with
      | none =>
        have hkept := Setting.kept_of_not_settable rest hsettable
        obtain ⟨hmember, σ, st₁', hcall⟩ :=
          h.skipped hnatural hrows htarget hcovers hs hsome hsettable
        rcases ih hrest hcall with
          ⟨made, st₁, τ, hvalues, hself, -, hmembers, hstep⟩ | ⟨hmembers, hchain⟩
        · refine .inl ⟨made, st₁, τ, hkept ▸ hvalues, hself, fun hall => ?_,
            hmember.bind hmembers, hstep⟩
          have hskipped := hall s (.head _)
          rw [hsettable] at hskipped
          cases hskipped
        · exact .inr ⟨.after hmember hmembers, hchain⟩
      | some f =>
        have hkept := Setting.kept_of_settable rest hsettable
        obtain ⟨e, st₁, hvalue, he, hmember, _, st₁', hcall⟩ :=
          h.kept hnatural hrows htarget hcovers hs hsettable
        rcases ih hrest hcall with
          ⟨made, st₂, τ, hvalues, hself, hτ, hmembers, hstep⟩ | ⟨hmembers, hchain⟩
        · refine .inl ⟨(f, e) :: made, st₂, τ, hkept ▸ .fieldValues hvalue hvalues, ?_,
            fun hall => hτ fun x hx => hall x (.tail _ hx), hmember.bind hmembers, hstep⟩
          exact List.forall_mem_cons.mpr ⟨he, hself⟩
        · exact .inr ⟨.after hmember hmembers, hchain⟩

end InStep

end

/-! ## Updates -/

/-- A function that makes a record or an entity of members. -/
def Term.Makes (setter : Term) (row : String) (members : List (String × Term)) : Prop :=
  ∃ body, setter.functionOf 1 = .ok ([row], body) ∧
    (body = .record members ∨ ∃ name, body = .entity name members)

/-- The assignments of a setter are those of its members, with the row in scope. -/
theorem Term.Makes.assignments_eq {setter : Term} {row : String} {members : List (String × Term)}
    (h : setter.Makes row members) (l : Lowerer) (p : Projection) (table : TableRef)
    (q : QueryRef) :
    l.assignments setter [p] table q .update =
      LowerM.withVariables [(row, p)] (l.assignMembers table q members []) := by
  obtain ⟨body, hsetter, hbody⟩ := h
  unfold Lowerer.assignments
  rw [show setter.functionOf [p].length = _ from hsetter]
  rcases hbody with rfl | ⟨name, rfl⟩ <;> rfl

/-- An update of some rows. -/
def Lowered.updated (rows : Lowered) (table : TableRef) (items : List Assignment) : Lowered :=
  { rows with outcome := .statement (.update { table := some table, items } none) }

/-- The last step of an update. -/
def Lowered.update (rows : Lowered) (items : List Assignment) : LowerM Lowered := do
  if items.isEmpty then throw (.resolution "Update statement has no columns to set.")
  return rows.updated (← rows.target) items

theorem lowerUpdate_eq (l : Lowerer) (c : CallSite) :
    lowerUpdate l c = (do
      let (rows, items) ← lowerUpdateParts l c
      rows.update items) := rfl

section

variable {ctx : LowerContext} {start st st' : LowerState} {rows : Lowered} {table : TableRef}
  {items : List Assignment} {row : String} {setter chain source : Term}
  {members : List (String × Term)} {outcome : Outcome}

theorem LowerM.Gives.update (hitems : items ≠ []) (htarget : rows.Targets table st.store) :
    (rows.update items).Gives ctx st (rows.updated table items) st := by
  unfold Lowered.update
  rw [if_neg (by simpa using hitems)]
  exact (htarget.gives ctx).bind (.pure _)

/-- Nothing is updated without assignments. -/
theorem LowerM.Fails.update (hitems : items = []) : (rows.update items).Fails ctx st := by
  subst hitems
  exact .bind (.throw _)

/-- The items of a setter. -/
theorem Lowered.setterItems_eq (houtcome : rows.outcome = .sequence)
    (hsetter : setter.Makes row members) (l : Lowerer) :
    rows.setterItems l setter = (do
      let table ← rows.target
      LowerM.withVariables [(row, rows.projection)]
        (l.assignMembers table rows.query members [])) := by
  unfold Lowered.setterItems
  rw [houtcome]
  exact bind_congr fun table => hsetter.assignments_eq l rows.projection table rows.query

/-- An update by the assignments of a setter. -/
theorem LowerM.Gives.updateRecord {base : LowerState}
    (hsource : (standardLowerer.sequence source none).Gives ctx start rows base)
    (hset : (rows.setterItems standardLowerer setter).Gives ctx base items st) (hitems : items ≠ [])
    (htarget : rows.Targets table st.store) :
    (lowerUpdate standardLowerer ⟨.update, [source, setter], none⟩).Gives ctx start
      (rows.updated table items) st := by
  have hparts : (lowerUpdateParts standardLowerer ⟨.update, [source, setter], none⟩).Gives ctx start
      (rows, items) st := hsource.bind (hset.bind (.pure _))
  rw [lowerUpdate_eq]
  exact hparts.bind (.update hitems htarget)

/-- An update by the assignments of a chain. -/
theorem LowerM.Gives.updateChain
    (hchain : (standardLowerer.sequence chain none).Gives ctx start { rows with outcome } st)
    (houtcome : outcome.assigned? = some items) (hitems : items ≠ [])
    (htarget : rows.Targets table st.store) :
    (lowerUpdate standardLowerer ⟨.update, [chain], none⟩).Gives ctx start
      (rows.updated table items) st := by
  cases outcome with
  | assignments found =>
    cases houtcome
    have htarget : Lowered.Targets { rows with outcome := .assignments items } table st.store :=
      ⟨htarget.projection, htarget.read⟩
    exact LowerM.Gives.bind (hchain.bind (.pure _)) (.update hitems htarget)
  | sequence =>
    cases houtcome
    exact absurd rfl hitems
  | _ => cases houtcome

/-- A chain without assignments cannot be closed. -/
theorem LowerM.Fails.updateChain
    (hchain : (standardLowerer.sequence chain none).Gives ctx start { rows with outcome } st)
    (houtcome : outcome.assigned? = some []) :
    (lowerUpdate standardLowerer ⟨.update, [chain], none⟩).Fails ctx start := by
  cases outcome with
  | assignments found =>
    cases houtcome
    exact .after (hchain.bind (.pure _)) (.update rfl)
  | sequence => exact .bind (.after hchain (.throw _))
  | _ => cases houtcome

end

theorem updateRule_closes (args : List Term) :
    standardRules.filter (·.accepts (.call .update args)) = [updateRule] := rfl

section

variable {ctx : LowerContext} {start st : LowerState} {args : List Term} {lowered : Lowered}
  (hcovers : start.ranking.Covers standardRules)
include hcovers

theorem LowerM.Fails.updateCall
    (h : (lowerUpdate standardLowerer ⟨.update, args, none⟩).Fails ctx start) :
    (lowerSequence standardRules (.call .update args)).Fails ctx start := by
  rw [lowerSequence_eq]
  exact LowerM.Fails.dispatch h (updateRule_closes args) hcovers

theorem LowerM.Gives.updateCall
    (h : (lowerUpdate standardLowerer ⟨.update, args, none⟩).Gives ctx start lowered st)
    (hcovers' : st.ranking.Covers standardRules) :
    ∃ ranking, (lowerSequence standardRules (.call .update args)).Gives ctx start lowered
      { st with ranking } := by
  rw [lowerSequence_eq]
  obtain ⟨ranking, hdispatch, -⟩ :=
    LowerM.Gives.dispatch h (updateRule_closes args) hcovers hcovers'
  exact ⟨ranking, hdispatch⟩

end

section

variable {schema : Schema} {provider : Provider} {ranking : Ranking} {row : String}
  {source setter : Term} {settings : List (Setting row)}

/-- An update of rows that are those of no table fails both ways. -/
theorem LowerM.Fails.untargeted {rows : Lowered} {ctx : LowerContext} {start base : LowerState}
    (hrows : (standardLowerer.sequence source none).Gives ctx start rows base)
    (hsequence : rows.outcome = .sequence) (hnone : rows.target.Fails ctx base)
    (hsetter : setter.Makes row (Setting.members settings))
    (hcovers : start.ranking.Covers standardRules) :
    (lowerUpdate standardLowerer ⟨.update, [source, setter], none⟩).Fails ctx start ∧
      (lowerUpdate standardLowerer ⟨.update, [source.settingAll settings], none⟩).Fails ctx
        start := by
  have hstart : (standardLowerer.sequence source none).Gives ctx start
      { rows with outcome := .sequence } base := by rwa [← hsequence]
  have hset : (rows.setterItems standardLowerer setter).Fails ctx base := by
    rw [Lowered.setterItems_eq hsequence hsetter]
    exact .bind hnone
  refine ⟨.bind (.after hrows (.bind hset)), ?_⟩
  cases settings with
  | nil => exact .updateChain hstart rfl
  | cons s rest =>
    have hcall : (standardLowerer.sequence (s.call source) none).Fails ctx start :=
      .setting_of_apply hstart rfl hcovers (.bind hnone)
    exact .bind (.bind (.settingAll rest hcall hcovers))

/-- An update that is written as a chain of calls, each of which sets a member, and one that is
written with a function that makes a record of these members both fail, or both set the same fields
of the table that the source reads: those of the members that are not excluded from updates, each
in the position of its first assignment and with the value of its last one.  The values are the same
but for the numbers of the nodes that they add, and the very same if no member is excluded. -/
theorem update_settings_agree (hnatural : provider.functions.Natural)
    (hcovers : ranking.Covers standardRules) (hsetter : setter.Makes row (Setting.members settings))
    (hsequence : ∀ rows base, (lowerSequence standardRules source).Gives { schema, provider }
      { ranking } rows base → rows.outcome = .sequence)
    (htranslates : ∀ rows base, (lowerSequence standardRules source).Gives { schema, provider }
      { ranking } rows base → ∀ s ∈ settings, ∃ e st,
        (s.lower standardLowerer rows).Gives { schema, provider } base e st) :
    (∃ rows base table made values recorded chained, ∃ ρ : Renaming,
      (lowerSequence standardRules source).Gives { schema, provider } { ranking } rows base ∧
      rows.Targets table base.store ∧
      (standardLowerer.fieldValues rows.query (Setting.kept base.store table settings)).Gives
        (rowContext schema provider row rows) base made values ∧
      (lowerSequence standardRules (.call .update [source, setter])).Gives { schema, provider }
        { ranking } (rows.updated table (lastAssigned made)) recorded ∧
      recorded.store = values.store ∧
      (lowerSequence standardRules (.call .update [source.settingAll settings])).Gives
        { schema, provider } { ranking }
        (rows.updated table (lastAssigned (made.map fun a => (a.1, ρ.scalar a.2)))) chained ∧
      ρ.Copies recorded.store chained.store ∧ ρ.Fixes base.store ∧
      ((∀ s ∈ settings, (base.store.settable table s.member).isSome) →
        ∀ a ∈ made, ρ.scalar a.2 = a.2)) ∨
    (lowerSequence standardRules (.call .update [source, setter])).Fails { schema, provider }
        { ranking } ∧
      (lowerSequence standardRules (.call .update [source.settingAll settings])).Fails
        { schema, provider } { ranking } := by
  rcases (standardLowerer.sequence source none).gives_or_fails { schema, provider } { ranking } with
    ⟨rows, base, hrows⟩ | hnone
  case inr =>
    exact .inr ⟨.updateCall hcovers (.bind (.bind hnone)),
      .updateCall hcovers (.bind (.bind (.settingAll settings hnone hcovers)))⟩
  have hsequence := hsequence rows base hrows
  rcases rows.target.gives_or_fails { schema, provider } base with ⟨table, _, htarget⟩ | hnone
  case inr =>
    obtain ⟨hrecord, hchain⟩ := LowerM.Fails.untargeted hrows hsequence hnone hsetter hcovers
    exact .inr ⟨.updateCall hcovers hrecord, .updateCall hcovers hchain⟩
  have htarget := Lowered.targets_of_gives htarget
  have hrooted := Lowered.rooted hnatural hcovers (by rw [hsequence]; rfl) hrows
  have hstart : InStep schema provider { ranking } base rows refl [] base source .sequence []
      base :=
    ⟨by rw [← hsequence]; exact hrows, rfl, hrooted.aligned, fun _ _ => rfl⟩
  have hvalues := htranslates rows base hrows
  rcases hstart.settings hnatural hrooted htarget hcovers settings hvalues with
    ⟨made, values, ρ, hvalues, hself, hall, hmembers, outcome, items, chained, hchain⟩ |
      ⟨hmembers, hchain⟩
  case inr =>
    have hset : (rows.setterItems standardLowerer setter).Fails { schema, provider } base := by
      rw [Lowered.setterItems_eq hsequence hsetter]
      exact .after (htarget.gives _) (.withVariables hmembers)
    exact .inr ⟨.updateCall hcovers (.bind (.after hrows (.bind hset))),
      .updateCall hcovers (.bind (.bind hchain))⟩
  have hset : (rows.setterItems standardLowerer setter).Gives { schema, provider } base
      (lastAssigned made) values := by
    rw [Lowered.setterItems_eq hsequence hsetter, ← assignAll_nil]
    exact (htarget.gives _).bind (.withVariables hmembers)
  have hitems : items = (lastAssigned made).map ρ.assignment := by
    rw [← assignAll_nil]
    exact hchain.same ρ hchain.aligned.together.agrees
  obtain ⟨hmatches, hmatches'⟩ := hchain.aligned.matches_base hrooted htarget
  by_cases hempty : lastAssigned made = []
  · rw [hempty, List.map_nil] at hitems
    have hrecord : (lowerUpdate standardLowerer ⟨.update, [source, setter], none⟩).Fails
        { schema, provider } { ranking } :=
      .after (hrows.bind (hset.bind (.pure _))) (.update hempty)
    exact .inr ⟨.updateCall hcovers hrecord,
      .updateCall hcovers (.updateChain hchain.gives (hitems ▸ hchain.assigned))⟩
  · have hkept : ∀ a ∈ made, ρ.field a.1 = a.1 := fun a ha =>
      hrooted.kept_fixed htarget hchain.aligned.fixes a.1
        (hvalues.fieldValues_fields ▸ List.mem_map_of_mem ha)
    obtain ⟨_, hrecorded⟩ := LowerM.Gives.updateCall hcovers
      (.updateRecord hrows hset hempty (htarget.matches hmatches)) hchain.aligned.covers
    obtain ⟨_, hchained⟩ := LowerM.Gives.updateCall hcovers (.updateChain hchain.gives
      hchain.assigned (by simpa [hitems] using hempty) (htarget.matches hmatches'))
      hchain.aligned.covers'
    rw [hitems, ← ρ.lastAssigned_map hkept] at hchained
    exact .inl ⟨rows, base, table, made, values, _, _, ρ, hrows, htarget, hvalues, hrecorded, rfl,
      hchained, hchain.aligned.together.copies hchain.aligned.together.agrees,
      hchain.aligned.fixes, fun h a ha => hall h ▸ hself a ha⟩

end

namespace Setting

/-- Accounts, whose opening date is not updated. -/
def accountMapping : EntityMapping where
  name := "Account"
  columns := [{ member := "Id", kind := .int32, primaryKey := some 0 },
    { member := "Owner", kind := .varChar }, { member := "Balance", kind := .int32 },
    { member := "Opened", kind := .int32, skipOnUpdate := true }]

/-- Terms about accounts. -/
def accountContext : LowerContext :=
  { schema := { entities := [accountMapping] }, provider := .ofDialect .generic }

/-- A value for a member of an account, given as it is or as a function of the account. -/
def ofAccount (member : String) (value : Term) (given : Term)
    (gives : given = value ∧ isFunctionTerm value = false ∨
      given.functionOf 1 = .ok (["a"], value)) : Setting "a" where
  member := member
  value := value
  selector := .fn "a" (.member (.bound "a") member)
  given := given
  selects := rfl
  gives := gives

/-- One more than the balance. -/
def raised : Term := .binary .add (.member (.bound "a") "Balance") (.constant (.integer 1))

/-- An owner, a balance, a date that is left out, and another owner. -/
def transfer : List (Setting "a") :=
  [ofAccount "Owner" (.constant (.text "old")) (.constant (.text "old")) (.inl ⟨rfl, rfl⟩),
    ofAccount "Balance" raised (.fn "a" raised) (.inr rfl),
    ofAccount "Opened" (.constant (.integer 7)) (.constant (.integer 7)) (.inl ⟨rfl, rfl⟩),
    ofAccount "Owner" (.constant (.text "new")) (.constant (.text "new")) (.inl ⟨rfl, rfl⟩)]

/-- The assignments as a function that makes a record. -/
def transferred : Term := .fn "a" (.record (members transfer))

end Setting

open Setting in
/-- A transfer sets the owner and the balance both ways: each once, and nothing else. -/
theorem update_settings_agree_transfer :
    ∃ (rows : Lowered) (table : TableRef) (made : List (FieldRef × Scalar))
      (recorded chained : LowerState) (ρ : Renaming),
      (lowerSequence standardRules (.call .update [.table "Account", transferred])).Gives
        accountContext { ranking := Pipeline.givenOrder } (rows.updated table (lastAssigned made))
        recorded ∧
      (lowerSequence standardRules
        (.call .update [(Term.table "Account").settingAll transfer])).Gives accountContext
        { ranking := Pipeline.givenOrder }
        (rows.updated table (lastAssigned (made.map fun a => (a.1, ρ.scalar a.2)))) chained ∧
      (lastAssigned made).map (·.target) = [.field ⟨1⟩, .field ⟨2⟩] := by
  have hnatural : accountContext.provider.functions.Natural :=
    FunctionCatalog.natural_functions .generic
  have hcovers : Pipeline.givenOrder.Covers standardRules := fun i hi => List.mem_range.mpr hi
  have hsetter : transferred.Makes "a" (members transfer) := ⟨_, rfl, .inl rfl⟩
  obtain ⟨rows, base, hrows, hsequence, htranslates, hprojection, hkept⟩ : ∃ rows base,
      (lowerSequence standardRules (.table "Account")).Gives accountContext
        { ranking := Pipeline.givenOrder } rows base ∧ rows.outcome = .sequence ∧
        (∀ s ∈ transfer, ∃ e st, (s.lower standardLowerer rows).Gives accountContext base e st) ∧
        (∃ name members, rows.projection = .entity name (some ⟨0⟩) members) ∧
        (kept base.store ⟨0⟩ transfer).map (·.1) = [⟨1⟩, ⟨2⟩, ⟨1⟩] := by
    refine ⟨_, _, rfl, rfl, ?_, ⟨_, _, rfl⟩, rfl⟩
    simp only [transfer, List.forall_mem_cons]
    exact ⟨⟨_, _, rfl⟩, ⟨_, _, rfl⟩, ⟨_, _, rfl⟩, ⟨_, _, rfl⟩, nofun⟩
  have hagree := update_settings_agree hnatural hcovers hsetter
    (fun rows' base' h => by
      obtain ⟨rfl, -⟩ := h.unique hrows
      exact hsequence)
    (fun rows' base' h => by
      obtain ⟨rfl, rfl⟩ := h.unique hrows
      exact htranslates)
  rcases hagree with ⟨_, _, table, made, values, recorded, chained, ρ, hrows', htarget, hvalues,
    hrecorded, -, hchained, -⟩ | ⟨⟨e, st, hfails⟩, -⟩
  · obtain ⟨rfl, rfl⟩ := hrows'.unique hrows
    refine ⟨_, table, made, recorded, chained, ρ, hrecorded, hchained, ?_⟩
    obtain ⟨name, fields, htable⟩ := htarget.projection
    obtain ⟨_, _, hprojection⟩ := hprojection
    rw [hprojection] at htable
    cases htable
    have hfields := hvalues.fieldValues_fields
    rw [hkept] at hfields
    rw [lastAssigned, hfields]
    rfl
  · have hgives : ∃ lowered st', (lowerSequence standardRules
        (.call .update [.table "Account", transferred])).Gives accountContext
          { ranking := Pipeline.givenOrder } lowered st' := ⟨_, _, rfl⟩
    obtain ⟨_, _, hgives⟩ := hgives
    cases hfails.symm.trans hgives

end SqlCompiler
