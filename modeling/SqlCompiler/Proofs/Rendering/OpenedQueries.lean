import SqlCompiler.Proofs.Idempotence.Statements
import SqlCompiler.Proofs.Rendering.Statements

/-!
# Queries that are opened

The queries of a statement are searched for by one traversal and printed by another one.  The
search does not look at the rows of a table of values, at the arguments of a raw table, at the
targets of assignments, and at columns that no query selects.  If the queries in these places are
listed all the same, printing opens listed queries only: it does the same when it refuses to open
any others.

Main results:

- Definition `Store.NothingHidden`: the places the search does not look at hold listed queries.
- Theorem `Store.printStatement_only`: a statement is printed the same if other queries are refused.
- Theorem `Store.legalizeStatement_opensListed`: the queries that a legalized statement is printed
  with are listed once; their expressions have been legalized and they have aliases.
-/

namespace SqlCompiler

namespace Store

/-- The queries around a statement, whose sources are in view in it. -/
def outerScopes (s : Store) (t : StatementRef) : List QueryRef :=
  s.enclosingQueries s.statements.size (s.statement t).parent

/-- Queries in the places that the search for the queries of a statement does not look at are listed
all the same. -/
structure NothingHidden (s : Store) (t : StatementRef) : Prop where
  tables : ∀ q ∈ s.statementQueries t, ∀ source ∈ (s.query q).allSources, ∀ table ∈ source.table?,
    queriesOf (s.table table).kind.walk ⊆ s.statementQueries t
  targets : queriesOf (s.statement t).body.targets ⊆ s.statementQueries t
  /-- A column in view is printed as its expression, selected or not. -/
  columns : ∀ c, (s.column c).parent ∈ s.statementQueries t ++ s.outerScopes t →
    queriesOf (s.column c).expression.walk ⊆ s.statementQueries t

/-- Only the columns of the store have to be looked at. -/
theorem nothingHidden_iff {s : Store} {t : StatementRef} : s.NothingHidden t ↔
    (∀ q ∈ s.statementQueries t, ∀ source ∈ (s.query q).allSources, ∀ table ∈ source.table?,
      queriesOf (s.table table).kind.walk ⊆ s.statementQueries t) ∧
    queriesOf (s.statement t).body.targets ⊆ s.statementQueries t ∧
    ∀ i < s.columns.size, (s.column ⟨i⟩).parent ∈ s.statementQueries t ++ s.outerScopes t →
      queriesOf (s.column ⟨i⟩).expression.walk ⊆ s.statementQueries t := by
  constructor
  · exact fun h => ⟨h.tables, h.targets, fun i _ => h.columns ⟨i⟩⟩
  · rintro ⟨htables, htargets, hcolumns⟩
    refine ⟨htables, htargets, fun c hc => ?_⟩
    by_cases hsize : c.index < s.columns.size
    · exact hcolumns c.index hsize hc
    · have hdefault : s.column c = default := by
        rw [column, Array.getElem?_eq_none (Nat.le_of_not_lt hsize), Option.getD_none]
      rw [hdefault]
      exact List.nil_subset _

instance (s : Store) (t : StatementRef) : Decidable (s.NothingHidden t) :=
  decidable_of_iff _ nothingHidden_iff.symm

end Store

/-! ## Printing with listed queries -/

namespace Printing

variable {provider : Provider} {s : Store} {t : StatementRef}

/-- The printing of a statement that opens listed queries only. -/
def listed (provider : Provider) (s : Store) (t : StatementRef) : Printing where
  provider
  store := s
  edits := True
  parameter _ := True
  query q := q ∈ s.statementQueries t
  scope q := q ∈ s.statementQueries t ++ s.outerScopes t
  inScope _ := List.mem_append_left _

theorem within_listed {scalars : List Scalar} (h : queriesOf scalars ⊆ s.statementQueries t) :
    Within (listed provider s t) scalars := by
  intro e he
  cases e with
  | query q => exact h (mem_queriesOf.mpr he)
  | _ => trivial

/-- Where no query is hidden, what is listed leads to what is listed. -/
theorem closed_listed (h : s.NothingHidden t) : (listed provider s t).Closed where
  patterns _ _ _ _ _ := trivial
  column c hc := within_listed (h.columns c hc)
  query q hq := by
    apply Query.Allowed.of_walkQuery
    · apply within_listed
      intro r hr
      exact Store.mem_statementQueries.mpr
        (.step (Store.mem_statementQueries.mp hq) (List.mem_append_left _ hr))
    · intro source hsource table htable
      refine within_listed (h.tables q hq source hsource table ?_)
      rw [Source.table?, htable]
      exact rfl

/-- A statement in which no query is hidden refers to listed queries only. -/
theorem covers_listed (h : s.NothingHidden t) : (listed provider s t).Covers t := by
  have hroot : s.rootQueries (s.statement t) ⊆ s.statementQueries t :=
    fun q hq => Store.mem_statementQueries.mpr (.root hq)
  rw [Store.rootQueries, List.append_subset, List.cons_subset] at hroot
  obtain ⟨⟨hquery, hctes⟩, hwalk⟩ := hroot
  constructor
  · exact closed_listed h
  · exact hquery
  · exact fun c hc => hctes (List.mem_map_of_mem hc)
  · exact within_listed hwalk
  · exact within_listed h.targets

end Printing

namespace Store

variable {s : Store} {p : Provider} {t : StatementRef}

/-- In a statement without hidden queries, refusing to open queries that are not listed makes no
difference. -/
theorem printStatement_only (h : s.NothingHidden t) {frame : Frame} (hstore : frame.store = s)
    (hscopes : frame.scopes ⊆ s.outerScopes t) (fuel : Nat) (page : Page) :
    printStatement (.only (s.statementQueries t) fuel) (s.statement t) frame page =
      printStatement (.within fuel) (s.statement t) frame page := by
  have hcovers : (Printing.listed frame.provider s t).Covers t := Printing.covers_listed h
  have hframe : (Printing.listed frame.provider s t).Frames frame :=
    ⟨rfl, hstore, fun q hq => List.mem_append_right _ (hscopes hq)⟩
  have hnext := NextLevel.only_alike hcovers.closed (fun _ hq => hq) fuel
  exact (printStatement_alike hnext hcovers trivial frame hframe page).1

/-- Every query of a legalized statement is listed once; its expressions have been legalized and it
has aliases.  If no query is hidden, these are all the queries that are opened in printing it. -/
theorem legalizeStatement_opensListed {final : Store} (hs : s.Owned)
    (hrun : (legalizeStatement p t).runOn s = (.ok (), final)) :
    (final.statementQueries t).Nodup ∧
    (∃ legal, s.restructured p t = (.ok (), legal) ∧
      final = (legal.legalizeExpressions p t).finalizeAliases t ∧
      ∀ q ∈ final.statementQueries t, q ∈ legal.statementQueries t ∧ final.Aliased q) ∧
    (final.NothingHidden t →
      ∀ frame : Frame, frame.store = final → frame.scopes ⊆ final.outerScopes t → ∀ fuel page,
        printStatement (.only (final.statementQueries t) fuel) (final.statement t) frame page =
          printStatement (.within fuel) (final.statement t) frame page) := by
  obtain ⟨legal, hlegal, hfinal⟩ := legalizeStatement_ok_iff.mp hrun
  have howned := (hs.restructured hlegal).evolves (Evolves.rewriting.legalizeExpressions legal p t)
  constructor
  · exact nodup_statementQueries final t
  constructor
  · refine ⟨legal, hlegal, hfinal, fun q hq => ?_⟩
    rw [hfinal] at hq ⊢
    constructor
    · rw [statementQueries_finalizeAliases howned, mem_statementQueries] at hq
      exact mem_statementQueries.mpr ((narrows_legalizeExpressions p).reaches q hq)
    · exact aliased_finalizeAliases howned (mem_statementQueries.mp hq)
  · intro hhidden frame hstore hscopes fuel page
    exact printStatement_only hhidden hstore hscopes fuel page

/-- DB2 pages over a subquery with the distinct rows, and both queries are listed. -/
theorem legalizeStatement_opensListed_threeNicknames : ∃ final,
    (legalizeStatement (.ofDialect .db2) ⟨0⟩).runOn threeNicknames = (.ok (), final) ∧
      final.statementQueries ⟨0⟩ = [⟨0⟩, ⟨1⟩] ∧ (∀ q ∈ [⟨0⟩, ⟨1⟩], final.Aliased q) ∧
        ∀ frame : Frame, frame.store = final → frame.scopes = [] → ∀ fuel page,
          printStatement (.only [⟨0⟩, ⟨1⟩] fuel) (final.statement ⟨0⟩) frame page =
            printStatement (.within fuel) (final.statement ⟨0⟩) frame page := by
  obtain ⟨legal, hlegal⟩ : ∃ legal, legal = (threeNicknames.restructured (.ofDialect .db2) ⟨0⟩).2 :=
    ⟨_, rfl⟩
  obtain ⟨final, hfinal⟩ : ∃ final,
      final = (legal.legalizeExpressions (.ofDialect .db2) ⟨0⟩).finalizeAliases ⟨0⟩ := ⟨_, rfl⟩
  have hrun : (legalizeStatement (.ofDialect .db2) ⟨0⟩).runOn threeNicknames = (.ok (), final) := by
    refine legalizeStatement_ok_iff.mpr ⟨legal, ?_, hfinal⟩
    rw [hlegal]
    rfl
  have hlisted : final.statementQueries ⟨0⟩ = [⟨0⟩, ⟨1⟩] := by
    rw [hfinal, hlegal]
    decide +kernel
  have hhidden : final.NothingHidden ⟨0⟩ := by
    rw [hfinal, hlegal]
    decide +kernel
  obtain ⟨-, ⟨_, -, -, haliased⟩, hprinted⟩ :=
    legalizeStatement_opensListed (owned_nicknames _) hrun
  specialize hprinted hhidden
  rw [hlisted] at haliased hprinted
  refine ⟨final, hrun, hlisted, fun q hq => (haliased q hq).2, fun frame hstore hscopes => ?_⟩
  exact hprinted frame hstore (hscopes ▸ List.nil_subset _)

end Store

end SqlCompiler
