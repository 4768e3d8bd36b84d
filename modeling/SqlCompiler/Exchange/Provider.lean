import SqlCompiler.Exchange.Constant
import SqlCompiler.Options
import SqlCompiler.Provider.Basic

/-!
# Providers and options as JSON

Capabilities go by names; those not mentioned keep the value they have.

Main definitions:

- `capabilityFlags`: the names of the capabilities.
- `readCapabilities`: capabilities with some of them changed.
- `readProvider`: a known provider, or one with changed capabilities.
- `describeProvider`: the conventions of a provider.
- `readOptions`.
-/

namespace SqlCompiler.Exchange

/-! ## Capabilities -/

/-- A capability with its name. -/
structure CapabilityFlag where
  name : String
  get : Capabilities → Bool
  set : Bool → Capabilities → Capabilities

/-- Every capability that is either there or not. -/
def capabilityFlags : List CapabilityFlag := [
  ⟨"is_take_supported", (·.take), fun b c => { c with take := b }⟩,
  ⟨"is_skip_supported", (·.skip), fun b c => { c with skip := b }⟩,
  ⟨"is_skip_supported_if_take", (·.skipIfTake), fun b c => { c with skipIfTake := b }⟩,
  ⟨"is_sub_query_take_supported", (·.subqueryTake), fun b c => { c with subqueryTake := b }⟩,
  ⟨"is_sub_query_skip_supported", (·.subquerySkip), fun b c => { c with subquerySkip := b }⟩,
  ⟨"is_paging_with_distinct_supported", (·.pagingWithDistinct),
    fun b c => { c with pagingWithDistinct := b }⟩,
  ⟨"is_distinct_order_by_supported", (·.distinctOrderBy),
    fun b c => { c with distinctOrderBy := b }⟩,
  ⟨"is_update_from_supported", (·.updateFrom), fun b c => { c with updateFrom := b }⟩,
  ⟨"is_multi_table_dml_supported", (·.multiTableDml), fun b c => { c with multiTableDml := b }⟩,
  ⟨"is_update_set_row_supported", (·.updateSetRow), fun b c => { c with updateSetRow := b }⟩,
  ⟨"is_insert_or_update_supported", (·.upsert), fun b c => { c with upsert := b }⟩,
  ⟨"is_merge_supported", (·.merge), fun b c => { c with merge := b }⟩,
  ⟨"is_merge_by_source_supported", (·.mergeBySource), fun b c => { c with mergeBySource := b }⟩,
  ⟨"is_multi_insert_supported", (·.multiInsert), fun b c => { c with multiInsert := b }⟩,
  ⟨"is_cross_join_supported", (·.crossJoin), fun b c => { c with crossJoin := b }⟩,
  ⟨"is_apply_join_supported", (·.applyJoin), fun b c => { c with applyJoin := b }⟩,
  ⟨"is_except_all_supported", (·.exceptAll), fun b c => { c with exceptAll := b }⟩,
  ⟨"is_intersect_all_supported", (·.intersectAll), fun b c => { c with intersectAll := b }⟩,
  ⟨"is_grouping_sets_supported", (·.groupingSets), fun b c => { c with groupingSets := b }⟩,
  ⟨"is_boolean_type_supported", (·.booleanType), fun b c => { c with booleanType := b }⟩,
  ⟨"is_distinct_from_supported", (·.distinctFrom), fun b c => { c with distinctFrom := b }⟩,
  ⟨"is_cte_supported", (·.cte), fun b c => { c with cte := b }⟩,
  ⟨"is_recursive_cte_keyword_required", (·.recursiveCteKeyword),
    fun b c => { c with recursiveCteKeyword := b }⟩,
  ⟨"is_truncate_supported", (·.truncate), fun b c => { c with truncate := b }⟩,
  ⟨"is_drop_table_if_exists_supported", (·.dropTableIfExists),
    fun b c => { c with dropTableIfExists := b }⟩,
  ⟨"is_named_query_block_supported", (·.namedQueryBlock),
    fun b c => { c with namedQueryBlock := b }⟩]

/-- A limit of this size is none. -/
def unlimited : Nat := Nat.pow 2 64 - 1

/-- Capabilities, starting from those that are not mentioned. -/
def readCapabilities (start : Capabilities) (j : Json) : Decode Capabilities := do
  let flagged ← capabilityFlags.foldlM
    (fun c flag => do
      match ← optional readFlag (j.field flag.name) with
      | some b => return flag.set b c
      | none => return c)
    start
  match ← optional readNat (j.field "max_in_list_values_count") with
  | some n => return { flagged with maxInListValues := if n < unlimited then some n else none }
  | none => return flagged

/-- The names of the capabilities that are there, and the longest list of values. -/
def describeCapabilities (c : Capabilities) : Json :=
  .object [
    ("set", Json.listOf (fun flag => .text flag.name) (capabilityFlags.filter (·.get c))),
    ("max_in_list", Json.orNull .nat c.maxInListValues)]

/-! ## Providers -/

/-- The provider of a name. -/
def findProvider (registry : ProviderRegistry) (name : String) : Decode Provider :=
  orError "provider" (registry.find? name)

/-- A provider: a name, or an object with a base and changed capabilities.  Only the generic
dialect takes another name, and legalizes by the changed capabilities. -/
def readProvider (registry : ProviderRegistry) (j : Json) : Decode Provider := do
  match j with
  | .null => findProvider registry Dialect.generic.name
  | .text name => findProvider registry name
  | _ =>
    let base ← readText (j.field "base")
    let name ← optional readText (j.field "name")
    if base == Dialect.generic.name then
      return .generic (name.getD base) (← readCapabilities {} (j.field "flags"))
    else
      let p ← findProvider registry base
      return { p with capabilities := ← readCapabilities p.capabilities (j.field "flags") }

/-! ## Conventions -/

/-- Quotings by their names. -/
def quotings : List (String × Quoting) :=
  [("None", .none), ("Brackets", .brackets), ("DoubleQuotes", .doubleQuotes),
    ("DoubleQuotesWhenNeeded", .doubleQuotesWhenNeeded)]

/-- Places of output clauses by their names. -/
def outputStyles : List (String × OutputStyle) :=
  [("Unsupported", .unsupported), ("Output", .output), ("Returning", .returning)]

/-- Forms of upserts by their names. -/
def upsertStyles : List (String × UpsertStyle) :=
  [("Merge", .merge), ("OnConflict", .onConflict), ("UpdateThenInsert", .updateThenInsert)]

/-- How a generated identity is read back. -/
def writeIdentityStyle : IdentityStyle → Json
  | .unsupported => .list [.text "Unsupported"]
  | .returning => .list [.text "Returning"]
  | .sameCommand sql => .list [.text "SameCommand", .text sql]
  | .secondCommand sql => .list [.text "SecondCommand", .text sql]

/-- The conventions of a provider. -/
def describeProvider (p : Provider) : Json :=
  let d := p.dialect
  .object [
    ("name", .text p.name), ("optimizer", .text p.rulesName),
    ("quoting", writeTag quotings d.quoting), ("output", writeTag outputStyles d.outputStyle),
    ("upsert", writeTag upsertStyles d.upsertStyle),
    ("prefix", .text (String.singleton d.parameterPrefix)), ("offset_first", .bool d.offsetFirst),
    ("take_hints", .bool d.takeHints), ("true", .text (d.booleanLiteral true)),
    ("false", .text (d.booleanLiteral false)),
    ("identity_column", Json.orNull .text d.identityColumn),
    ("identity", writeIdentityStyle d.identityStyle), ("inserted", .text (d.pseudoTable .inserted)),
    ("deleted", .text (d.pseudoTable .deleted)), ("dummy", Json.orNull .text d.dummyTable),
    ("terminator", .text d.mergeTerminator), ("by_alias", .bool d.dmlTargetIsAlias),
    ("alias_keyword", .text d.dmlAliasKeyword), ("like", .text (String.ofList d.likeSpecials)),
    ("escape", .text (String.singleton Dialect.likeEscape)),
    ("concat", .text d.concatOperator.sign), ("keep_convert", .bool d.keepsSameTypeConversion),
    ("unsupported", .text (p.rulesUnsupported "X").message)]

/-! ## Options -/

/-- Options, those that are not mentioned at their defaults. -/
def readOptions (j : Json) : Decode Options := do
  let defaults : Options := {}
  let maxBinary ← optional readNat (j.field "max_binary")
  let maxText ← optional readNat (j.field "max_string")
  return {
    finalAliases := ← readFlag (j.field "final_aliases")
    trace := ← readFlag (j.field "trace")
    maxBinaryLength := maxBinary.getD defaults.maxBinaryLength
    maxTextLength := maxText.getD defaults.maxTextLength
    maxInListValues := ← optional readNat (j.field "max_in_list") }

/-- Options. -/
def describeOptions (o : Options) : Json :=
  .object [("final_aliases", .bool o.finalAliases), ("trace", .bool o.trace),
    ("max_binary", .nat o.maxBinaryLength), ("max_string", .nat o.maxTextLength),
    ("max_in_list", Json.orNull .nat o.maxInListValues)]

end SqlCompiler.Exchange
