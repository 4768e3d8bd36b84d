import SqlCompiler.Compiler
import SqlCompiler.Exchange.Statement
import SqlCompiler.Exchange.Error

/-!
# Lowered terms as JSON

Main definitions:

- `readProjection`, `writeProjection`.
- `describeOutcome`: what a lowered term is for.
- `describeCompiled`: a compiled term.
- `describeRanking`: how often rules were used, in the order in which they are asked.
-/

namespace SqlCompiler.Exchange

/-! ## Projections -/

/-- A projection nested at most `fuel` deep. -/
def readProjectionWithin : Nat → Json → Decode Projection
  | 0, _ => .error "projection expected"
  | fuel + 1, j => do
    let read := readProjectionWithin fuel
    match ← readText (j.item 0) with
    | "entity" =>
      let members ← readList (readPair readText readScalar) (j.item 3)
      return .entity (← readText (j.item 1)) (← optional readTable (j.item 2))
        (Members.ofList members)
    | "record" => return .record (Members.ofList (← readList (readPair readText read) (j.item 1)))
    | "scalar" => return .scalar (← readScalar (j.item 1))
    | "grouping" => return .grouping (← read (j.item 1)) (← read (j.item 2))
    | other => .error ("unknown projection " ++ other)

/-- A projection. -/
def readProjection (j : Json) : Decode Projection := readProjectionWithin j.depth j

mutual

/-- A projection. -/
def writeProjection : Projection → Json
  | .entity name table members =>
    .list [.text "entity", .text name, Json.orNull writeTable table,
      .list (members.map fun (name, e) => .list [.text name, writeScalar e])]
  | .record members => .list [.text "record", .list (writeProjectionMembers members)]
  | .scalar e => .list [.text "scalar", writeScalar e]
  | .grouping key element =>
    .list [.text "grouping", writeProjection key, writeProjection element]
termination_by structural p => p

/-- The members of a record. -/
def writeProjectionMembers : List (String × Projection) → List Json
  | [] => []
  | (name, p) :: rest => .list [.text name, writeProjection p] :: writeProjectionMembers rest
termination_by structural ms => ms

end

/-- Scalars with their paths. -/
def writeLeaves (leaves : List (String × Scalar)) : Json :=
  Json.listOf (fun (path, e) => .list [.text path, writeScalar e]) leaves

/-! ## Outcomes -/

/-- A merge that is not closed yet. -/
def describeMergeDraft (d : MergeDraft) : Json :=
  .object [("target", writeTable d.target),
    ("target_projection", writeProjection d.targetProjection),
    ("source", Json.orNull writeProjection d.source), ("on", Json.orNull writeCondition d.on),
    ("operations", Json.listOf writeMergeOperation d.operations)]

/-- A multi-table insert that is not closed yet. -/
def describeMultiInsertDraft (d : MultiInsertDraft) : Json :=
  .object [("inserts", Json.listOf writeConditionalInsert d.inserts),
    ("unconditional", .bool d.unconditional), ("has_else", .bool d.hasElse),
    ("has_when", .bool d.hasWhen)]

/-- What a lowered term is for. -/
def describeOutcome : Outcome → Json
  | .sequence => .list [.text "sequence"]
  | .element single orDefault => .list [.text "element", .bool single, .bool orDefault]
  | .scalar => .list [.text "scalar"]
  | .statement body => .list [.text "statement", .object (writeBody body)]
  | .insertValues into items =>
    .list [.text "value_insertable", writeTable into, writeAssignments items]
  | .assignments items => .list [.text "updatable", writeAssignments items]
  | .merge d => .list [.text "merge", describeMergeDraft d]
  | .multiInsert d => .list [.text "multi_insert", describeMultiInsertDraft d]

/-! ## Compiled terms -/

/-- The places of the members of a row. -/
def writeResultColumns (columns : List ResultColumn) : Json :=
  Json.listOf (fun c => .list [.text c.path, .nat c.index]) columns

/-- How a result is read. -/
def describeShape : ResultShape → Json
  | .sequence columns => .list [.text "sequence", writeResultColumns columns]
  | .element columns single orDefault =>
    .list [.text "element", writeResultColumns columns, .bool single, .bool orDefault]
  | .scalar => .list [.text "scalar"]
  | .identity => .list [.text "identity"]
  | .affectedRows => .list [.text "affected"]

/-- The commands of a compiled term and how its result is read. -/
def describeCompiled (c : Compiled) : Json :=
  .object (describeRendered c.rendered ++ [("shape", describeShape c.shape)])

/-- How often rules were used, in the order in which they are asked. -/
def describeRanking (r : Ranking) : Json :=
  Json.listOf (fun use => .list [.text use.name, .nat use.count]) r.uses

end SqlCompiler.Exchange
