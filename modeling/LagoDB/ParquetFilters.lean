import LagoDB.RuntimePredicates
import Mathlib.Data.List.Sort

/-!
# Parquet filters

A predicate tree becomes a planned tree when every leaf has an exact Arrow
counterpart. Binding reads the runtime values and carries negation down to the
leaves. The bound tree is compiled twice for a file: into a row filter over the
columns it names, and into a test of row group statistics.
-/
namespace LagoDB.Parquet

open SqlLogic NumericCodec Pushdown Iceberg
open RuntimePredicates (DataType ArrowField)

/-! ## Arrow values -/

/-- A non-NULL cell of a record batch. -/
inductive ArrowValue where
  | boolean (value : Bool)
  | int16 (value : ℤ)
  | int32 (value : ℤ)
  | int64 (value : ℤ)
  | utf8 (bytes : Bytes)
  | largeUtf8 (bytes : Bytes)
  | decimal128 (unscaled : ℤ) (precision : ℕ) (scale : ℤ)
  | other (value : SqlValue)
  deriving DecidableEq

namespace ArrowValue

/-- The PostgreSQL value a scan decodes. -/
def read : ArrowValue → SqlValue
  | .boolean value => .boolean value
  | .int16 value | .int32 value | .int64 value => .integral value
  | .utf8 bytes | .largeUtf8 bytes => .text bytes
  | .decimal128 unscaled _ scale => .number (.finite (unscaled / 10 ^ scale))
  | .other value => value

/-- The order of the values of one type. -/
def order : ArrowValue → ArrowValue → Option Ordering
  | .boolean a, .boolean b => some (compare a b)
  | .int16 a, .int16 b => some (compare a b)
  | .int32 a, .int32 b => some (compare a b)
  | .int64 a, .int64 b => some (compare a b)
  | .utf8 a, .utf8 b => some (byteOrder a b)
  | .largeUtf8 a, .largeUtf8 b => some (byteOrder a b)
  | .decimal128 a precision scale, .decimal128 b precision' scale' =>
    if precision = precision' ∧ scale = scale' then some (compare a b) else none
  | _, _ => none

end ArrowValue

/-- The answer of Arrow's comparison kernels, which may refuse their operands. -/
abbrev ArrowKernel := ArrowValue → ArrowValue → Option Ordering

/-- The kernels compare values of one type in their order. -/
def ArrowKernel.Laws (kernel : ArrowKernel) : Prop :=
  ∀ a b order, a.order b = some order → kernel a b = some order

/-- The columns of a file, in the order of its root fields. -/
abbrev Schema := List ArrowField

/-- One row of a file by root field; no value is NULL. -/
abbrev Row := List (Option ArrowValue)

def Schema.indexOf (schema : Schema) (name : String) : Option ℕ :=
  schema.findIdx? fun field => field.name = name

inductive ConnectorError where
  | invalidFilterPlan
  | invalidFilterDatum (typeOid : TypeOid)
  | invalidObjectSchema (message : String)
  | decimal (error : DecimalCodecError)
  | arrow (message : String)
  | panicked (message : String)
  deriving DecidableEq

/-! ## Planning -/

/-- The same six operators as the Iceberg planner's, with the same mirror and
complement. -/
abbrev ComparisonOperator := PlannedComparisonOperator

inductive ValueType where
  | bool
  | i16
  | i32
  | i64
  | string
  | decimal128 (semantics : Decimal128NumericCodec)
  deriving DecidableEq

structure PlannedColumn where
  attno : ℤ
  name : String
  deriving DecidableEq

inductive PlannedNode where
  | comparison (operator : ComparisonOperator) (column : PlannedColumn) (value : ℕ)
      (valueType : ValueType)
  | isNull (column : PlannedColumn)
  | isNotNull (column : PlannedColumn)
  | and (children : List PlannedNode)
  | or (children : List PlannedNode)
  | not (child : PlannedNode)

namespace ComparisonOperator

/-- Operators of one type with itself, for the types that are compared exactly. -/
def isAllowed : TypeOid → TypeOid → Bool
  | .bool, .bool | .int2, .int2 | .int4, .int4 | .int8, .int8 | .numeric, .numeric
  | .text, .text => true
  | _, _ => false

def fromOid (catalog : Catalog) (oid : ℕ) : Option ComparisonOperator :=
  (catalog.forOperator oid).bind fun signature =>
    if isAllowed signature.leftType signature.rightType then
      some (IcebergFilterPlanner.plannedOperator signature.kind)
    else none

end ComparisonOperator

namespace ValueType

/-- The table of (declared, effective, value) types. -/
def tabulated (column : ColumnRef) (value : RuntimeValueSpec) (operator : ComparisonOperator) :
    Option ValueType :=
  match column.declaredType.typeOid, column.valueType.typeOid, value.valueType.typeOid with
  | .bool, .bool, .bool => if operator = .eq ∨ operator = .notEq then some .bool else none
  | .int2, .int2, .int2 => some .i16
  | .int4, .int4, .int4 => some .i32
  | .int8, .int8, .int8 => some .i64
  | .numeric, .numeric, .numeric =>
    (decimalForStorageComparison column.declaredType column.valueType value.valueType).map
      .decimal128
  | declared, effective, valueOid =>
    if declared.isText ∧ effective.isText ∧ valueOid.isText then some .string else none

/-- Only strings have a collation, and theirs must compare bytes. -/
def isAdmitted (catalog : Catalog) (operator : PgComparisonOp) (kind : PgComparisonKind)
    (utf8 : Bool) : ValueType → Bool
  | .string => utf8 && PgPredicatePushdownPolicy.forComparison catalog operator kind
  | _ => PredicatePushdownPolicy.isCollationFree operator

def forComparison (catalog : Catalog) (column : ColumnRef) (value : RuntimeValueSpec)
    (operator : PgComparisonOp) (utf8 : Bool) : Option (ValueType × ComparisonOperator) := do
  let comparison ← ComparisonOperator.fromOid catalog operator.opno
  let valueType ← tabulated column value comparison
  if valueType.isAdmitted catalog operator comparison.kind utf8 then some (valueType, comparison)
  else none

end ValueType

structure ParquetFilterPlanner where
  /-- Live columns by `attno - 1`. -/
  columns : List (Option PlannedColumn)
  utf8 : Bool
  catalog : Catalog

namespace ParquetFilterPlanner

def begin (layout : RelationLayout) (utf8 : Bool) (catalog : Catalog) :
    ParquetFilterPlanner where
  columns := layout.attributes.mapIdx fun index attr => attr.name.map fun name => ⟨index + 1, name⟩
  utf8 := utf8
  catalog := catalog

variable (planner : ParquetFilterPlanner)

def column (column : ColumnRef) : Option PlannedColumn :=
  if column.attno - 1 < 0 then none else (planner.columns[(column.attno - 1).toNat]?).join

def columnComparison (slots : ℕ → RuntimeValueSpec) (operator : PgComparisonOp)
    (column : ColumnRef) (value : ℕ) (mirrored : Bool) : Option PlannedNode := do
  let (valueType, comparison) ←
    ValueType.forComparison planner.catalog column (slots value) operator planner.utf8
  let planned ← planner.column column
  some (.comparison (if mirrored then comparison.mirrored else comparison) planned value valueType)

mutual

/-- Boolean tests are null-safe, unlike the strict comparisons here; they and the
other leaves without an Arrow counterpart stay with PostgreSQL. -/
def planNode (slots : ℕ → RuntimeValueSpec) :
    PredicateExpr ScalarExpr PgComparisonOp → Option PlannedNode
  | .comparison operator (.column column) (.value value) =>
    planner.columnComparison slots operator column value false
  | .comparison operator (.value value) (.column column) =>
    planner.columnComparison slots operator column value true
  | .isNull (.column column) => (planner.column column).map .isNull
  | .isNotNull (.column column) => (planner.column column).map .isNotNull
  | .and children => (planChildren slots children).bind fun planned =>
      if planned.isEmpty then none else some (.and planned)
  | .or children => (planChildren slots children).bind fun planned =>
      if planned.isEmpty then none else some (.or planned)
  | .not child => (planNode slots child).map .not
  | _ => none

def planChildren (slots : ℕ → RuntimeValueSpec) :
    List (PredicateExpr ScalarExpr PgComparisonOp) → Option (List PlannedNode)
  | [] => some []
  | child :: rest => (planNode slots child).bind fun planned =>
      (planChildren slots rest).map (planned :: ·)

end

end ParquetFilterPlanner

/-! ## Binding -/

inductive BoundValue where
  | bool (value : Bool)
  | i16 (value : ℤ)
  | i32 (value : ℤ)
  | i64 (value : ℤ)
  | string (bytes : Bytes)
  | decimal128 (coefficient : ℤ) (semantics : Decimal128NumericCodec)
  deriving DecidableEq

inductive DecodedValue where
  | scalar (value : BoundValue)
  | outsideFinite (value : Decimal128ComparisonValue)
  deriving DecidableEq

inductive BoundNode where
  | comparison (operator : ComparisonOperator) (column : PlannedColumn) (value : BoundValue)
  | isNull (column : PlannedColumn)
  | isNotNull (column : PlannedColumn)
  | and (children : List BoundNode)
  | or (children : List BoundNode)
  | neverTrue

namespace ValueType

/-- The catalog type a slot must have to be read as the planned type. -/
def readsOid : ValueType → TypeOid → Bool
  | .bool, .bool | .i16, .int2 | .i32, .int4 | .i64, .int8 | .string, .text | .string, .varchar
  | .decimal128 _, .numeric => true
  | _, _ => false

def decodedDecimal (semantics : Decimal128NumericCodec) :
    Decimal128ComparisonValue → DecodedValue
  | .finite coefficient => .scalar (.decimal128 coefficient semantics)
  | special => .outsideFinite special

def decode (valueType : ValueType) (typeOid : TypeOid) (datum : RuntimeDatum) :
    Except ConnectorError DecodedValue :=
  if valueType.readsOid typeOid = false then .error .invalidFilterPlan
  else
    match valueType, datum with
    | .bool, .scalar (.boolean value) => .ok (.scalar (.bool value))
    | .i16, .scalar (.integral value) => .ok (.scalar (.i16 value))
    | .i32, .scalar (.integral value) => .ok (.scalar (.i32 value))
    | .i64, .scalar (.integral value) => .ok (.scalar (.i64 value))
    | .string, .scalar (.text bytes) => .ok (.scalar (.string bytes))
    | .decimal128 semantics, .scalar (.numeric numeric) =>
      match semantics.encodeComparisonDatum numeric with
      | .ok value => .ok (decodedDecimal semantics value)
      | .error error => .error (.decimal error)
    | _, _ => .error (.invalidFilterDatum typeOid)

end ValueType

namespace PlannedNode

variable (operator : ComparisonOperator)

/-- A special NUMERIC has one answer on every value a decimal column stores. -/
def bindDecoded (column : PlannedColumn) :
    DecodedValue → Except ConnectorError BoundNode
  | .scalar value => .ok (.comparison operator column value)
  | .outsideFinite special =>
    match matchesFiniteColumn special operator.kind with
    | some true => .ok (.isNotNull column)
    | some false => .ok .neverTrue
    | none => .error (.panicked "outside-finite Decimal128 value")

/-- A strict comparison with NULL is never TRUE, also below NOT. -/
def bindComparison (column : PlannedColumn)
    (valueType : ValueType) (value : RuntimeValue) (negated : Bool) :
    Except ConnectorError BoundNode :=
  match value.datum with
  | none => .ok .neverTrue
  | some datum => do
    let decoded ← valueType.decode value.metadata.valueType.typeOid datum
    bindDecoded (if negated then operator.negated else operator) column decoded

mutual

def bindNegated (values : RuntimeValueBindings) :
    PlannedNode → Bool → Except ConnectorError BoundNode
  | .comparison operator column value valueType, negated =>
    bindComparison operator column valueType (values value) negated
  | .isNull column, negated => .ok (if negated then .isNotNull column else .isNull column)
  | .isNotNull column, negated => .ok (if negated then .isNull column else .isNotNull column)
  | .and children, negated =>
    (bindChildren values children negated).map fun bound =>
      if negated then .or bound else .and bound
  | .or children, negated =>
    (bindChildren values children negated).map fun bound =>
      if negated then .and bound else .or bound
  | .not child, negated => bindNegated values child !negated

def bindChildren (values : RuntimeValueBindings) :
    List PlannedNode → Bool → Except ConnectorError (List BoundNode)
  | [], _ => .ok []
  | child :: rest, negated => do
    let bound ← bindNegated values child negated
    let others ← bindChildren values rest negated
    pure (bound :: others)

end

def bind (node : PlannedNode) (values : RuntimeValueBindings) : Except ConnectorError BoundNode :=
  node.bindNegated values false

end PlannedNode

/-! ## The row filter -/

/-- The value as a scalar of the column's own Arrow type. -/
def BoundValue.scalar (value : BoundValue) (dataType : DataType) :
    Except ConnectorError ArrowValue :=
  match value, dataType with
  | .bool value, .boolean => .ok (.boolean value)
  | .i16 value, .int16 => .ok (.int16 value)
  | .i32 value, .int32 => .ok (.int32 value)
  | .i64 value, .int64 => .ok (.int64 value)
  | .string bytes, .utf8 => .ok (.utf8 bytes)
  | .string bytes, .largeUtf8 => .ok (.largeUtf8 bytes)
  | .decimal128 coefficient semantics, .decimal128 precision scale =>
    if precision = semantics.precision ∧ scale = semantics.scale then
      .ok (.decimal128 coefficient precision scale)
    else
      .error (.invalidObjectSchema
        ("a pushed predicate value is incompatible with Parquet type " ++ reprStr dataType))
  | _, _ =>
    .error (.invalidObjectSchema
      ("a pushed predicate value is incompatible with Parquet type " ++ reprStr dataType))

def Schema.columnRoot (schema : Schema) (column : PlannedColumn) : Except ConnectorError ℕ :=
  match schema.indexOf column.name with
  | some root => .ok root
  | none => .error (.invalidObjectSchema
      ("filter column " ++ column.name.quote ++ " is missing from the Parquet schema"))

inductive ExecutableNode where
  | comparison (operator : ComparisonOperator) (column : ℕ) (scalar : ArrowValue)
  | isNull (column : ℕ)
  | isNotNull (column : ℕ)
  | and (children : List ExecutableNode)
  | or (children : List ExecutableNode)
  | neverTrue

namespace BoundNode

mutual

def collectRoots (schema : Schema) : BoundNode → Except ConnectorError (List ℕ)
  | .comparison _ column _ | .isNull column | .isNotNull column =>
    (schema.columnRoot column).map fun root => [root]
  | .and children | .or children => collectAll schema children
  | .neverTrue => .ok []

def collectAll (schema : Schema) : List BoundNode → Except ConnectorError (List ℕ)
  | [] => .ok []
  | child :: rest => do
    let roots ← collectRoots schema child
    let others ← collectAll schema rest
    pure (roots ++ others)

end

/-- A column's root field and its place among the projected roots. -/
def columnIndex (schema : Schema) (roots : List ℕ) (column : PlannedColumn) :
    Except ConnectorError (ℕ × ℕ) := do
  let root ← schema.columnRoot column
  match roots.idxOf? root with
  | some batch => pure (root, batch)
  | none => .error .invalidFilterPlan

def fieldType (schema : Schema) (root : ℕ) : DataType :=
  ((schema[root]?).map ArrowField.dataType).getD .other

mutual

def bindSchema (schema : Schema) (roots : List ℕ) :
    BoundNode → Except ConnectorError ExecutableNode
  | .comparison operator column value => do
    let (root, batch) ← columnIndex schema roots column
    let scalar ← value.scalar (fieldType schema root)
    pure (.comparison operator batch scalar)
  | .isNull column => (columnIndex schema roots column).map fun index => .isNull index.2
  | .isNotNull column => (columnIndex schema roots column).map fun index => .isNotNull index.2
  | .and children => (bindSchemaAll schema roots children).map .and
  | .or children => (bindSchemaAll schema roots children).map .or
  | .neverTrue => .ok .neverTrue

def bindSchemaAll (schema : Schema) (roots : List ℕ) :
    List BoundNode → Except ConnectorError (List ExecutableNode)
  | [] => .ok []
  | child :: rest => do
    let executable ← bindSchema schema roots child
    let others ← bindSchemaAll schema roots rest
    pure (executable :: others)

end

end BoundNode

def batchColumn (batch : Row) (column : ℕ) : Except ConnectorError (Option ArrowValue) :=
  match batch[column]? with
  | some cell => .ok cell
  | none => .error (.panicked "batch column out of bounds")

def ComparisonOperator.evaluate (kernel : ArrowKernel) (operator : ComparisonOperator)
    (cell : Option ArrowValue) (scalar : ArrowValue) : Except ConnectorError Truth :=
  match cell with
  | none => .ok none
  | some value =>
    match kernel value scalar with
    | some order => .ok (some (operator.kind.holds order))
    | none => .error (.arrow "Invalid comparison operation")

namespace ExecutableNode

variable (kernel : ArrowKernel)

mutual

/-- The kernels work row by row; this is their answer on one row of the batch. -/
def evaluate (batch : Row) : ExecutableNode → Except ConnectorError Truth
  | .comparison operator column scalar => do
    let cell ← batchColumn batch column
    ComparisonOperator.evaluate kernel operator cell scalar
  | .isNull column => (batchColumn batch column).map fun cell => some cell.isNone
  | .isNotNull column => (batchColumn batch column).map fun cell => some cell.isSome
  | .and [] | .or [] => .error (.panicked "planned logical Parquet filters are non-empty")
  | .and (first :: rest) => do
    let start ← evaluate batch first
    evaluateChildren batch Truth.and start rest
  | .or (first :: rest) => do
    let start ← evaluate batch first
    evaluateChildren batch Truth.or start rest
  | .neverTrue => .ok none

def evaluateChildren (batch : Row) (combine : Truth → Truth → Truth) (result : Truth) :
    List ExecutableNode → Except ConnectorError Truth
  | [] => .ok result
  | child :: rest => do
    let answer ← evaluate batch child
    evaluateChildren batch combine (combine result answer) rest

end

end ExecutableNode

structure ArrowPredicate where
  projection : List ℕ
  executable : ExecutableNode

/-- One filter stands for itself; several are joined by AND. -/
def combined {N : Type} (join : List N → N) : List N → N
  | [node] => node
  | nodes => join nodes

def arrowPredicate (filters : List BoundNode) (schema : Schema) :
    Except ConnectorError ArrowPredicate := do
  let collected ← BoundNode.collectAll schema filters
  let roots := (collected.insertionSort (· ≤ ·)).dedup
  let executable ← BoundNode.bindSchemaAll schema roots filters
  pure ⟨roots, combined .and executable⟩

def ArrowPredicate.evaluate (predicate : ArrowPredicate) (kernel : ArrowKernel) (row : Row) :
    Except ConnectorError Truth :=
  predicate.executable.evaluate kernel (predicate.projection.map fun root => (row[root]?).join)

/-! ## Row group statistics -/

structure ValueStatistics (α : Type) where
  min : Option α
  max : Option α
  minIsExact : Bool
  maxIsExact : Bool
  nullCount : Option ℕ

/-- By physical type; the types no bound value is compared with are `other`. -/
inductive Statistics where
  | boolean (typed : ValueStatistics Bool)
  | int32 (typed : ValueStatistics ℤ)
  | int64 (typed : ValueStatistics ℤ)
  | byteArray (typed : ValueStatistics Bytes)
  | other (nullCount : Option ℕ)

def Statistics.nullCountOpt : Statistics → Option ℕ
  | .boolean typed => typed.nullCount
  | .int32 typed => typed.nullCount
  | .int64 typed => typed.nullCount
  | .byteArray typed => typed.nullCount
  | .other nullCount => nullCount

structure RowGroupMetaData where
  numRows : ℤ
  /-- Statistics by leaf column. -/
  columns : List (Option Statistics)

/-- The file's own schema: which roots are primitive, and the root of each leaf. -/
structure SchemaDescriptor where
  isPrimitive : List Bool
  columnRoots : List ℕ

structure RangeOrdering where
  min : Option Ordering
  max : Option Ordering
  deriving DecidableEq

def RangeOrdering.unknown : RangeOrdering := ⟨none, none⟩

/-- The position of exact bounds relative to a value. -/
def ValueStatistics.range {α : Type} (typed : ValueStatistics α) (order : α → Ordering) :
    RangeOrdering where
  min := if typed.minIsExact then typed.min.map order else none
  max := if typed.maxIsExact then typed.max.map order else none

def ComparisonOperator.mightMatch (operator : ComparisonOperator) (range : RangeOrdering) : Bool :=
  match operator with
  | .eq => range.min != some .gt && range.max != some .lt
  | .notEq => true
  | .lt => range.min != some .eq && range.min != some .gt
  | .le => range.min != some .gt
  | .gt => range.max != some .eq && range.max != some .lt
  | .ge => range.max != some .lt

/-- A signed 16-bit integer has 32-bit statistics. -/
def BoundValue.rowGroupRange : BoundValue → Statistics → RangeOrdering
  | .bool value, .boolean typed => typed.range fun bound => compare bound value
  | .i16 value, .int32 typed => typed.range fun bound => compare bound value
  | .i32 value, .int32 typed => typed.range fun bound => compare bound value
  | .i64 value, .int64 typed => typed.range fun bound => compare bound value
  | .string bytes, .byteArray typed => typed.range fun bound => byteOrder bound bytes
  | _, _ => .unknown

/-- `u64::try_from(row_group.num_rows()).ok()`. -/
def RowGroupMetaData.rowCount (rowGroup : RowGroupMetaData) : Option ℕ :=
  if rowGroup.numRows < 0 then none else some rowGroup.numRows.toNat

structure PruningColumn where
  leaf : ℕ
  deriving DecidableEq

namespace PruningColumn

/-- No leaf stands for a nested root. -/
def bind (column : PlannedColumn) (parquetSchema : SchemaDescriptor) (schema : Schema) :
    Except ConnectorError (Option PruningColumn) := do
  let root ← schema.columnRoot column
  match parquetSchema.isPrimitive[root]? with
  | none => .error (.invalidObjectSchema "Arrow and Parquet root schemas are inconsistent")
  | some false => pure none
  | some true =>
    match parquetSchema.columnRoots.idxOf? root with
    | some leaf => pure (some ⟨leaf⟩)
    | none => .error (.invalidObjectSchema
        ("filter column " ++ column.name.quote ++ " has no Parquet leaf column"))

variable (column : PruningColumn)

def statistics (rowGroup : RowGroupMetaData) : Option Statistics :=
  (rowGroup.columns[column.leaf]?).join

def comparisonMightMatch (rowGroup : RowGroupMetaData)
    (operator : ComparisonOperator) (value : BoundValue) : Bool :=
  match column.statistics rowGroup with
  | none => true
  | some statistics =>
    if statistics.nullCountOpt = rowGroup.rowCount then false
    else ComparisonOperator.mightMatch operator (value.rowGroupRange statistics)

def nullsMightMatch (rowGroup : RowGroupMetaData) (wantNull : Bool) :
    Bool :=
  match column.statistics rowGroup with
  | none => true
  | some statistics =>
    match statistics.nullCountOpt with
    | none => true
    | some nulls =>
      if wantNull then nulls != 0
      else some nulls != rowGroup.rowCount

end PruningColumn

inductive PruningNode where
  | comparison (operator : ComparisonOperator) (column : PruningColumn) (value : BoundValue)
  | isNull (column : PruningColumn)
  | isNotNull (column : PruningColumn)
  | and (children : List PruningNode)
  | or (children : List PruningNode)
  | neverTrue
  | unprunable

namespace PruningNode

/-- A leaf over a column with a leaf of its own, and no pruning otherwise. -/
def bindColumn (column : PlannedColumn) (parquetSchema : SchemaDescriptor) (schema : Schema)
    (prune : PruningColumn → PruningNode) : Except ConnectorError PruningNode :=
  (PruningColumn.bind column parquetSchema schema).map fun bound =>
    match bound with
    | some column => prune column
    | none => .unprunable

mutual

def bind (parquetSchema : SchemaDescriptor) (schema : Schema) :
    BoundNode → Except ConnectorError PruningNode
  | .comparison operator column value =>
    bindColumn column parquetSchema schema fun column => .comparison operator column value
  | .isNull column => bindColumn column parquetSchema schema .isNull
  | .isNotNull column => bindColumn column parquetSchema schema .isNotNull
  | .and children => (bindAll parquetSchema schema children).map .and
  | .or children => (bindAll parquetSchema schema children).map .or
  | .neverTrue => .ok .neverTrue

def bindAll (parquetSchema : SchemaDescriptor) (schema : Schema) :
    List BoundNode → Except ConnectorError (List PruningNode)
  | [] => .ok []
  | child :: rest => do
    let pruning ← bind parquetSchema schema child
    let others ← bindAll parquetSchema schema rest
    pure (pruning :: others)

end

mutual

def rowGroupMightMatch (rowGroup : RowGroupMetaData) : PruningNode → Bool
  | .comparison operator column value => column.comparisonMightMatch rowGroup operator value
  | .isNull column => column.nullsMightMatch rowGroup true
  | .isNotNull column => column.nullsMightMatch rowGroup false
  | .and children => allMightMatch rowGroup children
  | .or children => anyMightMatch rowGroup children
  | .neverTrue => false
  | .unprunable => true

def allMightMatch (rowGroup : RowGroupMetaData) : List PruningNode → Bool
  | [] => true
  | child :: rest => rowGroupMightMatch rowGroup child && allMightMatch rowGroup rest

def anyMightMatch (rowGroup : RowGroupMetaData) : List PruningNode → Bool
  | [] => false
  | child :: rest => rowGroupMightMatch rowGroup child || anyMightMatch rowGroup rest

end

end PruningNode

/-! ## One file -/

structure ParquetFilePredicate where
  rowFilter : ArrowPredicate
  pruning : PruningNode

namespace ParquetFilePredicate

def tryNew (filters : List BoundNode) (parquetSchema : SchemaDescriptor) (schema : Schema) :
    Except ConnectorError ParquetFilePredicate := do
  let exact ← arrowPredicate filters schema
  let roots ← PruningNode.bindAll parquetSchema schema filters
  pure ⟨exact, combined .and roots⟩

def selectedRowGroups (predicate : ParquetFilePredicate) (rowGroups : List RowGroupMetaData) :
    List ℕ :=
  (rowGroups.zipIdx.filter fun (rowGroup, _) =>
    decide (0 < rowGroup.numRows) && predicate.pruning.rowGroupMightMatch rowGroup).map Prod.snd

end ParquetFilePredicate

end LagoDB.Parquet
