import LagoDB.PlannedFilter

/-!
# Runtime table-scan predicates

DataFusion hands a running scan concrete predicates: columns by their position in
the bound projection, literals by value. The planner turns them into native
predicates once the Arrow field of the column and the literal agree. An integer
column may be compared in a wider type, and then the literal can lie outside what
the column stores.

A native NOT reaches the row filter as the opposite leaf operators, so a
comparison and its complement both reject NULL.
-/
namespace LagoDB.RuntimePredicates

open Pushdown Iceberg

/-! ## Predicates -/

inductive RuntimeComparisonOperator where
  | equal
  | notEqual
  | lessThan
  | lessThanOrEqual
  | greaterThan
  | greaterThanOrEqual
  deriving DecidableEq

inductive RuntimeIntegerWidening where
  | toInt32
  | toInt64
  deriving DecidableEq

inductive RuntimePredicateValue where
  | boolean (value : Bool)
  | int32 (value : ℤ)
  | int64 (value : ℤ)
  | date32 (days : ℤ)
  | timestampMicrosecond (micros : ℤ)
  | timestampTzMicrosecond (micros : ℤ)
  | decimal128 (coefficient : ℤ) (precision : ℕ) (scale : ℤ)
  | string (bytes : Bytes)
  | binary (bytes : Bytes)
  deriving DecidableEq

inductive RuntimePredicateScalar where
  | column (column : ℕ)
  | widenedIntegerColumn (column : ℕ) (target : RuntimeIntegerWidening)
  | value (value : RuntimePredicateValue)
  deriving DecidableEq

abbrev RuntimePruningPredicate := PredicateExpr RuntimePredicateScalar RuntimeComparisonOperator

/-- What DataFusion compares; dates and timestamps in PostgreSQL's epoch. -/
def RuntimePredicateValue.toSql : RuntimePredicateValue → SqlValue
  | .boolean value => .boolean value
  | .int32 value => .integral value
  | .int64 value => .integral value
  | .date32 days => .integral (days - pgEpochDaysDiff)
  | .timestampMicrosecond micros => .integral (micros - pgEpochUsecsDiff)
  | .timestampTzMicrosecond micros => .integral (micros - pgEpochUsecsDiff)
  | .decimal128 coefficient _ scale => .number (.finite (coefficient / 10 ^ scale))
  | .string bytes => .text bytes
  | .binary bytes => .binary bytes

/-! ## The Arrow schema -/

inductive TimeUnit where
  | second
  | millisecond
  | microsecond
  | nanosecond
  deriving DecidableEq, Repr

inductive DataType where
  | boolean
  | int8
  | int16
  | int32
  | int64
  | float32
  | float64
  | date32
  | time64 (unit : TimeUnit)
  | timestamp (unit : TimeUnit) (timezone : Option String)
  | decimal128 (precision : ℕ) (scale : ℤ)
  | utf8
  | utf8View
  | largeUtf8
  | binary
  | largeBinary
  | binaryView
  | fixedSizeBinary (width : ℕ)
  | other
  deriving DecidableEq, Repr

structure ArrowField where
  name : String
  dataType : DataType
  extensionTypeName : Option String
  deriving DecidableEq

def arrowUuid : String := "arrow.uuid"

/-- The stored values an Arrow field is built for by the schema conversion. -/
def ArrowField.Carries (field : ArrowField) (stored : Datum) : Prop :=
  match field.dataType with
  | .boolean => stored.type = .boolean
  | .int8 | .int16 | .int32 => stored.type = .int ∧ stored.inRange
  | .int64 => stored.type = .long
  | .float32 => stored.type = .float
  | .float64 => stored.type = .double
  | .date32 => stored.type = .date
  | .time64 _ => stored.type = .time
  | .timestamp .microsecond none => stored.type = .timestamp
  | .timestamp .microsecond (some _) => stored.type = .timestamptz
  | .timestamp _ _ => True
  | .decimal128 precision scale => stored.type = .decimal precision scale.toNat
  | .utf8 | .utf8View | .largeUtf8 => stored.type = .string
  | .binary | .largeBinary | .binaryView => stored.type = .binary
  | .fixedSizeBinary width =>
    if field.extensionTypeName = some arrowUuid then stored.type = .uuid
    else stored.type = .fixed width
  | .other => True

inductive IcebergError where
  | invariantViolated (message : String)
  | icebergLite (message : String)
  deriving DecidableEq

structure IcebergPredicatePlanner where
  arrowSchema : List ArrowField
  fieldIds : List ℤ
  api : PredicateApi
  /-- `Datum::decimal_from_unscaled` of iceberg-lite. -/
  decimalFromUnscaled : ℤ → ℕ → ℕ → Except IcebergError Datum

namespace IcebergPredicatePlanner

open PredicatePushdownPolicy RuntimeComparisonOperator

/-! ## Tables -/

variable (capability : SupportedPredicateCapability)

def accepted (predicate : Predicate) :
    PredicatePlan Predicate :=
  match capability with
  | .exact => .exact predicate
  | .conservative => .conservative predicate

def acceptedWithoutComplement
    (predicate : Predicate) : PredicatePlan Predicate :=
  match capability with
  | .exact => .exactNoComplement predicate
  | .conservative => .conservative predicate

def valueKind : RuntimePredicateValue → PredicateValueKind
  | .boolean _ => .boolean
  | .int32 _ => .integer
  | .int64 _ => .long
  | .date32 _ => .date
  | .timestampMicrosecond _ => .timestamp
  | .timestampTzMicrosecond _ => .timestamptz
  | .decimal128 _ _ _ => .decimal
  | .string _ => .string
  | .binary _ => .binary

def operatorClass : RuntimeComparisonOperator → PgComparisonKind
  | equal => .equal
  | notEqual => .notEqual
  | lessThan => .less
  | lessThanOrEqual => .lessEqual
  | greaterThan => .greater
  | greaterThanOrEqual => .greaterEqual

def predicateOperator : RuntimeComparisonOperator → BinaryOperator
  | equal => .eq
  | notEqual => .notEq
  | lessThan => .lessThan
  | lessThanOrEqual => .lessThanOrEq
  | greaterThan => .greaterThan
  | greaterThanOrEqual => .greaterThanOrEq

def mirrorOperator : RuntimeComparisonOperator → RuntimeComparisonOperator
  | equal => equal
  | notEqual => notEqual
  | lessThan => greaterThan
  | lessThanOrEqual => greaterThanOrEqual
  | greaterThan => lessThan
  | greaterThanOrEqual => lessThanOrEqual

/-- Null tests inspect validity only, so every kind has them. -/
def supportsNullTest : PredicateValueKind → Bool
  | _ => true

variable (kind : PredicateValueKind)

def supportsNanTest : Bool := kind == .float

def supportsStartsWith : Bool := kind == .string

def dataTypeKind : DataType → Option PredicateValueKind
  | .boolean => some .boolean
  | .int8 | .int16 | .int32 => some .integer
  | .int64 => some .long
  | .date32 => some .date
  | .time64 .microsecond => some .time
  | .binary | .largeBinary | .binaryView | .fixedSizeBinary _ => some .binary
  | .timestamp .microsecond timezone =>
    some (if timezone.isSome then .timestamptz else .timestamp)
  | .decimal128 _ _ => some .decimal
  | .float32 | .float64 => some .float
  | .utf8 | .utf8View | .largeUtf8 => some .string
  | _ => none

def decimalShape : DataType → RuntimePredicateValue → Bool
  | .decimal128 columnPrecision columnScale, .decimal128 _ precision scale =>
    columnPrecision == precision && columnScale == scale
  | .decimal128 _ _, _ => false
  | _, .decimal128 _ _ _ => false
  | _, _ => true

/-! ## Planning -/

variable (planner : IcebergPredicatePlanner) (column : ℕ)

def columnKind : Option PredicateValueKind := do
  let field ← planner.arrowSchema[column]?
  dataTypeKind field.dataType

def decimalShapeMatches (value : RuntimePredicateValue) : Bool :=
  (planner.arrowSchema[column]?).any fun field => decimalShape field.dataType value

def reference : Except IcebergError PlannedIcebergColumn :=
  match planner.fieldIds[column]?, planner.arrowSchema[column]? with
  | none, _ =>
    .error (.invariantViolated "table-scan predicate column exceeds the bound projection")
  | _, none =>
    .error (.invariantViolated "table-scan predicate column exceeds the bound Arrow schema")
  | some fieldId, some field => .ok ⟨fieldId, field.name⟩

def datum : RuntimePredicateValue → Except IcebergError Datum
  | .boolean value => .ok (.bool value)
  | .int32 value => .ok (.int value)
  | .int64 value => .ok (.long value)
  | .date32 days => .ok (.date days)
  | .timestampMicrosecond micros => .ok (.timestamp micros)
  | .timestampTzMicrosecond micros => .ok (.timestamptz micros)
  | .decimal128 coefficient precision scale =>
    if scale < 0 then
      .error (.invariantViolated "table-scan decimal predicate has a negative scale")
    else planner.decimalFromUnscaled coefficient precision scale.toNat
  | .string bytes => .ok (.string bytes)
  | .binary bytes => .ok (.binary bytes)

/-- A binary literal takes the storage type of its column. -/
def comparisonDatum (value : RuntimePredicateValue) :
    Except IcebergError (Option Datum) :=
  match planner.arrowSchema[column]?, value with
  | some field, .binary bytes =>
    match field.dataType with
    | .fixedSizeBinary width =>
      if bytes.length = width then
        if field.extensionTypeName = some arrowUuid then
          if bytes.length = 16 then .ok (some (.uuid bytes))
          else .error (.invariantViolated "UUID field has width 16")
        else .ok (some (.fixed bytes))
      else .ok none
    | .binary | .largeBinary | .binaryView => .ok (some (.binary bytes))
    | _ => .ok none
  | _, value => (planner.datum value).map some

def supportsIntegerWidening (widening : RuntimeIntegerWidening) : Bool :=
  match planner.arrowSchema[column]? with
  | none => false
  | some field =>
    match field.dataType, widening with
    | .int16, _ => true
    | .int32, .toInt64 => true
    | _, _ => false

/-- The predicate of a widened comparison and whether it may be complemented. -/
def widenedPredicate (widening : RuntimeIntegerWidening)
    (operator : RuntimeComparisonOperator) (value : RuntimePredicateValue) :
    Except IcebergError (Option (Predicate × Bool)) :=
  match widening, value with
  | .toInt32, .int32 value => (planner.reference column).map fun builder =>
      some (builder.comparison (predicateOperator operator) (.int value), true)
  | .toInt64, .int64 value =>
    match Int32OutOfRange.narrow value with
    | .ok value => (planner.reference column).map fun builder =>
        some (builder.comparison (predicateOperator operator) (.int value), true)
    | .error boundary =>
      if boundary.comparisonMatchesNonNull (operatorClass operator) then
        (planner.reference column).map fun builder => some (builder.nullTest true, false)
      else .ok (some (.alwaysFalse, false))
  | _, _ => .ok none

def widenedIntegerComparison (widening : RuntimeIntegerWidening)
    (operator : RuntimeComparisonOperator) (value : RuntimePredicateValue) :
    Except IcebergError (PredicatePlan Predicate) :=
  if planner.supportsIntegerWidening column widening then
    match comparisonCapability .integer (operatorClass operator) with
    | none => .ok .unsupported
    | some capability => (planner.widenedPredicate column widening operator value).map fun
      | none => .unsupported
      | some (predicate, complementable) =>
        if complementable then accepted capability predicate
        else acceptedWithoutComplement capability predicate
  else .ok .unsupported

def columnComparison (operator : RuntimeComparisonOperator)
    (value : RuntimePredicateValue) : Except IcebergError (PredicatePlan Predicate) :=
  match planner.columnKind column with
  | none => .ok .unsupported
  | some columnKind =>
    if columnKind ≠ valueKind value ∨ planner.decimalShapeMatches column value = false then
      .ok .unsupported
    else
      match comparisonCapability columnKind (operatorClass operator) with
      | none => .ok .unsupported
      | some capability => do
        match ← planner.comparisonDatum column value with
        | none => pure .unsupported
        | some datum =>
          let builder ← planner.reference column
          pure (accepted capability (builder.comparison (predicateOperator operator) datum))

def comparison (operator : RuntimeComparisonOperator) :
    RuntimePredicateScalar → RuntimePredicateScalar →
      Except IcebergError (PredicatePlan Predicate)
  | .column column, .value value => planner.columnComparison column operator value
  | .widenedIntegerColumn column target, .value value =>
    planner.widenedIntegerComparison column target operator value
  | .value value, .column column =>
    planner.columnComparison column (mirrorOperator operator) value
  | .value value, .widenedIntegerColumn column target =>
    planner.widenedIntegerComparison column target (mirrorOperator operator) value
  | _, _ => .ok .unsupported

variable (value : RuntimePredicateScalar)

/-- A leaf over one plain column of a supported kind. -/
def columnTest (supports : PredicateValueKind → Bool)
    (plan : PlannedIcebergColumn → PredicatePlan Predicate) :
    Except IcebergError (PredicatePlan Predicate) :=
  match value with
  | .column column =>
    if (planner.columnKind column).any supports then (planner.reference column).map plan
    else .ok .unsupported
  | _ => .ok .unsupported

def nullTest (value : RuntimePredicateScalar) (isNotNull : Bool) :
    Except IcebergError (PredicatePlan Predicate) :=
  planner.columnTest value supportsNullTest fun builder => .exact (builder.nullTest isNotNull)

/-- Neither complement of a NaN test respects NULL. -/
def nanTest (value : RuntimePredicateScalar) (isNotNan : Bool) :
    Except IcebergError (PredicatePlan Predicate) :=
  planner.columnTest value supportsNanTest fun builder =>
    .exactNoComplement (builder.nanTest planner.api isNotNan)

def startsWith (value pre : RuntimePredicateScalar) :
    Except IcebergError (PredicatePlan Predicate) :=
  match value, pre with
  | .column column, .value pre =>
    if (planner.columnKind column).any supportsStartsWith ∧ valueKind pre = .string then do
      let builder ← planner.reference column
      let datum ← planner.datum pre
      pure (.exactNoComplement (builder.startsWith datum))
    else .ok .unsupported
  | _, _ => .ok .unsupported

def strictTrue : Except IcebergError (PredicatePlan Predicate) :=
  planner.columnTest value supportsNullTest fun builder =>
    .exactNoComplement (builder.nullTest true)

/-- The kind of the column is not asked for: no row is selected. -/
def strictFalse : Except IcebergError (PredicatePlan Predicate) :=
  match value with
  | .column column => (planner.reference column).map fun _ => .exactNoComplement .alwaysFalse
  | _ => .ok .unsupported

def booleanTest (kind : BooleanTestKind) (value : RuntimePredicateScalar) :
    Except IcebergError (PredicatePlan Predicate) :=
  planner.columnTest value (· == .boolean) fun builder =>
    .exactNoComplement (builder.booleanTest planner.api kind)

/-- `reduce` over the accepted children, of which the walk never passes none. -/
def reduce (combine : Predicate → Predicate → Predicate) (empty : Predicate) :
    List Predicate → Predicate
  | [] => empty
  | first :: rest => rest.foldl combine first

def adapter :
    PredicatePlanner RuntimePredicateScalar RuntimeComparisonOperator Predicate IcebergError where
  alwaysTrue := .ok (.exact .alwaysTrue)
  alwaysFalse := .ok (.exact .alwaysFalse)
  strictTrue := planner.strictTrue
  strictFalse := planner.strictFalse
  comparison := planner.comparison
  booleanTest := planner.booleanTest
  isNull value := planner.nullTest value false
  isNotNull value := planner.nullTest value true
  isNan value := planner.nanTest value false
  isNotNan value := planner.nanTest value true
  startsWith := planner.startsWith
  inSet _ _ _ := .ok .unsupported
  conjunction := reduce planner.api.and .alwaysTrue
  disjunction := reduce planner.api.or .alwaysFalse
  negate := planner.api.not

def plan (predicate : RuntimePruningPredicate) : Except IcebergError (PredicatePlan Predicate) :=
  predicate.planWith planner.adapter

end IcebergPredicatePlanner

end LagoDB.RuntimePredicates
