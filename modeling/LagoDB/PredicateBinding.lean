import LagoDB.IcebergPredicate

/-!
# Binding planned predicates

A planned tree keeps NOT as a node. Binding carries negation down to the leaves,
so a native predicate is never complemented: AND and OR swap, comparisons turn
into the opposite comparison, and a NULL slot fails under either polarity.
-/
namespace LagoDB.Iceberg

open NumericCodec Pushdown

/-! ## Planned trees -/

inductive TimestampPrecision where
  | microseconds
  | nanoseconds
  deriving DecidableEq

inductive PlannedValueType where
  | boolean
  | uuid
  | binary
  | fixedBinary (width : ℕ)
  | int2ToLong
  | int4ToLong
  | int2
  | int4
  | int8
  | date
  | timestamp (precision : TimestampPrecision)
  | timestamptz (precision : TimestampPrecision)
  | string
  | decimal128 (semantics : Decimal128NumericCodec)
  | int8ToInt
  deriving DecidableEq

inductive PlannedComparisonOperator where
  | eq
  | notEq
  | lt
  | le
  | gt
  | ge
  deriving DecidableEq

namespace PlannedComparisonOperator

def kind : PlannedComparisonOperator → PgComparisonKind
  | .eq => .equal
  | .notEq => .notEqual
  | .lt => .less
  | .le => .lessEqual
  | .gt => .greater
  | .ge => .greaterEqual

def mirrored : PlannedComparisonOperator → PlannedComparisonOperator
  | .lt => .gt
  | .le => .ge
  | .gt => .lt
  | .ge => .le
  | .eq => .eq
  | .notEq => .notEq

def negated : PlannedComparisonOperator → PlannedComparisonOperator
  | .eq => .notEq
  | .notEq => .eq
  | .lt => .ge
  | .le => .gt
  | .gt => .le
  | .ge => .lt

def toBinary : PlannedComparisonOperator → BinaryOperator
  | .eq => .eq
  | .notEq => .notEq
  | .lt => .lessThan
  | .le => .lessThanOrEq
  | .gt => .greaterThan
  | .ge => .greaterThanOrEq

end PlannedComparisonOperator

structure PlannedIcebergColumn where
  fieldId : ℤ
  debugName : String
  deriving DecidableEq

inductive PlannedIcebergNode where
  | alwaysTrue
  | alwaysFalse
  | comparison (operator : PlannedComparisonOperator) (column : PlannedIcebergColumn)
      (value : ℕ) (valueType : PlannedValueType)
  | booleanTest (kind : BooleanTestKind) (column : PlannedIcebergColumn)
  | isNull (column : PlannedIcebergColumn)
  | isNotNull (column : PlannedIcebergColumn)
  | isNan (column : PlannedIcebergColumn)
  | isNotNan (column : PlannedIcebergColumn)
  | startsWith (column : PlannedIcebergColumn) (pre : ℕ)
  | inSet (column : PlannedIcebergColumn) (set : ℕ) (valueType : PlannedValueType)
  | and (children : List PlannedIcebergNode)
  | or (children : List PlannedIcebergNode)
  | not (child : PlannedIcebergNode)

/-! ## Decoding slots -/

inductive IcebergFilterError where
  | columnNotFound (name : String)
  | invariantViolated (message : String)
  | datumDecode (typeOid : TypeOid)
  | decimalCodec (error : DecimalCodecError)
  deriving DecidableEq

/-- Position of an `int8` value outside Iceberg's `int` domain. -/
inductive Int32OutOfRange where
  | below
  | above
  deriving DecidableEq

namespace Int32OutOfRange

def narrow (value : ℤ) : Except Int32OutOfRange ℤ :=
  if -2 ^ 31 ≤ value ∧ value < 2 ^ 31 then .ok value
  else .error (if value < 0 then .below else .above)

def comparisonMatchesNonNull : Int32OutOfRange → PgComparisonKind → Bool
  | _, .notEqual => true
  | .above, .less | .above, .lessEqual => true
  | .below, .greater | .below, .greaterEqual => true
  | _, .equal => false
  | .above, .greater | .above, .greaterEqual => false
  | .below, .less | .below, .lessEqual => false

end Int32OutOfRange

/-- A special value against a column that stores finite values only. -/
def matchesFiniteColumn (value : Decimal128ComparisonValue) (operator : PgComparisonKind) :
    Option Bool :=
  let answer (valueIsAbove : Bool) : PgComparisonKind → Bool
    | .notEqual => true
    | .less | .lessEqual => valueIsAbove
    | .greater | .greaterEqual => !valueIsAbove
    | .equal => false
  match value with
  | .finite _ => none
  | .negativeInfinity => some (answer false operator)
  | .positiveInfinity | .nan => some (answer true operator)

/-- The result of a checked operation on signed integers of a width. -/
def checkedInt (width : ℕ) (value : ℤ) : Option ℤ :=
  if -2 ^ (width - 1) ≤ value ∧ value < 2 ^ (width - 1) then some value else none

def pgEpochDaysToUnixDays (days : ℤ) : Option ℤ := checkedInt 32 (days + pgEpochDaysDiff)

def pgEpochMicrosToUnixMicros (micros : ℤ) : Option ℤ := checkedInt 64 (micros + pgEpochUsecsDiff)

structure TimestampComparison where
  unixMicros : ℤ
  precision : TimestampPrecision
  withTimezone : Bool
  deriving DecidableEq

/-- The extreme values are PostgreSQL's infinities. -/
def TimestampComparison.fromPgMicros (pgMicros : ℤ) (precision : TimestampPrecision)
    (withTimezone : Bool) : Option TimestampComparison :=
  if pgMicros = -2 ^ 63 ∨ pgMicros = 2 ^ 63 - 1 then none
  else (pgEpochMicrosToUnixMicros pgMicros).map fun micros => ⟨micros, precision, withTimezone⟩

inductive BoundComparisonValue where
  | timestamp (value : TimestampComparison)
  | datum (value : Datum)
  | outsideFinite (value : Decimal128ComparisonValue)
  | outsideInteger (value : Int32OutOfRange)
  deriving DecidableEq

section Decode

variable (typeOid : TypeOid)

def decodeBoolean : PgDatum → Except IcebergFilterError Bool
  | .boolean value => .ok value
  | _ => .error (.datumDecode typeOid)

/-- `i16`, `i32` and `i64` slots alike: PostgreSQL keeps each in its range. -/
def decodeIntegral : PgDatum → Except IcebergFilterError ℤ
  | .integral value => .ok value
  | _ => .error (.datumDecode typeOid)

def decodeText : PgDatum → Except IcebergFilterError Bytes
  | .text bytes => .ok bytes
  | _ => .error (.datumDecode typeOid)

def decodeBinary : PgDatum → Except IcebergFilterError Bytes
  | .binary bytes => .ok bytes
  | _ => .error (.datumDecode typeOid)

def decodeNumeric : PgDatum → Except IcebergFilterError PgNumeric
  | .numeric value => .ok value
  | _ => .error (.datumDecode typeOid)

def narrowed (value : ℤ) : BoundComparisonValue :=
  match Int32OutOfRange.narrow value with
  | .ok value => .datum (.int value)
  | .error boundary => .outsideInteger boundary

/-- The extreme dates are PostgreSQL's infinities. -/
def decodedDate (days : ℤ) : Option BoundComparisonValue :=
  if days = -2 ^ 31 ∨ days = 2 ^ 31 - 1 then none
  else (pgEpochDaysToUnixDays days).map fun days => .datum (.date days)

def decodedFixed (width : ℕ) (bytes : Bytes) : Option BoundComparisonValue :=
  if bytes.length ≠ width then none else some (.datum (.fixed bytes))

def decodedDecimal (semantics : Decimal128NumericCodec) :
    Decimal128ComparisonValue → BoundComparisonValue
  | .finite coefficient => .datum (.decimal coefficient semantics.precision semantics.scale)
  | special => .outsideFinite special

/-- One non-NULL slot against a column of the planned type; `none` is a value
that Iceberg cannot represent. -/
def decodeValue (valueType : PlannedValueType) (datum : PgDatum) :
    Except IcebergFilterError (Option BoundComparisonValue) :=
  match valueType with
  | .boolean => (decodeBoolean typeOid datum).map fun value => some (.datum (.bool value))
  | .uuid => (decodeBinary typeOid datum).map fun bytes => some (.datum (.uuid bytes))
  | .binary => (decodeBinary typeOid datum).map fun bytes => some (.datum (.binary bytes))
  | .fixedBinary width => (decodeBinary typeOid datum).map (decodedFixed width)
  | .int2ToLong => (decodeIntegral typeOid datum).map fun value => some (.datum (.long value))
  | .int4ToLong => (decodeIntegral typeOid datum).map fun value => some (.datum (.long value))
  | .int2 => (decodeIntegral typeOid datum).map fun value => some (.datum (.int value))
  | .int4 => (decodeIntegral typeOid datum).map fun value => some (.datum (.int value))
  | .int8 => (decodeIntegral typeOid datum).map fun value => some (.datum (.long value))
  | .int8ToInt => (decodeIntegral typeOid datum).map fun value => some (narrowed value)
  | .date => (decodeIntegral typeOid datum).map decodedDate
  | .timestamp precision => (decodeIntegral typeOid datum).map fun micros =>
      (TimestampComparison.fromPgMicros micros precision false).map .timestamp
  | .timestamptz precision => (decodeIntegral typeOid datum).map fun micros =>
      (TimestampComparison.fromPgMicros micros precision true).map .timestamp
  | .string => (decodeText typeOid datum).map fun bytes => some (.datum (.string bytes))
  | .decimal128 semantics => do
    let numeric ← decodeNumeric typeOid datum
    match semantics.encodeComparisonDatum numeric with
    | .ok value => pure (some (decodedDecimal semantics value))
    | .error error => .error (.decimalCodec error)

end Decode

/-- A scalar slot; the planner never compares with an array. -/
def RuntimeValue.scalar (value : RuntimeValue) : Except IcebergFilterError (Option PgDatum) :=
  match value.datum with
  | none => .ok none
  | some (.scalar datum) => .ok (some datum)
  | some (.array _) => .error (.datumDecode value.metadata.valueType.typeOid)

def RuntimeValue.decode (value : RuntimeValue) (valueType : PlannedValueType) (datum : PgDatum) :
    Except IcebergFilterError (Option BoundComparisonValue) :=
  decodeValue value.metadata.valueType.typeOid valueType datum

/-! ## Leaves -/

namespace PlannedIcebergColumn

variable (column : PlannedIcebergColumn) (api : PredicateApi)

def reference : Reference := ⟨column.debugName, column.fieldId⟩

def comparison (operator : BinaryOperator) (value : Datum) : Predicate :=
  .binary operator column.reference value

def nullTest (isNotNull : Bool) : Predicate :=
  .unary (if isNotNull then .notNull else .isNull) column.reference

def nanTest (isNotNan : Bool) : Predicate :=
  let predicate := Predicate.unary (if isNotNan then .notNan else .isNan) column.reference
  if isNotNan then api.and (.unary .notNull column.reference) predicate else predicate

/-- NOT TRUE and NOT FALSE include a NULL input. -/
def booleanTest (kind : BooleanTestKind) : Predicate :=
  match kind with
  | .isTrue | .isFalse => column.comparison .eq (.bool (kind == .isTrue))
  | .isNotTrue | .isNotFalse =>
    api.or (column.nullTest false) (column.comparison .eq (.bool (kind == .isNotFalse)))
  | .isUnknown => column.nullTest false
  | .isNotUnknown => column.nullTest true

def startsWith (pre : Datum) : Predicate := .binary .startsWith column.reference pre

def inSet (literals : List Datum) : Predicate := .isIn column.reference literals

end PlannedIcebergColumn

namespace TimestampComparison

variable (value : TimestampComparison)

def nanosBoundary (upper : Bool) : Option Datum := do
  let micros ← (if upper then checkedInt 64 (value.unixMicros + 1) else some value.unixMicros)
  let nanos ← checkedInt 64 (micros * 1000)
  pure (if value.withTimezone then .timestamptzNs nanos else .timestampNs nanos)

def microsDatum : Datum :=
  if value.withTimezone then .timestamptz value.unixMicros else .timestamp value.unixMicros

/-- A PostgreSQL value `u` is the nanosecond interval `[u * 1000, (u + 1) * 1000)`. -/
def bind (api : PredicateApi) (column : PlannedIcebergColumn)
    (operator : PlannedComparisonOperator) : Option Predicate :=
  match value.precision with
  | .microseconds => some (column.comparison operator.toBinary value.microsDatum)
  | .nanoseconds =>
    match operator with
    | .eq => do
      let lower ← value.nanosBoundary false
      let upper ← value.nanosBoundary true
      pure (api.and (column.comparison .greaterThanOrEq lower) (column.comparison .lessThan upper))
    | .notEq => do
      let lower ← value.nanosBoundary false
      let upper ← value.nanosBoundary true
      pure (api.or (column.comparison .lessThan lower) (column.comparison .greaterThanOrEq upper))
    | .lt => (value.nanosBoundary false).map (column.comparison .lessThan)
    | .le => (value.nanosBoundary true).map (column.comparison .lessThan)
    | .gt => (value.nanosBoundary true).map (column.comparison .greaterThanOrEq)
    | .ge => (value.nanosBoundary false).map (column.comparison .greaterThanOrEq)

end TimestampComparison

/-! ## Binding -/

namespace IcebergFilterBinder

variable (api : PredicateApi)

/-- A column whose non-NULL values all give one answer. -/
def allOrNone (column : PlannedIcebergColumn) (nonNull : Bool) : Predicate :=
  if nonNull then column.nullTest true else .alwaysFalse

variable (operator : PlannedComparisonOperator)

def bindDecoded (column : PlannedIcebergColumn) :
    BoundComparisonValue → Option Predicate
  | .timestamp value => value.bind api column operator
  | .datum datum => some (column.comparison operator.toBinary datum)
  | .outsideFinite value => (matchesFiniteColumn value operator.kind).map (allOrNone column)
  | .outsideInteger value => some (allOrNone column (value.comparisonMatchesNonNull operator.kind))

def bindComparison (column : PlannedIcebergColumn)
    (valueType : PlannedValueType) (value : RuntimeValue) (negated : Bool) :
    Except IcebergFilterError (Option Predicate) := do
  match ← value.scalar with
  | none => pure (some .alwaysFalse)
  | some datum =>
    let decoded ← value.decode valueType datum
    pure (decoded.bind (bindDecoded api (if negated then operator.negated else operator) column))

def bindStartsWith (column : PlannedIcebergColumn) (value : RuntimeValue) (negated : Bool) :
    Except IcebergFilterError (Option Predicate) := do
  match ← value.scalar with
  | none => pure (some .alwaysFalse)
  | some datum =>
    match ← value.decode .string datum with
    | some (.datum pre) =>
      pure (some (if negated then api.not (column.startsWith pre) else column.startsWith pre))
    | _ => pure none

/-- The element loop: `none` leaves the whole set to the residual. -/
def setLiterals (element : RuntimeValueSpec) (valueType : PlannedValueType) :
    List PgDatum → List Datum → Except IcebergFilterError (Option (List Datum))
  | [], literals => .ok (some literals)
  | datum :: rest, literals => do
    match ← decodeValue element.valueType.typeOid valueType datum with
    | some (.datum literal) => setLiterals element valueType rest (literals ++ [literal])
    | some (.outsideInteger _) => setLiterals element valueType rest literals
    | _ => pure none

def bindElements (column : PlannedIcebergColumn) (valueType : PlannedValueType)
    (element : RuntimeValueSpec) (elements : List (Option PgDatum)) :
    Except IcebergFilterError (Option Predicate) := do
  match ← setLiterals element valueType elements.reduceOption [] with
  | some literals => pure (some (column.inSet literals))
  | none => pure (some .alwaysTrue)

def bindInSet (column : PlannedIcebergColumn) (valueType : PlannedValueType)
    (set : RuntimeValue) : Except IcebergFilterError (Option Predicate) :=
  match set.datum, set.metadata.arrayElement with
  | none, _ => .ok (some .alwaysFalse)
  | some (.array elements), some element => bindElements column valueType element elements
  | _, _ => .error (.datumDecode set.metadata.valueType.typeOid)

inductive LogicalKind where
  | and
  | or
  deriving DecidableEq

def LogicalKind.combine : LogicalKind → Predicate → Predicate → Predicate
  | .and => api.and
  | .or => api.or

def LogicalKind.start : LogicalKind → Predicate
  | .and => .alwaysTrue
  | .or => .alwaysFalse

variable (values : RuntimeValueBindings)

mutual

def bindNode : PlannedIcebergNode → Bool → Except IcebergFilterError (Option Predicate)
  | .alwaysTrue, negated => .ok (some (if negated then .alwaysFalse else .alwaysTrue))
  | .alwaysFalse, negated => .ok (some (if negated then .alwaysTrue else .alwaysFalse))
  | .comparison operator column value valueType, negated =>
    bindComparison api operator column valueType (values value) negated
  | .booleanTest kind column, negated =>
    .ok (some (column.booleanTest api (if negated then kind.negated else kind)))
  | .isNull column, negated => .ok (some (column.nullTest negated))
  | .isNotNull column, negated => .ok (some (column.nullTest !negated))
  | .isNan column, negated => .ok (some (column.nanTest api negated))
  | .isNotNan column, negated => .ok (some (column.nanTest api !negated))
  | .startsWith column pre, negated => bindStartsWith api column (values pre) negated
  | .inSet column set valueType, _ => bindInSet column valueType (values set)
  | .and children, negated =>
    let kind := if negated then LogicalKind.or else LogicalKind.and
    bindLogical kind negated children kind.start
  | .or children, negated =>
    let kind := if negated then LogicalKind.and else LogicalKind.or
    bindLogical kind negated children kind.start
  | .not child, negated => bindNode child !negated

/-- The loop of `bind_logical`: one child that does not bind abandons the node. -/
def bindLogical (kind : LogicalKind) (negated : Bool) :
    List PlannedIcebergNode → Predicate → Except IcebergFilterError (Option Predicate)
  | [], result => .ok (some result)
  | child :: rest, result => do
    match ← bindNode child negated with
    | none => pure none
    | some bound => bindLogical kind negated rest (kind.combine api result bound)

end

end IcebergFilterBinder

end LagoDB.Iceberg
