import LagoDB.BoundPredicate

/-!
# The Iceberg filter planner

The planner accepts a leaf when a column meets a runtime value in a shape that
native predicates can express, and says how far the plan can be trusted. Types
decide: the declared type names what is stored, the effective type what the
expression compares, and the slot's type what the binder will decode.
-/
namespace LagoDB.Iceberg

open SqlLogic NumericCodec Pushdown

/-! ## Expressions -/

structure ColumnRef where
  attno : ℤ
  declaredType : ExprType
  valueType : ExprType
  deriving DecidableEq

inductive ScalarExpr where
  | column (column : ColumnRef)
  | value (slot : ℕ)
  deriving DecidableEq

structure PgComparisonOp where
  opno : ℕ
  opfuncid : ℕ
  opresulttype : TypeOid
  opcollid : ℕ
  inputcollid : ℕ
  deriving DecidableEq

structure PgComparisonSignature where
  leftType : TypeOid
  rightType : TypeOid
  functionOid : ℕ
  kind : PgComparisonKind
  deriving DecidableEq

/-- PostgreSQL's catalogs: the comparison operators in the signature table,
collations, and the meaning of everything outside the table. -/
structure Catalog where
  forOperator : ℕ → Option PgComparisonSignature
  isDeterministic : ℕ → Bool
  isByteOrdered : ℕ → Bool
  collate : ℕ → Bytes → Bytes → Ordering
  otherOperator : ℕ → Option SqlValue → Option SqlValue → Truth
  storedMember : ℕ → Option SqlValue → Option Datum → Truth

structure Catalog.Laws (catalog : Catalog) : Prop where
  deterministic : ∀ collation, catalog.isDeterministic collation = true →
    ∀ a b, catalog.collate collation a b = .eq ↔ a = b
  byteOrdered : ∀ collation, catalog.isByteOrdered collation = true →
    catalog.collate collation = byteOrder

def Catalog.compare (catalog : Catalog) (operator : PgComparisonOp)
    (left right : Option SqlValue) : Truth :=
  match catalog.forOperator operator.opno with
  | some signature =>
    signature.kind.truth (catalog.collate operator.inputcollid) left right
  | none => catalog.otherOperator operator.opno left right

/-! ## Decimal shapes -/

/-- `(((precision as i32) << 16) | (scale & 0x7FF)) + VARHDRSZ`. -/
def numericTypmod (precision scale : ℕ) : ℤ :=
  ((precision <<< 16 ||| (scale &&& 0x7FF) : ℕ) : ℤ) + 4

def numericPrecisionScale (typmod : ℤ) : Option (ℕ × ℤ) :=
  if typmod < 4 then none
  else
    let adjusted := (typmod - 4).toNat
    some ((adjusted >>> 16) &&& 0xFFFF, (((adjusted &&& 0x7FF) ^^^ 1024 : ℕ) : ℤ) - 1024)

def decimalShape (precision : ℕ) (scale : ℤ) : Option Decimal128NumericCodec :=
  if h : 1 ≤ precision ∧ precision ≤ 38 ∧ 0 ≤ scale ∧ scale ≤ precision then
    some ⟨precision, scale.toNat, h.1, h.2.1, by omega⟩
  else none

def decimalForType (valueType : ExprType) : Option Decimal128NumericCodec :=
  if valueType.typeOid ≠ .numeric ∨ valueType.collation ≠ 0 then none
  else (numericPrecisionScale valueType.typmod).bind fun shape => decimalShape shape.1 shape.2

def decimalForStorageComparison (declared effective value : ExprType) :
    Option Decimal128NumericCodec := do
  let declared ← decimalForType declared
  let effective ← decimalForType effective
  let value ← decimalForType value
  if declared = effective ∧ effective = value then some effective else none

/-! ## Policy -/

inductive SupportedPredicateCapability where
  | exact
  | conservative
  deriving DecidableEq

structure SupportedComparison where
  operator : PgComparisonKind
  capability : SupportedPredicateCapability
  deriving DecidableEq

inductive PredicateValueKind where
  | boolean
  | integer
  | long
  | date
  | timestamp
  | timestamptz
  | decimal
  | float
  | string
  | binary
  | time
  deriving DecidableEq

namespace TypeOid

def isInteger : TypeOid → Bool
  | .int2 | .int4 | .int8 => true
  | _ => false

def isText : TypeOid → Bool
  | .text | .varchar => true
  | _ => false

/-- Types whose only admitted comparison is with themselves. -/
def isHomogeneous : TypeOid → Bool
  | .bool | .uuid | .bytea | .date | .timestamp | .timestamptz | .numeric | .text => true
  | _ => false

end TypeOid

namespace PredicatePushdownPolicy

def comparisonCapability : PredicateValueKind → PgComparisonKind →
    Option SupportedPredicateCapability
  | .boolean, .equal | .boolean, .notEqual => some .exact
  | .boolean, _ => none
  | .float, _ | .time, _ => none
  | _, _ => some .exact

def opClass (catalog : Catalog) (opno : ℕ) : Option PgComparisonKind := do
  let signature ← catalog.forOperator opno
  if signature.leftType.isInteger ∧ signature.rightType.isInteger ∨
      signature.leftType = signature.rightType ∧ signature.leftType.isHomogeneous then
    some signature.kind
  else none

def isCollationFree (operator : PgComparisonOp) : Bool :=
  operator.opcollid = 0 ∧ operator.inputcollid = 0

def capabilityForClass (typeOid : TypeOid) (operator : PgComparisonOp) (textSemantics : Bool)
    (kind : PgComparisonKind) : Option SupportedPredicateCapability :=
  match typeOid with
  | .bool => comparisonCapability .boolean kind
  | .uuid | .bytea => comparisonCapability .binary kind
  | .int2 | .int4 =>
    if isCollationFree operator then comparisonCapability .integer kind else none
  | .int8 => if isCollationFree operator then comparisonCapability .long kind else none
  | .date => (comparisonCapability .date kind).map fun _ => .conservative
  | .timestamp => (comparisonCapability .timestamp kind).map fun _ => .conservative
  | .timestamptz => (comparisonCapability .timestamptz kind).map fun _ => .conservative
  | .numeric =>
    if isCollationFree operator then comparisonCapability .decimal kind else none
  | .text | .varchar => if textSemantics then comparisonCapability .string kind else none
  | _ => none

def nullTestValueKind : TypeOid → Option PredicateValueKind
  | .bool => some .boolean
  | .uuid | .bytea => some .binary
  | .time => some .time
  | .int2 | .int4 => some .integer
  | .int8 => some .long
  | .numeric => some .decimal
  | .date => some .date
  | .timestamp => some .timestamp
  | .timestamptz => some .timestamptz
  | .text | .varchar => some .string
  | .float4 | .float8 => some .float
  | _ => none

end PredicatePushdownPolicy

namespace PgPredicatePushdownPolicy

open PredicatePushdownPolicy

variable (catalog : Catalog)

/-- Equality of text is byte equality. -/
def forEqualityCollation (collation : ℕ) : Bool :=
  collation ≠ 0 ∧ catalog.isDeterministic collation

/-- Whether a text comparison is one of bytes. -/
def forComparison (operator : PgComparisonOp) (kind : PgComparisonKind) :
    Bool :=
  if operator.opcollid ≠ 0 then false
  else
    match catalog.forOperator operator.opno with
    | none => false
    | some signature =>
      if signature.leftType ≠ .text ∨ signature.rightType ≠ .text ∨ signature.kind ≠ kind then false
      else
        match kind with
        | .equal | .notEqual => forEqualityCollation catalog operator.inputcollid
        | _ => catalog.isByteOrdered operator.inputcollid

/-- Integers that PostgreSQL widened for the comparison. -/
def widenedInteger (declared effective : TypeOid) : Option PlannedValueType :=
  match declared, effective with
  | .int2, .int4 => some .int4
  | .int2, .int8 | .int4, .int8 => some .int8ToInt
  | _, _ => none

/-- A type that is compared with itself only, without a relabel. -/
def sameType (typeOid : TypeOid) (effective valueOid : TypeOid) (planned : PlannedValueType) :
    Option PlannedValueType :=
  if effective = typeOid ∧ valueOid = typeOid then some planned else none

variable (column : ColumnRef)

/-- The table of (declared, effective, value) types, by declared type. -/
def tabulatedValueType (value : RuntimeValueSpec) (utf8 : Bool) :
    Option PlannedValueType :=
  let effective := column.valueType.typeOid
  let valueOid := value.valueType.typeOid
  match column.declaredType.typeOid with
  | .bool => sameType .bool effective valueOid .boolean
  | .uuid => sameType .uuid effective valueOid .uuid
  | .bytea => sameType .bytea effective valueOid .binary
  | .int2 | .int4 =>
    if effective.isInteger then
      match valueOid with
      | .int8 => some .int8ToInt
      | .int2 => some .int2
      | .int4 => some .int4
      | _ => none
    else none
  | .int8 =>
    if effective = .int8 then
      match valueOid with
      | .int2 => some .int2ToLong
      | .int4 => some .int4ToLong
      | .int8 => some .int8
      | _ => none
    else none
  | .date => sameType .date effective valueOid .date
  | .timestamp => sameType .timestamp effective valueOid (.timestamp .microseconds)
  | .timestamptz => sameType .timestamptz effective valueOid (.timestamptz .microseconds)
  | .numeric =>
    if effective = .numeric ∧ valueOid = .numeric then
      (decimalForStorageComparison column.declaredType column.valueType value.valueType).map
        .decimal128
    else none
  | .text | .varchar =>
    if effective.isText ∧ valueOid.isText ∧ utf8 then some .string else none
  | _ => none

def plannedValueType (value : RuntimeValueSpec) (utf8 : Bool) :
    Option PlannedValueType :=
  let widened :=
    if column.valueType.typeOid = value.valueType.typeOid then
      widenedInteger column.declaredType.typeOid column.valueType.typeOid
    else none
  match widened with
  | some valueType => some valueType
  | none => tabulatedValueType column value utf8

def planComparison (column : ColumnRef) (value : RuntimeValueSpec)
    (operator : PgComparisonOp) (utf8 : Bool) :
    Option (SupportedComparison × PlannedValueType) := do
  let valueType ← plannedValueType column value utf8
  let kind ← opClass catalog operator.opno
  let textSemantics := column.valueType.typeOid.isText && forComparison catalog operator kind
  let capability ← capabilityForClass column.valueType.typeOid operator textSemantics kind
  pure (⟨kind, capability⟩, valueType)

def plannedValueKind : PlannedValueType → PredicateValueKind
  | .int2 | .int4 | .int8ToInt => .integer
  | .int8 | .int2ToLong | .int4ToLong => .long
  | .boolean => .boolean
  | .uuid | .binary | .fixedBinary _ => .binary
  | .date => .date
  | .timestamp _ => .timestamp
  | .timestamptz _ => .timestamptz
  | .string => .string
  | .decimal128 _ => .decimal

def planStartsWith (column : ColumnRef) (pre : RuntimeValueSpec)
    (utf8 : Bool) : Option PlannedValueType := do
  let valueType ← plannedValueType column pre utf8
  if plannedValueKind valueType ≠ .string then none
  else if forEqualityCollation catalog column.valueType.collation then some valueType
  else none

def supportsSetMembership : PlannedValueType → Bool
  | .int2 | .int4 | .int8 | .int2ToLong | .int4ToLong | .int8ToInt | .date | .string | .uuid => true
  | _ => false

def supportsNanTest : Bool :=
  column.declaredType.typeOid = .float4 ∧ column.valueType.typeOid = .float4 ∨
    column.declaredType.typeOid = .float8 ∧ column.valueType.typeOid = .float8

def supportsNullTest (typeOid : TypeOid) : Bool := (nullTestValueKind typeOid).isSome

end PgPredicatePushdownPolicy

/-- Storage precision and width come from the source schema. -/
def PlannedValueType.withSourceType : PlannedValueType → IcebergType → Option PlannedValueType
  | .binary, .fixed width => some (.fixedBinary width)
  | .binary, .binary => some .binary
  | .uuid, .uuid => some .uuid
  | .binary, _ | .uuid, _ => none
  | .timestamp _, .timestamp => some (.timestamp .microseconds)
  | .timestamp _, .timestampNs => some (.timestamp .nanoseconds)
  | .timestamptz _, .timestamptz => some (.timestamptz .microseconds)
  | .timestamptz _, .timestamptzNs => some (.timestamptz .nanoseconds)
  | .timestamp _, _ | .timestamptz _, _ => none
  | valueType, _ => some valueType

/-! ## Planning -/

/-- One attribute of the relation's descriptor; a dropped one has no name. -/
structure RelationAttribute where
  name : Option String
  typeOid : TypeOid
  typmod : ℤ
  deriving DecidableEq

/-- Attributes by `attno - 1`. -/
structure RelationLayout where
  attributes : List RelationAttribute
  deriving DecidableEq

namespace RelationLayout

variable (layout : RelationLayout)

def attributeOffset (attno : ℤ) : Except IcebergFilterError ℕ :=
  if attno < 1 then
    .error (.invariantViolated "ColumnMapping: projected column attno must be >= 1")
  else if layout.attributes.length ≤ (attno - 1).toNat then
    .error (.invariantViolated "ColumnMapping: computed dest is outside the slot width")
  else .ok (attno - 1).toNat

/-- A live column's name with its descriptor entry. -/
def column (attno : ℤ) :
    Except IcebergFilterError (String × RelationAttribute) := do
  let offset ← layout.attributeOffset attno
  match layout.attributes[offset]? with
  | some attr =>
    match attr.name with
    | some name => pure (name, attr)
    | none => .error (.columnNotFound ("attno " ++ toString attno))
  | none => .error (.columnNotFound ("attno " ++ toString attno))

end RelationLayout

structure IcebergFilterPlanner where
  schema : Schema
  layout : RelationLayout
  utf8 : Bool
  catalog : Catalog

structure ResolvedComparison where
  supported : SupportedComparison
  column : PlannedIcebergColumn
  valueType : PlannedValueType
  deriving DecidableEq

namespace IcebergFilterPlanner

open PgPredicatePushdownPolicy

variable (planner : IcebergFilterPlanner)

/-- A decimal column is planned only when the local declaration has the remote
shape. -/
def matchesDecimal (fieldType : IcebergType) (attr : RelationAttribute) : Bool :=
  match fieldType with
  | .decimal precision scale => attr.typmod = numericTypmod precision scale
  | _ => true

def column (attno : ℤ) : Except IcebergFilterError (Option PlannedIcebergColumn) := do
  let (name, attr) ← planner.layout.column attno
  match planner.schema.fieldByName name with
  | none => .error (.columnNotFound name)
  | some field =>
    pure (if matchesDecimal field.fieldType attr then some ⟨field.id, name⟩ else none)

/-- The planned column's field belongs to the planner's schema. -/
def resolvedValueType (column : PlannedIcebergColumn) (valueType : PlannedValueType) :
    Option PlannedValueType :=
  (planner.schema.fieldById column.fieldId).bind fun field =>
    valueType.withSourceType field.fieldType

def resolveComparison (column : ColumnRef) (value : RuntimeValueSpec)
    (operator : PgComparisonOp) : Except IcebergFilterError (Option ResolvedComparison) :=
  match planComparison planner.catalog column value operator planner.utf8 with
  | none => .ok none
  | some (supported, valueType) => do
    match ← planner.column column.attno with
    | none => pure none
    | some plannedColumn =>
      pure ((planner.resolvedValueType plannedColumn valueType).map fun valueType =>
        ⟨supported, plannedColumn, valueType⟩)

def plannedOperator : PgComparisonKind → PlannedComparisonOperator
  | .equal => .eq
  | .notEqual => .notEq
  | .less => .lt
  | .lessEqual => .le
  | .greater => .gt
  | .greaterEqual => .ge

variable (resolved : ResolvedComparison)

/-- A `bytea` value does not carry the fixed width of its column. -/
def comparisonCapability : SupportedPredicateCapability :=
  match resolved.valueType with
  | .fixedBinary _ => .conservative
  | _ => resolved.supported.capability

def comparisonPlan (mirrored : Bool) (slot : ℕ) :
    PredicatePlan PlannedIcebergNode :=
  let operator := plannedOperator resolved.supported.operator
  let node := PlannedIcebergNode.comparison (if mirrored then operator.mirrored else operator)
    resolved.column slot resolved.valueType
  match comparisonCapability resolved with
  | .exact => .exact node
  | .conservative => .conservative node

variable (slots : ℕ → RuntimeValueSpec) (operator : PgComparisonOp)

def planColumnComparison (column : ColumnRef) (slot : ℕ)
    (mirrored : Bool) : Except IcebergFilterError (PredicatePlan PlannedIcebergNode) := do
  match ← planner.resolveComparison column (slots slot) operator with
  | none => pure .unsupported
  | some resolved => pure (comparisonPlan resolved mirrored slot)

def planComparison (left right : ScalarExpr) :
    Except IcebergFilterError (PredicatePlan PlannedIcebergNode) :=
  match left, right with
  | .column column, .value slot => planner.planColumnComparison slots operator column slot false
  | .value slot, .column column => planner.planColumnComparison slots operator column slot true
  | _, _ => .ok .unsupported

def planSet (column : ColumnRef) (set : ℕ)
    (element : RuntimeValueSpec) :
    Except IcebergFilterError (PredicatePlan PlannedIcebergNode) := do
  match ← planner.resolveComparison column element operator with
  | none => pure .unsupported
  | some resolved =>
    pure (if resolved.supported.operator ≠ .equal ∨ ¬supportsSetMembership resolved.valueType then
      .unsupported
    else .conservative (.inSet resolved.column set resolved.valueType))

def planInSet (value set : ScalarExpr) :
    Except IcebergFilterError (PredicatePlan PlannedIcebergNode) :=
  match value, set with
  | .column column, .value set =>
    if (slots set).sourceKind.isRescanStable then
      match (slots set).arrayElement with
      | none => .ok .unsupported
      | some element => planner.planSet operator column set element
    else .ok .unsupported
  | _, _ => .ok .unsupported

variable (value : ScalarExpr)

/-- A leaf over one column that is planned whenever the column is. -/
def planColumn (supported : ColumnRef → Bool)
    (plan : PlannedIcebergColumn → PredicatePlan PlannedIcebergNode) :
    Except IcebergFilterError (PredicatePlan PlannedIcebergNode) :=
  match value with
  | .value _ => .ok .unsupported
  | .column column =>
    if supported column then do
      match ← planner.column column.attno with
      | none => pure .unsupported
      | some plannedColumn => pure (plan plannedColumn)
    else .ok .unsupported

def planNullTest (isNotNull : Bool) :
    Except IcebergFilterError (PredicatePlan PlannedIcebergNode) :=
  planner.planColumn value (fun column => supportsNullTest column.declaredType.typeOid)
    fun column => .exact (if isNotNull then .isNotNull column else .isNull column)

def planNanTest (isNotNan : Bool) :
    Except IcebergFilterError (PredicatePlan PlannedIcebergNode) :=
  planner.planColumn value supportsNanTest
    fun column => .exact (if isNotNan then .isNotNan column else .isNan column)

def planStartsWith (value pre : ScalarExpr) :
    Except IcebergFilterError (PredicatePlan PlannedIcebergNode) :=
  match pre with
  | .column _ => .ok .unsupported
  | .value slot =>
    planner.planColumn value
      (fun column => (PgPredicatePushdownPolicy.planStartsWith planner.catalog column (slots slot)
        planner.utf8).isSome)
      fun column => .exactNoComplement (.startsWith column slot)

/-- `RelationPredicateAdapter`. -/
def adapter : PredicatePlanner ScalarExpr PgComparisonOp PlannedIcebergNode IcebergFilterError where
  alwaysTrue := .ok (.exact .alwaysTrue)
  alwaysFalse := .ok (.exact .alwaysFalse)
  strictTrue value := planner.planColumn value (fun _ => true) fun column =>
    .exactNoComplement (.isNotNull column)
  strictFalse value := planner.planColumn value (fun _ => true) fun _ =>
    .exactNoComplement .alwaysFalse
  comparison operator left right := planner.planComparison slots operator left right
  booleanTest kind value := planner.planColumn value (fun _ => true) fun column =>
    .exact (.booleanTest kind column)
  isNull value := planner.planNullTest value false
  isNotNull value := planner.planNullTest value true
  isNan value := planner.planNanTest value false
  isNotNan value := planner.planNanTest value true
  startsWith value pre := planner.planStartsWith slots value pre
  inSet operator value set := planner.planInSet slots operator value set
  conjunction children := .and children
  disjunction children := .or children
  negate child := .not child

end IcebergFilterPlanner

end LagoDB.Iceberg
