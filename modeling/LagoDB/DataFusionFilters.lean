import LagoDB.RuntimePredicates

/-!
# DataFusion filters

The two adapters that turn DataFusion filter expressions into runtime predicates.
The logical one names columns and runs when a filter is offered to the table
provider; the physical one numbers the columns of a scan's output and runs when
the scan opens. They share the leaves and differ in what they keep of a tree that
is only partly representable: the physical adapter keeps the rest as a residual,
the logical one only remembers that something is missing.
-/
namespace LagoDB.DataFusionFilters

open SqlLogic Pushdown Iceberg RuntimePredicates SqlValue

/-! ## Expressions -/

/-- Typed literals; `other` holds the types no adapter reads, such as floats. -/
inductive ScalarValue where
  | null
  | boolean (value : Option Bool)
  | int8 (value : Option ℤ)
  | int16 (value : Option ℤ)
  | int32 (value : Option ℤ)
  | int64 (value : Option ℤ)
  | date32 (days : Option ℤ)
  | timestampMicrosecond (micros : Option ℤ) (timezone : Option String)
  | decimal128 (coefficient : Option ℤ) (precision : ℕ) (scale : ℤ)
  | utf8 (bytes : Option Bytes)
  | utf8View (bytes : Option Bytes)
  | largeUtf8 (bytes : Option Bytes)
  | binary (bytes : Option Bytes)
  | largeBinary (bytes : Option Bytes)
  | binaryView (bytes : Option Bytes)
  | fixedSizeBinary (width : ℕ) (bytes : Option Bytes)
  | other (value : Option SqlValue)

inductive Operator where
  | and
  | or
  | eq
  | notEq
  | lt
  | ltEq
  | gt
  | gtEq
  | isDistinctFrom
  | isNotDistinctFrom
  | other (code : ℕ)
  deriving DecidableEq

inductive ScalarFunction where
  | isNan
  | startsWith
  | other (code : ℕ)
  deriving DecidableEq

/-- Expressions over columns `C`. `IS TRUE` and its kin exist in logical plans
only; everything the adapters do not look into is an `other`. -/
inductive Expr (C : Type) where
  | column (column : C)
  | literal (value : ScalarValue)
  | cast (child : Expr C) (target : DataType)
  | binary (left : Expr C) (operator : Operator) (right : Expr C)
  | isNull (child : Expr C)
  | isNotNull (child : Expr C)
  | not (child : Expr C)
  | booleanTest (kind : BooleanTestKind) (child : Expr C)
  | function (called : ScalarFunction) (args : List (Expr C))
  | other (code : ℕ)

/-! ## Evaluation -/

def ScalarValue.toSql : ScalarValue → Option SqlValue
  | .null => none
  | .boolean value => value.map .boolean
  | .int8 value | .int16 value | .int32 value | .int64 value => value.map .integral
  | .date32 days => days.map fun days => .integral (days - pgEpochDaysDiff)
  | .timestampMicrosecond micros _ => micros.map fun micros => .integral (micros - pgEpochUsecsDiff)
  | .decimal128 coefficient _ scale =>
    coefficient.map fun coefficient => .number (.finite (coefficient / 10 ^ scale))
  | .utf8 bytes | .utf8View bytes | .largeUtf8 bytes => bytes.map .text
  | .binary bytes | .largeBinary bytes | .binaryView bytes | .fixedSizeBinary _ bytes =>
    bytes.map .binary
  | .other value => value

/-- DataFusion's kernels, as far as the adapters rely on them. -/
structure Kernels (C : Type) where
  order : SqlValue → SqlValue → Option Ordering
  cast : DataType → SqlValue → Option SqlValue
  operator : ℕ → Option SqlValue → Option SqlValue → Option SqlValue
  function : ScalarFunction → List (Option SqlValue) → Option SqlValue
  other : ℕ → (C → Option SqlValue) → Option SqlValue

def ofTruth (truth : Truth) : Option SqlValue := truth.map .boolean

variable (order : SqlValue → SqlValue → Option Ordering)

def compareTruth (kind : PgComparisonKind)
    (left right : Option SqlValue) : Truth := do
  let a ← left
  let b ← right
  let result ← order a b
  pure (kind.holds result)

def isDistinct :
    Option SqlValue → Option SqlValue → Bool
  | none, none => false
  | some a, some b => order a b != some .eq
  | _, _ => true

namespace Expr

variable {C : Type} (kernels : Kernels C) (row : C → Option SqlValue)

def evalBinary (operator : Operator) (left right : Option SqlValue) : Option SqlValue :=
  let compared (kind : PgComparisonKind) := ofTruth (compareTruth kernels.order kind left right)
  match operator with
  | .and => ofTruth (Truth.and (truth left) (truth right))
  | .or => ofTruth (Truth.or (truth left) (truth right))
  | .eq => compared .equal
  | .notEq => compared .notEqual
  | .lt => compared .less
  | .ltEq => compared .lessEqual
  | .gt => compared .greater
  | .gtEq => compared .greaterEqual
  | .isDistinctFrom => some (.boolean (isDistinct kernels.order left right))
  | .isNotDistinctFrom => some (.boolean !isDistinct kernels.order left right)
  | .other code => kernels.operator code left right

def evalFunction (called : ScalarFunction) (args : List (Option SqlValue)) : Option SqlValue :=
  match called, args with
  | .isNan, [value] => ofTruth (nanTruth value)
  | .startsWith, [value, pre] => ofTruth (prefixTruth value pre)
  | called, args => kernels.function called args

mutual

/-- Kleene evaluation of one row. -/
def eval : Expr C → Option SqlValue
  | .column name => row name
  | .literal value => value.toSql
  | .cast child target => (child.eval).bind (kernels.cast target)
  | .binary left operator right => evalBinary kernels operator left.eval right.eval
  | .isNull child => some (.boolean child.eval.isNone)
  | .isNotNull child => some (.boolean child.eval.isSome)
  | .not child => ofTruth (Truth.not (truth child.eval))
  | .booleanTest kind child => some (.boolean (kind.test (truth child.eval)))
  | .function called args => evalFunction kernels called (evalArgs args)
  | .other code => kernels.other code row

def evalArgs : List (Expr C) → List (Option SqlValue)
  | [] => []
  | arg :: rest => arg.eval :: evalArgs rest

end

/-- A filter keeps the rows on which it is TRUE. -/
def IsTrue (e : Expr C) : Prop := truth (e.eval kernels row) = some true

end Expr

/-! ## Scalars -/

namespace DataFusionPredicateScalar

/-- Floating-point literals stay in the residual. -/
def value : ScalarValue → Option RuntimePredicateValue
  | .binary (some bytes) | .largeBinary (some bytes) | .binaryView (some bytes)
  | .fixedSizeBinary _ (some bytes) => some (.binary bytes)
  | .boolean (some value) => some (.boolean value)
  | .int8 (some value) | .int16 (some value) | .int32 (some value) => some (.int32 value)
  | .int64 (some value) => some (.int64 value)
  | .date32 (some days) => some (.date32 days)
  | .timestampMicrosecond (some micros) timezone =>
    some (if timezone.isSome then .timestampTzMicrosecond micros else .timestampMicrosecond micros)
  | .decimal128 (some coefficient) precision scale =>
    if precision ≤ 38 ∧ 0 ≤ scale ∧ scale ≤ precision then
      some (.decimal128 coefficient precision scale)
    else none
  | .utf8 (some bytes) | .utf8View (some bytes) | .largeUtf8 (some bytes) => some (.string bytes)
  | _ => none

def comparisonOperator : Operator → Option RuntimeComparisonOperator
  | .eq => some .equal
  | .notEq => some .notEqual
  | .lt => some .lessThan
  | .ltEq => some .lessThanOrEqual
  | .gt => some .greaterThan
  | .gtEq => some .greaterThanOrEqual
  | _ => none

def integerWidening : DataType → DataType → Option RuntimeIntegerWidening
  | .int16, .int32 => some .toInt32
  | .int16, .int64 | .int32, .int64 => some .toInt64
  | _, _ => none

def isBinary : DataType → Bool
  | .binary | .largeBinary | .binaryView => true
  | _ => false

/-- Casts that change the layout and keep the bytes. -/
def binaryRepresentationCast (source target : DataType) : Bool :=
  match source with
  | .fixedSizeBinary _ => isBinary target
  | source => isBinary source && isBinary target

def literalTest : ScalarValue → Option BooleanTestKind
  | .boolean (some true) => some .isTrue
  | .boolean (some false) => some .isFalse
  | .boolean none => some .isUnknown
  | _ => none

/-- SQL boolean tests arrive as null-safe comparisons with a literal. -/
def booleanTest (operator : Operator) (value : ScalarValue) : Option BooleanTestKind := do
  let kind ← literalTest value
  match operator with
  | .isNotDistinctFrom => some kind
  | .isDistinctFrom => some kind.negated
  | _ => none

def reverseOperator : Operator → Operator
  | .lt => .gt
  | .ltEq => .gtEq
  | .gt => .lt
  | .gtEq => .ltEq
  | operator => operator

end DataFusionPredicateScalar

/-! ## Leaves -/

/-- How an adapter resolves a column: its source position and its Arrow type. -/
structure PredicateAdapter (C : Type) where
  position : C → Option ℕ
  dataType : C → Option DataType

namespace PredicateAdapter

open DataFusionPredicateScalar

variable {C : Type} (adapter : PredicateAdapter C)

def column : Expr C → Option ℕ
  | .column column => adapter.position column
  | _ => none

def literal : Expr C → Option ScalarValue
  | .literal value => some value
  | _ => none

def value (e : Expr C) : Option RuntimePredicateValue := do
  let scalar ← literal e
  DataFusionPredicateScalar.value scalar

def booleanPosition : Expr C → Option ℕ
  | .column column =>
    if adapter.dataType column = some .boolean then adapter.position column else none
  | _ => none

def booleanColumn (e : Expr C) (expected : Bool) : Option RuntimePruningPredicate := do
  let position ← adapter.booleanPosition e
  pure (.comparison .equal (.column position) (.value (.boolean expected)))

def nanTest (args : List (Expr C)) (isNotNan : Bool) : Option RuntimePruningPredicate :=
  match args with
  | [value] => do
    let position ← adapter.column value
    pure (if isNotNan then .isNotNan (.column position) else .isNan (.column position))
  | _ => none

def startsWith (args : List (Expr C)) : Option RuntimePruningPredicate :=
  match args with
  | [value, pre] => do
    let position ← adapter.column value
    match ← PredicateAdapter.value pre with
    | .string bytes => some (.startsWith (.column position) (.value (.string bytes)))
    | _ => none
  | _ => none

def negatedUnary (e : Expr C) : Option RuntimePruningPredicate :=
  match adapter.booleanColumn e false with
  | some predicate => some predicate
  | none =>
    match e with
    | .function .isNan args => adapter.nanTest args true
    | .function .startsWith args => (adapter.startsWith args).map .not
    | _ => none

/-- A column, possibly under a cast that keeps its values. -/
def comparisonColumn : Expr C → Option RuntimePredicateScalar
  | .column column => (adapter.position column).map .column
  | .cast (.column column) target => do
    let position ← adapter.position column
    let source ← adapter.dataType column
    if binaryRepresentationCast source target then some (.column position)
    else (integerWidening source target).map (.widenedIntegerColumn position)
  | _ => none

def literalSide (left right : Expr C) : Option (Expr C × ScalarValue) :=
  match literal right with
  | some scalar => some (left, scalar)
  | none => (literal left).map fun scalar => (right, scalar)

variable (left : Expr C)

def distinctTest (operator : Operator) (right : Expr C) :
    Option RuntimePruningPredicate := do
  let sides ← literalSide left right
  let position ← adapter.booleanPosition sides.1
  let kind ← DataFusionPredicateScalar.booleanTest operator sides.2
  pure (.booleanTest kind (.column position))

def sameColumn (left right : Expr C) : Option ℕ := do
  let leftColumn ← adapter.column left
  let rightColumn ← adapter.column right
  if leftColumn = rightColumn then some leftColumn else none

def literalComparison (operator : Operator) (right : Expr C) :
    Option RuntimePruningPredicate :=
  match adapter.comparisonColumn left, PredicateAdapter.value right with
  | some column, some value => do
    pure (.comparison (← comparisonOperator operator) column (.value value))
  | _, _ =>
    match PredicateAdapter.value left, adapter.comparisonColumn right with
    | some value, some column => do
      pure (.comparison (← comparisonOperator (reverseOperator operator)) column (.value value))
    | _, _ => none

def comparison (operator : Operator) (right : Expr C) :
    Option RuntimePruningPredicate :=
  if operator = .isDistinctFrom ∨ operator = .isNotDistinctFrom then
    adapter.distinctTest left operator right
  else
    match operator, adapter.sameColumn left right with
    | .eq, some position => some (.strictTrue (.column position))
    | .gt, some position => some (.strictFalse (.column position))
    | _, _ => adapter.literalComparison left operator right

def booleanLiteral : ScalarValue → Option RuntimePruningPredicate
  | .boolean (some true) => some .alwaysTrue
  | .boolean (some false) | .boolean none | .null => some .alwaysFalse
  | _ => none

/-- Everything below AND and OR, boolean tests of logical plans apart. -/
def compileLeaf : Expr C → Option RuntimePruningPredicate
  | .column column => adapter.booleanColumn (.column column) true
  | .literal value => booleanLiteral value
  | .isNull child => (adapter.column child).map fun position => .isNull (.column position)
  | .isNotNull child => (adapter.column child).map fun position => .isNotNull (.column position)
  | .not child => adapter.negatedUnary child
  | .function .isNan args => adapter.nanTest args false
  | .function .startsWith args => adapter.startsWith args
  | .binary left operator right => adapter.comparison left operator right
  | _ => none

end PredicateAdapter

/-! ## Trees -/

/-- `PredicateExpr::and`. -/
def andPredicate {S O : Type} : PredicateExpr S O → PredicateExpr S O → PredicateExpr S O
  | .alwaysFalse, _ => .alwaysFalse
  | _, .alwaysFalse => .alwaysFalse
  | .alwaysTrue, predicate => predicate
  | predicate, .alwaysTrue => predicate
  | left, right => .and [left, right]

/-- `PredicateExpr::or`. -/
def orPredicate {S O : Type} : PredicateExpr S O → PredicateExpr S O → PredicateExpr S O
  | .alwaysTrue, _ => .alwaysTrue
  | _, .alwaysTrue => .alwaysTrue
  | .alwaysFalse, predicate => predicate
  | predicate, .alwaysFalse => predicate
  | left, right => .or [left, right]

def conjunctionOpt {C : Type} : List (Expr C) → Option (Expr C)
  | [] => none
  | first :: rest => some (rest.foldl (fun left right => .binary left .and right) first)

structure PhysicalPredicatePlan where
  providerPredicate : Option RuntimePruningPredicate
  exactResidual : Option (Expr ℕ)

namespace PhysicalPredicateAdapter

/-- Output positions of the scan, and the schema of its output. -/
def new (sourcePositionByOutput : List ℕ) (outputSchema : List ArrowField) :
    PredicateAdapter ℕ where
  position column := sourcePositionByOutput[column]?
  dataType column := (outputSchema[column]?).map ArrowField.dataType

variable (adapter : PredicateAdapter ℕ)

def leaf (e : Expr ℕ) (providerPredicate : Option RuntimePruningPredicate) :
    PhysicalPredicatePlan :=
  ⟨providerPredicate, if providerPredicate.isNone then some e else none⟩

def combineProvider : Option RuntimePruningPredicate → Option RuntimePruningPredicate →
    Option RuntimePruningPredicate
  | some left, some right => some (andPredicate left right)
  | some predicate, none => some predicate
  | none, some predicate => some predicate
  | none, none => none

def and (left right : PhysicalPredicatePlan) : PhysicalPredicatePlan where
  providerPredicate := combineProvider left.providerPredicate right.providerPredicate
  exactResidual := conjunctionOpt (left.exactResidual.toList ++ right.exactResidual.toList)

/-- A branch that is only partly represented keeps the whole expression. -/
def or (e : Expr ℕ) (left right : PhysicalPredicatePlan) : PhysicalPredicatePlan :=
  match left.providerPredicate, right.providerPredicate with
  | some leftPredicate, some rightPredicate =>
    ⟨some (orPredicate leftPredicate rightPredicate),
      if left.exactResidual.isNone && right.exactResidual.isNone then none else some e⟩
  | _, _ => ⟨none, some e⟩

def plan : Expr ℕ → PhysicalPredicatePlan
  | .binary left .and right => and (plan left) (plan right)
  | .binary left .or right => or (.binary left .or right) (plan left) (plan right)
  | e => leaf e (adapter.compileLeaf e)

end PhysicalPredicateAdapter

structure LogicalPredicatePlan where
  predicate : RuntimePruningPredicate
  complete : Bool

namespace LogicalPredicateAdapter

variable (adapter : PredicateAdapter String)

def combineAnd : Option LogicalPredicatePlan → Option LogicalPredicatePlan →
    Option LogicalPredicatePlan
  | some left, some right =>
    some ⟨andPredicate left.predicate right.predicate, left.complete && right.complete⟩
  | some plan, none => some ⟨plan.predicate, false⟩
  | none, some plan => some ⟨plan.predicate, false⟩
  | none, none => none

def combineOr : Option LogicalPredicatePlan → Option LogicalPredicatePlan →
    Option LogicalPredicatePlan
  | some left, some right =>
    some ⟨orPredicate left.predicate right.predicate, left.complete && right.complete⟩
  | _, _ => none

def booleanTest (e : Expr String) (kind : BooleanTestKind) : Option LogicalPredicatePlan := do
  let position ← adapter.booleanPosition e
  pure ⟨.booleanTest kind (.column position), true⟩

def lower : Expr String → Option LogicalPredicatePlan
  | .binary left .and right => combineAnd (lower left) (lower right)
  | .binary left .or right => combineOr (lower left) (lower right)
  | .booleanTest kind child => booleanTest adapter child kind
  | e => (adapter.compileLeaf e).map fun predicate => ⟨predicate, true⟩

end LogicalPredicateAdapter

end LagoDB.DataFusionFilters
