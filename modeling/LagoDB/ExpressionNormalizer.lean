import LagoDB.PgExpression

/-!
# Normalizing scan clauses

A clause is normalized into a provider-neutral predicate over the columns of the
scanned relation and numbered value slots. Each slot keeps the PostgreSQL
expression that supplies its value at run time. Predicates normalized one by one
can be combined; the slots of each are then moved behind those before it.
-/
namespace LagoDB.Negotiation

open NumericCodec Pushdown Iceberg

/-! ## Fragments -/

structure RuntimeValueExpr where
  expr : PgExpr
  metadata : RuntimeValueSpec

abbrev FilterExpr := PredicateExpr ScalarExpr PgComparisonOp

structure PredicateFragment where
  root : FilterExpr
  values : List RuntimeValueSpec

structure NormalizedPredicate where
  fragment : PredicateFragment
  bindings : List RuntimeValueExpr
  pushedExpr : PgExpr

def rebaseScalar (offset : ℕ) : ScalarExpr → ScalarExpr
  | .column column => .column column
  | .value slot => .value (slot + offset)

mutual

def rebaseRuntimeValues (offset : ℕ) : FilterExpr → FilterExpr
  | .alwaysTrue => .alwaysTrue
  | .alwaysFalse => .alwaysFalse
  | .strictTrue value => .strictTrue (rebaseScalar offset value)
  | .strictFalse value => .strictFalse (rebaseScalar offset value)
  | .comparison operator left right =>
    .comparison operator (rebaseScalar offset left) (rebaseScalar offset right)
  | .booleanTest kind value => .booleanTest kind (rebaseScalar offset value)
  | .isNull value => .isNull (rebaseScalar offset value)
  | .isNotNull value => .isNotNull (rebaseScalar offset value)
  | .isNan value => .isNan (rebaseScalar offset value)
  | .isNotNan value => .isNotNan (rebaseScalar offset value)
  | .startsWith value pre => .startsWith (rebaseScalar offset value) (rebaseScalar offset pre)
  | .inSet operator value set =>
    .inSet operator (rebaseScalar offset value) (rebaseScalar offset set)
  | .and children => .and (rebaseAll offset children)
  | .or children => .or (rebaseAll offset children)
  | .not child => .not (rebaseRuntimeValues offset child)

def rebaseAll (offset : ℕ) : List FilterExpr → List FilterExpr
  | [] => []
  | child :: rest => rebaseRuntimeValues offset child :: rebaseAll offset rest

end

/-! ## Combination -/

inductive PredicateCombination where
  | and
  | or
  deriving DecidableEq

def PredicateCombination.node : PredicateCombination → List FilterExpr → FilterExpr
  | .and, nodes => .and nodes
  | .or, nodes => .or nodes

def PredicateCombination.boolop : PredicateCombination → BoolExprType
  | .and => .and
  | .or => .or

/-- The vectors `combine` fills. -/
structure Combined where
  nodes : List FilterExpr
  values : List RuntimeValueSpec
  bindings : List RuntimeValueExpr
  pushedArgs : List PgExpr

def Combined.add (acc : Combined) (item : NormalizedPredicate) : Combined where
  nodes := acc.nodes ++ [rebaseRuntimeValues acc.values.length item.fragment.root]
  values := acc.values ++ item.fragment.values
  bindings := acc.bindings ++ item.bindings
  pushedArgs := acc.pushedArgs ++ [item.pushedExpr]

def Combined.finish (acc : Combined) (combination : PredicateCombination) :
    NormalizedPredicate where
  fragment := ⟨combination.node acc.nodes, acc.values⟩
  bindings := acc.bindings
  pushedExpr := .bool combination.boolop acc.pushedArgs

def NormalizedPredicate.combine (combination : PredicateCombination) :
    List NormalizedPredicate → Option NormalizedPredicate
  | [] => none
  | [item] => some item
  | items => some ((items.foldl Combined.add ⟨[], [], [], []⟩).finish combination)

/-! ## The normalizer -/

structure RelationExpressionNormalizer where
  scanRelid : ℤ
  catalog : Catalog

namespace RelationExpressionNormalizer

/-- What is left to normalize sees the bindings made so far. -/
abbrev Bindings := List RuntimeValueExpr

def pushBinding (bindings : Bindings) (expr : PgExpr) (metadata : RuntimeValueSpec) :
    ScalarExpr × Bindings :=
  (.value bindings.length, bindings ++ [⟨expr, metadata⟩])

def resolveParam : ParamKind → Option RuntimeValueSource
  | .external => some .externalParam
  | .exec => some .execParam
  | _ => none

variable (normalizer : RelationExpressionNormalizer) (expr : PgExpr)

def normalizeVar (node : PgVar) (bindings : Bindings) :
    Option (ScalarExpr × Bindings) :=
  if 0 < node.varattno then
    if node.varno = normalizer.scanRelid then
      some (.column ⟨node.varattno, node.vartype, expr.typeMetadata⟩, bindings)
    else some (pushBinding bindings expr ⟨expr.typeMetadata, .outerValue⟩)
  else none

def normalizeScalar (bindings : Bindings) : Option (ScalarExpr × Bindings) :=
  match PgScalarExprRef.parse expr with
  | none => none
  | some (.var node) => normalizer.normalizeVar expr node bindings
  | some (.widenedIntegerVar node) => normalizer.normalizeVar expr node bindings
  | some .const => some (pushBinding bindings expr ⟨expr.typeMetadata, .constant⟩)
  | some (.param paramkind) =>
    (resolveParam paramkind).map fun source =>
      pushBinding bindings expr ⟨expr.typeMetadata, source⟩

/-- Whether a constant compares exactly in a decimal shape. -/
def comparesIn (codec : Decimal128NumericCodec) (expr : PgExpr) : Bool :=
  match expr.withoutRelabels with
  | .const type value =>
    decide (type.typeOid = .numeric ∧ type.collation = 0) &&
      match value with
      | none => true
      | some (.scalar (.numeric datum)) => (codec.encodeComparisonDatum datum).toOption.isSome
      | some _ => false
  | _ => false

def specialized (column : ColumnRef) (binding : RuntimeValueExpr) : RuntimeValueExpr :=
  if binding.metadata.sourceKind = .constant ∧ binding.metadata.valueType = ⟨.numeric, -1, 0⟩ then
    match decimalForType column.declaredType with
    | some declared =>
      if decimalForType column.valueType = some declared ∧ comparesIn declared binding.expr then
        { binding with
          metadata.valueType := ⟨.numeric, numericTypmod declared.precision declared.scale, 0⟩ }
      else binding
    | none => binding
  else binding

/-- Retains in a constant's slot that it compares exactly with a decimal column. -/
def specializeDecimalConstant (column value : ScalarExpr) (bindings : Bindings) : Bindings :=
  match column, value with
  | .column column, .value slot => bindings.modify slot (specialized column)
  | _, _ => bindings

def normalizeInSet (node : ScalarArrayNode) (scalar array : PgExpr) (bindings : Bindings) :
    Option (FilterExpr × Bindings) :=
  if node.useOr then do
    match ← normalizer.normalizeScalar scalar bindings with
    | (.column column, bindings) =>
      match ← normalizer.normalizeScalar array bindings with
      | (.value slot, bindings) =>
        some (.inSet node.comparisonOp (.column column) (.value slot), bindings)
      | _ => none
    | _ => none
  else none

/-- A boolean column as a predicate is `column = TRUE`. -/
def normalizeBooleanColumn (value : PgExpr) (bindings : Bindings) :
    Option (FilterExpr × Bindings) := do
  let (left, bindings) ← normalizer.normalizeScalar value bindings
  let (right, bindings) ← normalizer.normalizeScalar
    (.const ⟨.bool, -1, 0⟩ (some (.scalar (.boolean true)))) bindings
  some (.comparison booleanEquality left right, bindings)

def normalizeStartsWith (value pre : PgExpr) (inputCollation : ℕ) (bindings : Bindings) :
    Option (FilterExpr × Bindings) :=
  if PgPredicatePushdownPolicy.forEqualityCollation normalizer.catalog inputCollation then do
    match ← normalizer.normalizeScalar value bindings with
    | (.column column, bindings) =>
      match ← normalizer.normalizeScalar pre bindings with
      | (.value slot, bindings) => some (.startsWith (.column column) (.value slot), bindings)
      | _ => none
    | _ => none
  else none

/-- The literal prefix of a constant pattern, as a constant. -/
def pureLikePrefixConst : PgExpr → Option PgExpr
  | .const type (some (.scalar (.text pattern))) =>
    if type.typeOid = .text then
      (pureLikePrefix pattern).map fun pre =>
        .const ⟨.text, type.typmod, type.collation⟩ (some (.scalar (.text pre)))
    else none
  | _ => none

variable (op : PgComparisonOp)

def normalizeLikePrefix (value pattern : PgExpr) (bindings : Bindings) :
    Option (FilterExpr × Bindings) :=
  if op.opfuncid = textLikeFunction ∧ op.opresulttype = .bool ∧ op.opcollid = 0 then
    match pureLikePrefixConst pattern.withoutRelabels with
    | some pre => normalizer.normalizeStartsWith value pre op.inputcollid bindings
    | none => none
  else none

def isFloatNan : PgExpr → Bool
  | .const type (some (.scalar (.float .nan))) =>
    type.typeOid = .float4 ∨ type.typeOid = .float8
  | _ => false

inductive PgNanComparison where
  | isNan
  | isNotNan
  | strictTrue
  | strictFalse
  deriving DecidableEq

/-- NaN equals itself and is greater than every other number. -/
def withNanOn : Bool → PgComparisonKind → PgNanComparison
  | _, .equal => .isNan
  | _, .notEqual => .isNotNan
  | false, .less => .isNotNan
  | false, .lessEqual => .strictTrue
  | false, .greater => .strictFalse
  | false, .greaterEqual => .isNan
  | true, .less => .strictFalse
  | true, .lessEqual => .isNan
  | true, .greater => .isNotNan
  | true, .greaterEqual => .strictTrue

def PgNanComparison.predicate (column : ScalarExpr) : PgNanComparison → FilterExpr
  | .isNan => .isNan column
  | .isNotNan => .isNotNan column
  | .strictTrue => .strictTrue column
  | .strictFalse => .strictFalse column

def isFloat : TypeOid → Bool
  | .float4 | .float8 => true
  | _ => false

/-- The operand beside the only NaN constant, and whether NaN is on the left. -/
def nanOperand (left right : PgExpr) : Option (PgExpr × Bool) :=
  match isFloatNan left.withoutRelabels, isFloatNan right.withoutRelabels with
  | true, false => some (right, true)
  | false, true => some (left, false)
  | _, _ => none

/-- A comparison with one NaN operand. Without a result the bindings are as
before. -/
def normalizeNanComparison (left right : PgExpr) (bindings : Bindings) :
    Option (FilterExpr × Bindings) := do
  let signature ← builtinSignature normalizer.catalog op
  if isFloat signature.leftType && isFloat signature.rightType then
    let (column, nanOnLeft) ← nanOperand left right
    match ← normalizer.normalizeScalar column bindings with
    | (.column column, bindings) =>
      some ((withNanOn nanOnLeft signature.kind).predicate (.column column), bindings)
    | _ => none
  else none

def normalizeComparison (left right : PgExpr) (bindings : Bindings) :
    Option (FilterExpr × Bindings) := do
  let (left, bindings) ← normalizer.normalizeScalar left bindings
  let (right, bindings) ← normalizer.normalizeScalar right bindings
  some (.comparison op left right,
    specializeDecimalConstant right left (specializeDecimalConstant left right bindings))

def normalizeLeaf (leaf : PgPredicateLeafRef) (bindings : Bindings) :
    Option (FilterExpr × Bindings) :=
  match leaf with
  | .booleanTest kind value =>
    (normalizer.normalizeScalar value bindings).map fun (value, bindings) =>
      (.booleanTest kind value, bindings)
  | .comparison op left right =>
    if op.opno = textLikeOperator then normalizer.normalizeLikePrefix op left right bindings
    else
      match normalizer.normalizeNanComparison op left right bindings with
      | some normalized => some normalized
      | none => normalizer.normalizeComparison op left right bindings
  | .nullTest kind value =>
    (normalizer.normalizeScalar value bindings).map fun (value, bindings) =>
      match kind with
      | .isNull => (.isNull value, bindings)
      | .isNotNull => (.isNotNull value, bindings)
  | .startsWith value pre collation =>
    normalizer.normalizeStartsWith value pre collation bindings

/-- A node that is neither boolean nor a relabel. -/
def normalizeOther (bindings : Bindings) : Option (FilterExpr × Bindings) :=
  match expr with
  | .var _ _ vartype =>
    if vartype.typeOid = .bool then normalizer.normalizeBooleanColumn expr bindings else none
  | .scalarArrayOp node scalar array => normalizer.normalizeInSet node scalar array bindings
  | expr => (PgPredicateLeafRef.parse expr).bind fun leaf => normalizer.normalizeLeaf leaf bindings

def booleanNode : BoolExprType → List FilterExpr → Option FilterExpr
  | .and, children => some (.and children)
  | .or, children => some (.or children)
  | .not, [child] => some (.not child)
  | .not, _ => none

mutual

def normalizeNode : PgExpr → Bindings → Option (FilterExpr × Bindings)
  | .relabel arg _, bindings => normalizeNode arg bindings
  | .bool boolop args, bindings =>
    if args.isEmpty then none
    else do
      let (children, bindings) ← normalizeAll args bindings
      let node ← booleanNode boolop children
      some (node, bindings)
  | expr, bindings => normalizer.normalizeOther expr bindings

def normalizeAll : List PgExpr → Bindings → Option (List FilterExpr × Bindings)
  | [], bindings => some ([], bindings)
  | arg :: rest, bindings => do
    let (child, bindings) ← normalizeNode arg bindings
    let (children, bindings) ← normalizeAll rest bindings
    some (child :: children, bindings)

end

def normalize : Option NormalizedPredicate :=
  (normalizer.normalizeNode expr []).map fun (root, bindings) =>
    ⟨⟨root, bindings.map RuntimeValueExpr.metadata⟩, bindings, expr⟩

end RelationExpressionNormalizer

end LagoDB.Negotiation
