import LagoDB.JoinAlgebra
import LagoDB.PgExpression

/-!
# Relation trees and their execution

A relation tree has scans at its leaves, joins with keys and match filters, and
filters above joins. It is materialized as a query node, checked, and compiled to
a DataFusion plan, whose rows are multisets.
-/
namespace LagoDB.RelationTree

open SqlLogic Iceberg Negotiation JoinAlgebra

/-! ## Columns, keys and expressions -/

/-- A scan, named by the planner scope and the range table index it stands for. -/
structure ScanId where
  root : ℕ
  rti : ℤ
  deriving DecidableEq

structure ScanColumn where
  scan : ScanId
  attno : ℤ
  declaredType : ExprType
  valueType : ExprType
  deriving DecidableEq

def ScanColumn.sameStorageColumn (column other : ScanColumn) : Bool :=
  column.scan = other.scan && column.attno = other.attno &&
    column.declaredType = other.declaredType

/-- A lowered expression, kept as the clause it was lowered from and the scope the
clause belongs to. -/
structure ExecutionExpr where
  root : ℕ
  expr : PgExpr

inductive JoinType where
  | inner
  | left
  | right
  | full
  | leftSemi
  | leftAnti
  | leftMark
  deriving DecidableEq

def JoinType.emitsRight : JoinType → Bool
  | .leftSemi | .leftAnti | .leftMark => false
  | _ => true

structure JoinKey where
  left : ScanColumn
  right : ScanColumn
  operator : PgComparisonOp
  deriving DecidableEq

/-- What PostgreSQL's catalogs say about types and operators. -/
structure TypeFacts where
  catalog : Catalog
  utf8ServerEncoding : Bool
  decimal128 : ExprType → Bool
  isBinaryCoercible : TypeOid → TypeOid → Bool
  opHashjoinable : ℕ → TypeOid → Bool

namespace JoinKey

variable (facts : TypeFacts)

def supportsType (valueType : ExprType) : Bool :=
  match valueType.typeOid with
  | .bool | .int2 | .int4 | .int8 | .date | .uuid =>
    valueType.typmod = -1 && valueType.collation = 0
  | .text =>
    valueType.typmod = -1 && facts.utf8ServerEncoding && valueType.collation ≠ 0 &&
      facts.catalog.isDeterministic valueType.collation
  | .numeric => facts.decimal128 valueType
  | _ => false

def supportsOperatorSemantics (valueType : ExprType) (operator : PgComparisonOp) : Bool :=
  if valueType.typeOid = .text then
    operator.inputcollid = valueType.collation && operator.opcollid = 0 &&
      (match facts.catalog.forOperator operator.opno with
      | some signature =>
        signature.leftType = .text && signature.rightType = .text && signature.kind = .equal &&
          operator.inputcollid ≠ 0 && facts.catalog.isDeterministic operator.inputcollid
      | none => false)
  else operator.opcollid = 0 && operator.inputcollid = 0

def validateSemantics (key : JoinKey) : Bool :=
  key.left.valueType = key.right.valueType && supportsType facts key.left.valueType &&
    supportsOperatorSemantics facts key.left.valueType key.operator &&
    (match facts.catalog.forOperator key.operator.opno with
    | some signature =>
      signature.leftType = key.left.valueType.typeOid &&
        signature.rightType = key.right.valueType.typeOid && signature.kind = .equal
    | none => false)

def tryNew (left right : ScanColumn) (operator : PgComparisonOp) : Option JoinKey :=
  if validateSemantics facts ⟨left, right, operator⟩ then some ⟨left, right, operator⟩ else none

end JoinKey

/-! ## Relation trees -/

structure RelationMarkFilter where
  nullTest : ScanColumn
  anti : Bool
  deriving DecidableEq

inductive RelationNode where
  | scan (scan : ScanId) (filter : List ExecutionExpr)
  | join (joinType : JoinType) (left right : RelationNode) (keys : List JoinKey)
    (onFilters : List ExecutionExpr) (nullAware : Bool) (markFilter : Option RelationMarkFilter)
  | filter (input : RelationNode) (predicates : List ExecutionExpr)

namespace RelationNode

def emits (scan : ScanId) : RelationNode → Bool
  | .scan own _ => own = scan
  | .join joinType left right _ _ _ _ =>
    left.emits scan || (joinType.emitsRight && right.emits scan)
  | .filter input _ => input.emits scan

end RelationNode

/-! ## Query nodes -/

structure JoinNode where
  joinType : JoinType
  keys : List JoinKey
  onFilter : List ExecutionExpr
  nullAware : Bool
  markFilter : Option RelationMarkFilter

namespace JoinNode

def new (joinType : JoinType) (keys : List JoinKey) (onFilter : List ExecutionExpr) :
    Option JoinNode :=
  let keylessSemiAnti := keys.isEmpty && (joinType = .leftSemi || joinType = .leftAnti)
  if joinType = .leftMark || (keys.isEmpty && !keylessSemiAnti) then none
  else some ⟨joinType, keys, onFilter, false, none⟩

def newNullAwareAnti (key : JoinKey) : Option JoinNode :=
  some ⟨.leftAnti, [key], [], true, none⟩

def newFilteredMarkSubplan (key : JoinKey) (filter : RelationMarkFilter) : Option JoinNode :=
  if filter.nullTest.sameStorageColumn key.left then
    some ⟨.leftMark, [key], [], false, some filter⟩
  else none

end JoinNode

inductive QueryNode where
  | scan (scan : ScanId) (filter : List ExecutionExpr)
  | join (node : JoinNode) (left right : QueryNode)
  | filter (input : QueryNode) (predicates : List ExecutionExpr)

/-- The join a tree's join is materialized as. -/
def RelationNode.joinNode (joinType : JoinType) (keys : List JoinKey)
    (onFilters : List ExecutionExpr) (nullAware : Bool) (markFilter : Option RelationMarkFilter) :
    Option JoinNode :=
  match markFilter, nullAware, keys with
  | some mark, _, [key] => JoinNode.newFilteredMarkSubplan key mark
  | some _, _, _ => none
  | none, true, [key] => JoinNode.newNullAwareAnti key
  | none, true, _ => none
  | none, false, keys => JoinNode.new joinType keys onFilters

/-- An empty conjunction is no filter. -/
def RelationNode.materialize : RelationNode → Option QueryNode
  | .scan own predicates => some (.scan own predicates)
  | .join joinType left right keys onFilters nullAware markFilter => do
    let left ← left.materialize
    let right ← right.materialize
    let node ← joinNode joinType keys onFilters nullAware markFilter
    pure (.join node left right)
  | .filter input predicates => do
    let input ← input.materialize
    match predicates with
    | [] => pure input
    | predicates => pure (.filter input predicates)

/-! ## Validation -/

mutual

/-- The columns an expression reads, as range table index and attribute number. -/
def columnsOf : PgExpr → List (ℤ × ℤ)
  | .var varno varattno _ => [(varno, varattno)]
  | .const .. | .param .. => []
  | .relabel arg _ => columnsOf arg
  | .func _ args => columnsOfAll args
  | .op _ args => columnsOfAll args
  | .scalarArrayOp _ scalar array => columnsOf scalar ++ columnsOf array
  | .bool _ args => columnsOfAll args
  | .nullTest _ _ arg => columnsOf arg
  | .booleanTest _ arg => columnsOf arg
  | .other _ _ args => columnsOfAll args

def columnsOfAll : List PgExpr → List (ℤ × ℤ)
  | [] => []
  | arg :: rest => columnsOf arg ++ columnsOfAll rest

end

/-- The scans an expression reads; other columns are bound once per execution. -/
def ExecutionExpr.scans (isLocal : ℕ → ℤ → Bool) (expr : ExecutionExpr) : List ScanId :=
  ((columnsOf expr.expr).filter fun column => isLocal expr.root column.1).map fun column =>
    ⟨expr.root, column.1⟩

namespace QueryNode

def columns : QueryNode → List ScanId
  | .scan own _ => [own]
  | .join node left right =>
    if node.joinType.emitsRight then left.columns ++ right.columns else left.columns
  | .filter input _ => input.columns

/-- Expressions read only what their input hands on. -/
def validate (isLocal : ℕ → ℤ → Bool) : QueryNode → Bool
  | .scan own predicates =>
    predicates.all fun expr => (expr.scans isLocal).all fun read => read = own
  | .join node left right =>
    left.validate isLocal && right.validate isLocal &&
      node.keys.all (fun key =>
        left.columns.contains key.left.scan && right.columns.contains key.right.scan) &&
      node.onFilter.all (fun expr => (expr.scans isLocal).all fun read =>
        left.columns.contains read || right.columns.contains read) &&
      node.markFilter.all fun mark => left.columns.contains mark.nullTest.scan
  | .filter input predicates =>
    input.validate isLocal &&
      predicates.all fun expr => (expr.scans isLocal).all fun read => input.columns.contains read

end QueryNode

/-! ## DataFusion plans -/

inductive DfExpr where
  | exec (expr : ExecutionExpr)
  | keyEq (key : JoinKey)
  | isNull (column : ScanColumn)
  | or (left right : DfExpr)
  | lit (value : Bool)

open DfExpr

inductive DfPlan where
  | scan (scan : ScanId)
  | filter (input : DfPlan) (predicates : List DfExpr)
  | joinOn (kind : JoinKind) (left right : DfPlan) (on : List DfExpr)
  | nullAwareAnti (left right : DfPlan) (predicate : DfExpr)
  /-- A LeftMark join, the filter on its mark, and the projection that drops it. -/
  | markFilter (left right : DfPlan) (on : List DfExpr) (filter : RelationMarkFilter)

def JoinType.toKind : JoinType → Option JoinKind
  | .inner => some .inner
  | .left => some .left
  | .right => some .right
  | .full => some .full
  | .leftSemi => some .leftSemi
  | .leftAnti => some .leftAnti
  | .leftMark => none

namespace JoinNode

variable (node : JoinNode)

/-- The conditions of `join_on`. A join without any is a keyless semi- or antijoin. -/
def conditions : List DfExpr :=
  let on := node.keys.map keyEq ++ node.onFilter.map exec
  if on.isEmpty && (node.joinType = .leftSemi || node.joinType = .leftAnti) then [.lit true]
  else on

/-- An antijoin on the mark also matches inner NULLs. -/
def markConditions (filter : RelationMarkFilter) : Option (List DfExpr) :=
  if filter.anti then
    match node.conditions, node.keys with
    | [equality], key :: _ => some [.or equality (.isNull key.right)]
    | _, _ => none
  else some node.conditions

def compile (left right : DfPlan) : Option DfPlan :=
  if node.nullAware then
    match node.conditions with
    | [predicate] => some (.nullAwareAnti left right predicate)
    | _ => none
  else
    match node.markFilter with
    | some filter => (node.markConditions filter).map fun on => .markFilter left right on filter
    | none => node.joinType.toKind.map fun kind => .joinOn kind left right node.conditions

end JoinNode

def QueryNode.compile : QueryNode → Option DfPlan
  | .scan own [] => some (.scan own)
  | .scan own predicates => some (.filter (.scan own) (predicates.map exec))
  | .join node left right => do
    let left ← left.compile
    let right ← right.compile
    node.compile left right
  | .filter input predicates => do
    let input ← input.compile
    pure (.filter input (predicates.map exec))

/-! ## Rows -/

/-- Values of columns, NULL where a row has no such column. -/
abbrev Row (ι : Type) := ι → ℤ → PgValue

def Row.null {ι : Type} : Row ι := fun _ _ => none

/-- Two rows with different columns, side by side. -/
def Row.merge {ι : Type} (left right : Row ι) : Row ι :=
  fun relation attno => (left relation attno).or (right relation attno)

/-- A row of a join; a missing half is all NULLs. -/
def Row.joined {ι : Type} (pair : Option (Row ι) × Option (Row ι)) : Row ι :=
  Row.merge (pair.1.getD .null) (pair.2.getD .null)

structure QueryContext where
  backend : Backend
  env : Environment
  isLocal : ℕ → ℤ → Bool
  contents : ScanId → Multiset (ℤ → PgValue)

namespace QueryContext

variable (context : QueryContext)

/-- The truth value of a clause of one scope, given the columns of that scope's
relations. -/
def clauseTruth (root : ℕ) (row : Row ℤ) (clause : PgExpr) : Truth :=
  let lookup : ℤ → ℤ → PgValue := fun varno varattno =>
    if context.isLocal root varno then row varno varattno else context.env.outer varno varattno
  (clause.eval context.backend 0 ⟨context.env.param, lookup⟩ (lookup 0)).truth

def scopeRow (root : ℕ) (row : Row ScanId) : Row ℤ := fun rti => row ⟨root, rti⟩

def execTruth (row : Row ScanId) (expr : ExecutionExpr) : Truth :=
  context.clauseTruth expr.root (scopeRow expr.root row) expr.expr

def keyTruth (row : Row ScanId) (key : JoinKey) : Truth :=
  (context.backend.operator key.operator
    [row key.left.scan key.left.attno, row key.right.scan key.right.attno]).truth

def scanRow (scan : ScanId) (tuple : ℤ → PgValue) : Row ScanId :=
  fun relation => if relation = scan then tuple else fun _ => none

end QueryContext

def DfExpr.eval (context : QueryContext) (row : Row ScanId) : DfExpr → Truth
  | .exec expr => context.execTruth row expr
  | .keyEq key => context.keyTruth row key
  | .isNull column => some (row column.scan column.attno).isNone
  | .or left right => Truth.or (left.eval context row) (right.eval context row)
  | .lit value => some value

def DfExpr.holds (context : QueryContext) (on : List DfExpr) (row : Row ScanId) : Bool :=
  on.all fun condition => condition.eval context row == some true

/-- What DataFusion returns. A null-aware antijoin is SQL's NOT IN. -/
def DfPlan.rows (context : QueryContext) : DfPlan → Multiset (Row ScanId)
  | .scan own => (context.contents own).map (QueryContext.scanRow own)
  | .filter input predicates =>
    (input.rows context).filter fun row => holds context predicates row = true
  | .joinOn kind left right on =>
    (joinRows kind (fun l r => holds context on (.merge l r)) (left.rows context)
      (right.rows context)).map Row.joined
  | .nullAwareAnti left right predicate =>
    (left.rows context).filter fun l => hasMatch (fun l r =>
      predicate.eval context (.merge l r) ≠ some false) (right.rows context) l = false
  | .markFilter left right on mark =>
    (left.rows context).filter fun l =>
      (hasMatch (fun l r => holds context on (.merge l r)) (right.rows context) l ==
        !mark.anti) = true ∨ l mark.nullTest.scan mark.nullTest.attno = none

/-- The plan of a tree, if it can be built and passes validation. -/
def RelationNode.plan (isLocal : ℕ → ℤ → Bool) (tree : RelationNode) : Option DfPlan := do
  let node ← tree.materialize
  if node.validate isLocal then node.compile else none

end LagoDB.RelationTree
