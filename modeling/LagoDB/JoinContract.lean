import LagoDB.JoinExecution

/-!
# What PostgreSQL's join paths yield

A path of a join relation yields the rows of its inputs joined under its clauses:
clauses moved into the inner input are checked there, for one outer row at a time,
pushed-down clauses of an outer join are checked above it. Every path of a relation
yields the relation's rows. The columns a semi- or antijoin drops are gone, and a
clause that names one means what it says about an equivalent column.
-/
namespace LagoDB.RelationTree

open SqlLogic Negotiation JoinAlgebra ExceptLoop

variable {σ : Type}

/-! ## Rows of paths -/

/-- The rows of a relation, and the relations whose columns they have. -/
structure Output where
  visible : Finset ℤ
  rows : Multiset (Row ℤ)
  supported : ∀ row ∈ rows, ∀ rti, rti ∉ visible → ∀ attno, row rti attno = none

/-- `IS_OUTER_JOIN`. -/
def PgJoinType.isOuterJoin : PgJoinType → Bool
  | .left | .full | .right | .anti | .rightAnti => true
  | .inner | .semi | .rightSemi => false

section PathRows

variable (truth : JoinRestriction → Row ℤ → Truth)

def allTrue (restrictions : List JoinRestriction) (row : Row ℤ) : Bool :=
  restrictions.all fun restriction => truth restriction row == some true

variable (relids : Finset ℤ)

/-- A clause checked above the join rather than for a match. -/
def isOtherQual (jointype : PgJoinType) (restriction : JoinRestriction) :
    Bool :=
  jointype.isOuterJoin && restriction.pushedDown relids

/-- The clauses that decide about a match. -/
def joinQuals (jointype : PgJoinType) (restrictions : List JoinRestriction) :
    List JoinRestriction :=
  restrictions.filter fun restriction => !isOtherQual relids jointype restriction

def otherQuals (jointype : PgJoinType)
    (restrictions : List JoinRestriction) : List JoinRestriction :=
  restrictions.filter (isOtherQual relids jointype)

/-- The pairs of a join before the filters above it. -/
def pathPairs (jointype : PgJoinType) (on : Row ℤ → Bool) (moved : List JoinRestriction)
    (outer inner : Multiset (Row ℤ)) : Multiset (Option (Row ℤ) × Option (Row ℤ)) :=
  let lookup (l : Row ℤ) := inner.filter fun r => allTrue truth moved (.merge l r) = true
  match jointype with
  | .inner => nestedRows .inner (fun l r => on (.merge l r)) outer lookup
  | .left => nestedRows .left (fun l r => on (.merge l r)) outer lookup
  | .semi => nestedRows .leftSemi (fun l r => on (.merge l r)) outer lookup
  | .anti => nestedRows .leftAnti (fun l r => on (.merge l r)) outer lookup
  | .right => joinRows .right (fun l r => on (.merge l r)) outer inner
  | .full => joinRows .full (fun l r => on (.merge l r)) outer inner
  | .rightSemi => joinRows .leftSemi (fun r l => on (.merge l r)) inner outer
  | .rightAnti => joinRows .leftAnti (fun r l => on (.merge l r)) inner outer

def pathRows (jointype : PgJoinType)
    (restrictions moved : List JoinRestriction) (outer inner : Multiset (Row ℤ)) :
    Multiset (Row ℤ) :=
  ((pathPairs truth jointype (allTrue truth (joinQuals relids jointype restrictions)) moved outer
    inner).map Row.joined).filter fun row =>
      allTrue truth (otherQuals relids jointype restrictions) row = true

end PathRows

/-- The columns of a row an input is made unique on. -/
def uniqueKey (columns : List (ℤ × ℤ)) (row : Row ℤ) : List PgValue :=
  columns.map fun column => row column.1 column.2

/-- An input yields its relation's rows, or one of each that agree on the columns it
is made unique on. -/
def InputPath.Yields (input : InputPath) (output : Output) (rows : Multiset (Row ℤ)) : Prop :=
  match input.uniqueOn with
  | none => rows = output.rows
  | some columns => rows ≤ output.rows ∧
      rows.map (uniqueKey columns) = (output.rows.map (uniqueKey columns)).dedup

/-- The relations whose columns a join hands on. -/
def PgJoinType.visible (outer inner : Finset ℤ) : PgJoinType → Finset ℤ
  | .semi | .anti => outer
  | .rightSemi | .rightAnti => inner
  | .inner | .left | .full | .right => outer ∪ inner

/-! ## The contract of a join path -/

/-- Two columns of one scope that PostgreSQL holds to be the same. -/
def Interchangeable (classes : List (List PgExpr)) (column other : ScanColumn) : Prop :=
  column = other ∨ ∃ members ∈ classes,
    (∃ member ∈ members, ∃ own,
      RelationTreePlanner.memberColumn column.scan.root member = some own ∧
      own.scan = column.scan ∧ own.attno = column.attno) ∧
    ∃ member ∈ members, RelationTreePlanner.memberColumn column.scan.root member = some other

/-- What PostgreSQL computes: the truth value of a clause at its join, the output of
a relation, and the rows a path hands to its join. -/
structure PgSemantics where
  context : QueryContext
  truth : JoinRestriction → Row ℤ → Truth
  output : RelOptInfo → Output
  input : InputPath → Multiset (Row ℤ)

def ScanColumn.value (column : ScanColumn) (row : Row ℤ) : PgValue :=
  row column.scan.rti column.attno

/-- How PostgreSQL plans one join. -/
structure PlannedJoin (planner : RelationTreePlanner σ) (sem : PgSemantics) (relids : Finset ℤ)
    (output : Output) (tag : JoinPathTag) (jointype : PgJoinType)
    (restrictions : List JoinRestriction) (outer inner : InputPath) : Prop where
  outerYields : outer.Yields (sem.output outer.parent) (sem.input outer)
  innerYields : inner.Yields (sem.output inner.parent) (sem.input inner)
  rows : output.rows = pathRows sem.truth relids jointype restrictions inner.moved
    (sem.input outer) (sem.input inner)
  /-- A unique input is for a semijoin that is run as an inner join. -/
  uniqueInner : outer.uniqueOn.isSome = true ∨ inner.uniqueOn.isSome = true → jointype = .inner
  visible : output.visible =
    jointype.visible (sem.output outer.parent).visible (sem.output inner.parent).visible
  disjoint : Disjoint (sem.output outer.parent).visible (sem.output inner.parent).visible
  /-- Only the inner input of a nested loop is parameterized by the other one. -/
  outerMoved : outer.moved = [] ∧ outer.ppiClauses = []
  innerMoved : inner.moved ≠ [] → tag = .nestLoop ∧
    (jointype = .inner ∨ jointype = .left ∨ jointype = .semi ∨ jointype = .anti)
  /-- A base relation lists the clauses moved into it, a join relation does not. -/
  ppiClauses : inner.ppiClauses = if inner.parent.isBase then inner.moved else []
  /-- A clause above an outer join is not moved below it. -/
  movedBelow : ∀ restriction ∈ inner.moved, isOtherQual relids jointype restriction = false
  /-- Clauses with one serial number are one condition. -/
  serials : ∀ restriction ∈ restrictions ++ inner.moved,
    ∀ other ∈ restrictions ++ inner.moved, restriction.rinfoSerial = other.rinfoSerial →
      restriction.pushedDown relids = other.pushedDown relids ∧
        ∀ row, sem.truth restriction row = sem.truth other row
  /-- A clause over columns the inputs hand on is evaluated on them. -/
  evaluates : ∀ restriction ∈ restrictions ++ inner.moved,
    (∀ column ∈ columnsOf restriction.clause, planner.isLocal planner.root column.1 = true →
      column.1 ∈ (sem.output outer.parent).visible ∪ (sem.output inner.parent).visible) →
    ∀ row, sem.truth restriction row =
      sem.context.clauseTruth planner.root row restriction.clause
  /-- A key clause means the same about interchangeable columns of the two inputs. -/
  equivalent : ∀ restriction ∈ restrictions ++ inner.moved, ∀ key,
    planner.lowerRestrictinfoJoinKey restriction = some key → ∀ first second,
      Interchangeable (planner.eqClasses planner.root) key.left first →
      Interchangeable (planner.eqClasses planner.root) key.right second →
      JoinKey.validateSemantics planner.facts ⟨first, second, key.operator⟩ = true →
      first.scan.rti ∈ (sem.output outer.parent).visible ∧
          second.scan.rti ∈ (sem.output inner.parent).visible ∨
        first.scan.rti ∈ (sem.output inner.parent).visible ∧
          second.scan.rti ∈ (sem.output outer.parent).visible →
      ∀ l ∈ (sem.output outer.parent).rows, ∀ r ∈ (sem.output inner.parent).rows,
        sem.truth restriction (.merge l r) =
          (sem.context.backend.operator key.operator
            [first.value (.merge l r), second.value (.merge l r)]).truth

/-! ## The contract of a relation -/

/-- What base relations yield, and that the trees built for them yield it wherever
PostgreSQL keeps to some laws. -/
structure BaseRelations (planner : RelationTreePlanner σ) where
  laws : QueryContext → Prop
  rows : QueryContext → ScanId → Multiset (ℤ → PgValue)
  built : ∀ scan allowMark, scan.root = planner.root →
    Yields (planner.buildBaseSubtree scan allowMark) fun node =>
      node.Outputs (fun emitted => emitted = scan) ∧
        ∀ context plan, laws context → node.plan planner.isLocal = some plan →
          plan.rows context = (rows context scan).map (QueryContext.scanRow scan)

def relationRow (rti : ℤ) (tuple : ℤ → PgValue) : Row ℤ :=
  fun relation => if relation = rti then tuple else fun _ => none

mutual

/-- Every standard path of a relation yields the relation's output. -/
def RelOptInfo.Consistent (planner : RelationTreePlanner σ) (base : BaseRelations planner)
    (sem : PgSemantics) : RelOptInfo → Prop
  | .base relid => base.laws sem.context ∧ (sem.output (.base relid)).visible = {relid} ∧
      (sem.output (.base relid)).rows =
        (base.rows sem.context ⟨planner.root, relid⟩).map (relationRow relid)
  | .join relids lateralRelids pathlist =>
    PathsConsistent planner base sem relids lateralRelids
      (sem.output (.join relids lateralRelids pathlist)) pathlist
  | .other => True

def PathsConsistent (planner : RelationTreePlanner σ) (base : BaseRelations planner)
    (sem : PgSemantics) (relids lateralRelids : Finset ℤ) (output : Output) : List Path → Prop
  | [] => True
  | path :: rest => PathConsistent planner base sem relids lateralRelids output path ∧
      PathsConsistent planner base sem relids lateralRelids output rest

def PathConsistent (planner : RelationTreePlanner σ) (base : BaseRelations planner)
    (sem : PgSemantics) (relids lateralRelids : Finset ℤ) (output : Output) : Path → Prop
  | .wrapped _ _ subpath => PathConsistent planner base sem relids lateralRelids output subpath
  | .join tag _ jointype paramInfo restrictions (.mk outer outerParam outerMoved outerUnique)
      (.mk inner innerParam innerMoved innerUnique) =>
    (paramInfo.map ParamPathInfo.ppiReqOuter).getD ∅ = lateralRelids →
      PlannedJoin planner sem relids output tag jointype restrictions
          (.mk outer outerParam outerMoved outerUnique)
          (.mk inner innerParam innerMoved innerUnique) ∧
        RelOptInfo.Consistent planner base sem outer ∧
          RelOptInfo.Consistent planner base sem inner
  | .other _ => True

end

end LagoDB.RelationTree
