import LagoDB.JoinReconstruction

/-!
# Lifting SubPlans out of base restrictions

A restriction of a base relation may hold an uncorrelated subquery. The recognised
shapes are taken off the list and become joins over the scan: EXISTS and IN
semijoins, NOT EXISTS and NOT IN antijoins, and `OR x IS NULL` around an IN a mark
join with a filter on the mark. Everything else with a SubPlan in it is declined.
-/
namespace LagoDB.RelationTree

open Negotiation

variable {σ : Type}

/-! ## Clauses with SubPlans -/

inductive SubLinkType where
  | existsSublink
  | anySublink
  | other
  deriving DecidableEq

/-- A SubPlan. PostgreSQL gives it a test exactly where the construct compares. -/
structure SubPlan where
  subLinkType : SubLinkType
  testexpr : Option PgExpr
  paramIds : List ℕ
  planId : ℤ
  parParam : List ℕ
  exists_test : subLinkType = .existsSublink → testexpr = none
  any_test : subLinkType = .anySublink → testexpr.isSome = true

/-- A clause down to its SubPlans; `expr` has none in it, `other` has some in a place
that is not looked into. -/
inductive RestrictionClause where
  | expr (expr : PgExpr)
  | subplan (subplan : SubPlan)
  | alternatives (subplans : List SubPlan)
  | bool (boolop : BoolExprType) (args : List RestrictionClause)
  | restrictInfo (clause : RestrictionClause)
  | other (tag : ℕ)

namespace RestrictionClause

mutual

/-- The clause itself, unless `contain_subplans`. -/
def withoutSubplans : RestrictionClause → Option PgExpr
  | .expr clause => some clause
  | .bool boolop args => (withoutSubplansAll args).map (.bool boolop)
  | .restrictInfo clause => clause.withoutSubplans
  | .subplan _ | .alternatives _ | .other _ => none

def withoutSubplansAll : List RestrictionClause → Option (List PgExpr)
  | [] => some []
  | arg :: rest =>
    match arg.withoutSubplans, withoutSubplansAll rest with
    | some arg, some rest => some (arg :: rest)
    | _, _ => none

end

def unwrapRestriction : RestrictionClause → RestrictionClause
  | .restrictInfo clause => clause
  | clause => clause

def unwrapNot : RestrictionClause → RestrictionClause × Bool
  | .bool .not [arg] => (arg, true)
  | clause => (clause, false)

def firstSubplan : RestrictionClause → Option SubPlan
  | .subplan own => some own
  | .alternatives (first :: _) => some first
  | _ => none

end RestrictionClause

structure BaseRestriction where
  clause : RestrictionClause
  orclause : Option RestrictionClause

structure TargetEntry where
  expr : PgExpr
  resjunk : Bool

structure LiftedSubPlan where
  subplan : SubPlan
  innerRoot : ℕ
  anti : Bool

structure LiftedMarkSubPlan extends LiftedSubPlan where
  nullVarno : ℤ
  nullAttno : ℤ

structure ClassifiedRestrictions where
  ordinaryClauses : List PgExpr
  topLevel : List LiftedSubPlan
  mark : List LiftedMarkSubPlan

def ClassifiedRestrictions.new : ClassifiedRestrictions := ⟨[], [], []⟩

/-- The planner with the restrictions of base relations and what is known about
subqueries, by their planner scope. The scope of a subquery is registered before
its tree is built. -/
structure SubplanPlanner (σ : Type) extends RelationTreePlanner σ where
  baserestrictinfo : ScanId → List BaseRestriction
  subroots : List (Option ℕ)
  subqueryShapeIsSupported : ℕ → Bool
  findFinalRelation : ℕ → Option RelOptInfo
  targetList : ℕ → List TargetEntry
  addScope : ℕ → Planning σ Unit
  buildInnerSubtree : ℕ → RelOptInfo → Bool → Planning σ RelationNode

namespace SubplanPlanner

variable (planner : SubplanPlanner σ)

/-! ## Recognition -/

/-- Plan ids count from one. -/
def innerRoot (planId : ℤ) : Option ℕ :=
  if 0 < planId then (planner.subroots[(planId - 1).toNat]?).join else none

def extractSubplan (clause : RestrictionClause) : Option LiftedSubPlan := do
  let subplan ← clause.unwrapNot.1.firstSubplan
  if subplan.subLinkType = .existsSublink ∨ subplan.subLinkType = .anySublink then
    let innerRoot ← planner.innerRoot subplan.planId
    some ⟨subplan, innerRoot, clause.unwrapNot.2⟩
  else none

def isVar (varno varattno : ℤ) (expr : PgExpr) : Bool :=
  match expr.withoutRelabels with
  | .var otherVarno otherVarattno _ => otherVarno = varno && otherVarattno = varattno
  | _ => false

def testexprReferencesVar (testexpr : PgExpr) (varno varattno : ℤ) : Bool :=
  match testexpr with
  | .op _ [first, second] => isVar varno varattno first || isVar varno varattno second
  | _ => false

def nullTestedVar : RestrictionClause → Option (ℤ × ℤ)
  | .expr (.nullTest .isNull _ arg) =>
    match arg.withoutRelabels with
    | .var varno varattno _ => if 0 < varattno then some (varno, varattno) else none
    | _ => none
  | _ => none

def matchMarkBranches (nullBranch subplanBranch : RestrictionClause) :
    Option LiftedMarkSubPlan := do
  let (varno, varattno) ← nullTestedVar nullBranch
  let lifted ← planner.extractSubplan subplanBranch
  let testexpr ← lifted.subplan.testexpr
  if lifted.subplan.subLinkType = .anySublink ∧ testexprReferencesVar testexpr varno varattno then
    some ⟨lifted, varno, varattno⟩
  else none

def extractMarkSubplan : RestrictionClause → Option LiftedMarkSubPlan
  | .bool .or [first, second] =>
    (planner.matchMarkBranches first.unwrapRestriction second.unwrapRestriction).or
      (planner.matchMarkBranches second.unwrapRestriction first.unwrapRestriction)
  | _ => none

/-- A clause with an unrecognised SubPlan cannot be left for PostgreSQL. -/
def classifyRestriction (classified : ClassifiedRestrictions) (restriction : BaseRestriction) :
    Option ClassifiedRestrictions :=
  match planner.extractSubplan restriction.clause with
  | some lifted => some { classified with topLevel := classified.topLevel ++ [lifted] }
  | none =>
    match planner.extractMarkSubplan (restriction.orclause.getD restriction.clause) with
    | some lifted => some { classified with mark := classified.mark ++ [lifted] }
    | none =>
      match restriction.clause.withoutSubplans with
      | some clause =>
        some { classified with ordinaryClauses := classified.ordinaryClauses ++ [clause] }
      | none => none

def classifyRestrictions (restrictions : List BaseRestriction) : Option ClassifiedRestrictions :=
  restrictions.foldlM planner.classifyRestriction .new

/-! ## Keys of SubPlans -/

/-- The first target that is not junk, if it is a column. -/
def subplanOutput (innerRoot : ℕ) : Option PgExpr := do
  let target ← (planner.targetList innerRoot).find? fun target => !target.resjunk
  match target.expr.withoutRelabels with
  | .var .. => some target.expr
  | _ => none

/-- The operand of a test that is not the SubPlan's parameter. -/
def outerOperand (paramId : ℕ) (first second : PgExpr) : Option PgExpr :=
  match first.withoutRelabels, second.withoutRelabels with
  | .var .., .param kind id _ => if kind = .exec ∧ id = paramId then some first else none
  | .param kind id _, .var .. => if kind = .exec ∧ id = paramId then some second else none
  | _, _ => none

/-- The key has the outer column on its left, whatever the order in the test. -/
def lowerSubplanJoinKey (lifted : LiftedSubPlan) (innerOutput : PgExpr) : Option JoinKey :=
  match lifted.subplan.paramIds, lifted.subplan.testexpr with
  | [paramId], some (.op node [first, second]) => do
    let outerExpression ← outerOperand paramId first second
    let outer ← planner.inspectJoinColumn planner.root outerExpression
    let inner ← planner.inspectJoinColumn lifted.innerRoot innerOutput
    if planner.facts.opHashjoinable node.opno outer.valueType.typeOid then
      JoinKey.tryNew planner.facts outer inner node
    else none
  | _, _ => none

/-! ## Joins over the scan -/

def buildSubplanInput (lifted : LiftedSubPlan) (allowMark : Bool) :
    Planning σ (RelationNode × Option PgExpr) := do
  if !lifted.subplan.parParam.isEmpty || !planner.subqueryShapeIsSupported lifted.innerRoot then
    decline
  else
    let relation ← orDecline (planner.findFinalRelation lifted.innerRoot)
    planner.addScope lifted.innerRoot
    let inner ← planner.buildInnerSubtree lifted.innerRoot relation allowMark
    match lifted.subplan.testexpr with
    | none => pure (inner, none)
    | some _ =>
      let output ← orDecline (planner.subplanOutput lifted.innerRoot)
      pure (inner, some output)

def subplanKey (left right : RelationNode) (lifted : LiftedSubPlan)
    (innerOutput : Option PgExpr) : Planning σ JoinKey := do
  let innerOutput ← orDecline innerOutput
  let key ← orDecline (planner.lowerSubplanJoinKey lifted innerOutput)
  let oriented ← planner.orientJoinKey left right key
  orDecline oriented

def wrapTopLevelSubplan (left : RelationNode) (lifted : LiftedSubPlan) :
    Planning σ RelationNode := do
  let input ← planner.buildSubplanInput lifted false
  let joinType := if lifted.anti then JoinType.leftAnti else JoinType.leftSemi
  match lifted.subplan.testexpr with
  | none => pure (.join joinType left input.1 [] [] false none)
  | some _ =>
    let key ← planner.subplanKey left input.1 lifted input.2
    pure (.join joinType left input.1 [key] [] lifted.anti none)

def wrapMarkSubplan (left : RelationNode) (lifted : LiftedMarkSubPlan) :
    Planning σ RelationNode := do
  let input ← planner.buildSubplanInput lifted.toLiftedSubPlan true
  let key ← planner.subplanKey left input.1 lifted.toLiftedSubPlan input.2
  if planner.isLocal planner.root lifted.nullVarno ∧
      key.left.scan = ⟨planner.root, lifted.nullVarno⟩ ∧ key.left.attno = lifted.nullAttno then
    pure (.join .leftMark left input.1 [key] [] false (some ⟨key.left, lifted.anti⟩))
  else decline

def buildScanWithRestrictions (scan : ScanId) (allowMark : Bool) : Planning σ RelationNode := do
  let restrictions ← orDecline (planner.classifyRestrictions (planner.baserestrictinfo scan))
  if !allowMark && !restrictions.mark.isEmpty then decline
  else
    let filter := restrictions.ordinaryClauses.map (ExecutionExpr.mk planner.root)
    filter.forM planner.lower
    let lifted ← restrictions.topLevel.foldlM planner.wrapTopLevelSubplan (.scan scan filter)
    restrictions.mark.foldlM planner.wrapMarkSubplan lifted

end SubplanPlanner

end LagoDB.RelationTree
