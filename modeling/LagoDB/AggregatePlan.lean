import LagoDB.RelationTree

/-!
# Aggregate plans

An upper plan computes groups and aggregates, filters them by HAVING and projects
one output to each position of the target list. Groups come from the planner's own
clause list, aggregates from the target list and from HAVING, each computed once.
-/
namespace LagoDB.Aggregate

open Iceberg RelationTree

/-! ## Expressions -/

/-- A PostgreSQL expression: columns, aggregates, and all other nodes. -/
inductive Node (C A F : Type) where
  | column (column : C)
  | aggref (aggregate : A)
  | call (kind : F) (args : List (Node C A F))

namespace Node

variable {C A F V : Type}

section Equal

variable [DecidableEq C] [DecidableEq A] [DecidableEq F]

mutual

/-- `pg_sys::equal`. -/
def equal : Node C A F → Node C A F → Bool
  | .column c, .column other => c = other
  | .aggref aggregate, .aggref other => aggregate = other
  | .call kind args, .call other otherArgs => kind = other && equalAll args otherArgs
  | _, _ => false

def equalAll : List (Node C A F) → List (Node C A F) → Bool
  | [], [] => true
  | arg :: rest, other :: others => equal arg other && equalAll rest others
  | _, _ => false

end

mutual

lemma equal_iff : ∀ a b : Node C A F, equal a b = true ↔ a = b
  | .column c, .column other => by simp [equal]
  | .aggref aggregate, .aggref other => by simp [equal]
  | .call kind args, .call other otherArgs => by simp [equal, equalAll_iff args otherArgs]
  | .column _, .aggref _ | .column _, .call _ _ | .aggref _, .column _ | .aggref _, .call _ _
  | .call _ _, .column _ | .call _ _, .aggref _ => by simp [equal]

lemma equalAll_iff : ∀ args os : List (Node C A F), equalAll args os = true ↔ args = os
  | [], [] => by simp [equalAll]
  | [], _ :: _ | _ :: _, [] => by simp [equalAll]
  | arg :: rest, other :: os => by
    simp [equalAll, equal_iff arg other, equalAll_iff rest os]

end

instance : DecidableEq (Node C A F) := fun a b => decidable_of_iff _ (equal_iff a b)

end Equal

mutual

def eval (apply : F → List V → V) (column : C → V) (aggregate : A → V) : Node C A F → V
  | .column c => column c
  | .aggref a => aggregate a
  | .call kind args => apply kind (evalAll apply column aggregate args)

def evalAll (apply : F → List V → V) (column : C → V) (aggregate : A → V) :
    List (Node C A F) → List V
  | [] => []
  | arg :: rest => eval apply column aggregate arg :: evalAll apply column aggregate rest

end

mutual

/-- `pull_var_clause` with aggregates included: it does not look inside them. -/
def pulled : Node C A F → List (Node C A F)
  | .column c => [.column c]
  | .aggref a => [.aggref a]
  | .call _ args => pulledAll args

def pulledAll : List (Node C A F) → List (Node C A F)
  | [] => []
  | arg :: rest => pulled arg ++ pulledAll rest

end

mutual

/-- The aggregates outside of other aggregates. -/
def aggrefs : Node C A F → List A
  | .column _ => []
  | .aggref a => [a]
  | .call _ args => aggrefsAll args

def aggrefsAll : List (Node C A F) → List A
  | [] => []
  | arg :: rest => aggrefs arg ++ aggrefsAll rest

end

end Node

/-! ## Aggregate calls -/

structure SortGroupClause where
  tleSortGroupRef : ℕ
  eqop : ℕ
  sortop : ℕ
  nullsFirst : Bool
  hashable : Bool
  deriving DecidableEq

structure TargetEntry (E : Type) where
  expr : E
  ressortgroupref : ℕ
  resjunk : Bool
  deriving DecidableEq

def sortgrouprefTle {E : Type} (ref : ℕ) (targetList : List (TargetEntry E)) :
    Option (TargetEntry E) :=
  targetList.find? fun entry => entry.ressortgroupref = ref

inductive AggSplit where
  | simple
  | initialSerial
  | finalDeserial
  deriving DecidableEq

/-- An expression over one input row. -/
abbrev Scalar (C F : Type) := Node C Empty F

structure Aggref (C F : Type) where
  aggfnoid : ℕ
  aggtype : ExprType
  aggdirectargs : List (Scalar C F)
  args : List (TargetEntry (Scalar C F))
  aggorder : List SortGroupClause
  aggdistinct : List SortGroupClause
  aggfilter : Option (Scalar C F)
  aggstar : Bool
  aggvariadic : Bool
  agglevelsup : ℕ
  aggsplit : AggSplit
  deriving DecidableEq

/-- An expression over a group. -/
abbrev Upper (C F : Type) := Node C (Aggref C F) F

inductive AggregateKind where
  | count
  | min
  | max
  | sum
  | average
  | numericSum
  | numericAverage
  | varianceSample
  | variancePopulation
  | stddevSample
  | stddevPopulation
  | boolAnd
  | boolOr
  | arrayAgg
  | stringAgg
  deriving DecidableEq

def AggregateKind.honorsOrderBy : AggregateKind → Bool
  | .arrayAgg | .stringAgg => true
  | _ => false

/-- Moments and extrema of floating-point values depend on the order of the rows. -/
def AggregateKind.dependsOnInputOrder (floatArgument : Bool) : AggregateKind → Bool
  | .arrayAgg | .stringAgg => true
  | .min | .max | .sum | .average | .varianceSample | .variancePopulation | .stddevSample
  | .stddevPopulation => floatArgument
  | .count | .numericSum | .numericAverage | .boolAnd | .boolOr => false

inductive AggregateArguments (C F : Type) where
  | none
  | unary (argument : Scalar C F)
  | stringAgg (value : Scalar C F) (delimiter : Bytes)

def AggregateArguments.primary {C F : Type} : AggregateArguments C F → Option (Scalar C F)
  | .none => Option.none
  | .unary argument | .stringAgg argument _ => some argument

structure AggregateOrderExpr (C F : Type) where
  expression : Scalar C F
  ascending : Bool
  nullsFirst : Bool

structure AggCall (C F : Type) where
  functionOid : ℕ
  kind : AggregateKind
  arguments : AggregateArguments C F
  distinct : Bool
  orderBy : List (AggregateOrderExpr C F)
  filter : Option (Scalar C F)
  resultType : ExprType
  output : ℕ

namespace AggCall

variable {C F : Type}

def nullable (call : AggCall C F) : Bool := call.kind ≠ .count

/-- The exact NUMERIC sums are binary and cannot be compared. -/
def supportsHavingResult (call : AggCall C F) : Bool :=
  match call.kind with
  | .numericSum | .numericAverage => false
  | _ => true

end AggCall

/-! ## The planner -/

inductive Lowered (C F : Type) where
  | group (expr : Upper C F)
  | argument (expr : Scalar C F)
  | filter (expr : Scalar C F)
  | order (expr : Scalar C F)
  | having (expr : Upper C F)

/-- Catalog facts and the parts of planning that keep state or may decline. -/
structure AggregatePlanner (σ C F : Type) where
  facts : TypeFacts
  equalityOperator : TypeOid → Option ℕ
  exprType : Upper C F → ExprType
  isDirectColumn : Scalar C F → Bool
  isFloat : Scalar C F → Bool
  stringAggFunction : ℕ
  stringAggDelimiter : Scalar C F → Option Bytes
  classify : ℕ → AggregateArguments C F → Option AggregateKind
  /-- `validate_argument_type`. -/
  supportsArgument : AggregateKind → AggregateArguments C F → Bool
  sortDirection : ℕ → Option Bool
  supportsOrder : Scalar C F → Bool
  lower : Lowered C F → Planning σ Unit

namespace AggregatePlanner

variable {σ C F : Type} [DecidableEq C] [DecidableEq F] (planner : AggregatePlanner σ C F)

/-! ### Aggregates -/

def semanticArguments (args : List (TargetEntry (Scalar C F))) : List (Scalar C F) :=
  (args.filter fun entry => !entry.resjunk).map TargetEntry.expr

variable (aggregate : Aggref C F)

def buildArguments : Planning σ (AggregateArguments C F) :=
  if aggregate.aggstar then
    if semanticArguments aggregate.args = [] then pure .none else decline
  else if aggregate.aggfnoid = planner.stringAggFunction then
    match semanticArguments aggregate.args with
    | [value, delimiter] => do
      planner.lower (.argument value)
      let delimiter ← orDecline (planner.stringAggDelimiter delimiter)
      pure (.stringAgg value delimiter)
    | _ => decline
  else
    match semanticArguments aggregate.args with
    | [argument] => do
      planner.lower (.argument argument)
      pure (.unary argument)
    | _ => decline

def lowerFilter : Option (Scalar C F) → Planning σ Unit
  | none => pure ()
  | some filter => planner.lower (.filter filter)

/-- `AggCall::try_new`: only a direct column may be read under a FILTER. -/
def tryNew (arguments : AggregateArguments C F) (output : ℕ) :
    Option (AggCall C F) := do
  let kind ← planner.classify aggregate.aggfnoid arguments
  if aggregate.aggfilter.isSome && arguments.primary.any fun argument =>
      !planner.isDirectColumn argument then none
  else if planner.supportsArgument kind arguments then
    some ⟨aggregate.aggfnoid, kind, arguments, aggregate.aggdistinct ≠ [], [], aggregate.aggfilter,
      aggregate.aggtype, output⟩
  else none

/-- One ORDER BY item; it is kept only if the implementation honors it. -/
def buildOrderItem (call : AggCall C F)
    (orderBy : List (AggregateOrderExpr C F)) (clause : SortGroupClause) :
    Planning σ (List (AggregateOrderExpr C F)) := do
  let target ← orDecline (sortgrouprefTle clause.tleSortGroupRef aggregate.args)
  if !planner.isDirectColumn target.expr then decline
  else
    let ascending ← orDecline (planner.sortDirection clause.sortop)
    if !call.kind.honorsOrderBy then pure orderBy
    else
      planner.lower (.order target.expr)
      if planner.supportsOrder target.expr then
        pure (orderBy ++ [⟨target.expr, ascending, clause.nullsFirst⟩])
      else decline

def buildAggregateOrderBy (call : AggCall C F) :
    Planning σ (List (AggregateOrderExpr C F)) :=
  if aggregate.aggorder ≠ [] ∧ !call.kind.honorsOrderBy ∧
      call.kind.dependsOnInputOrder (call.arguments.primary.any planner.isFloat) then
    decline
  else aggregate.aggorder.foldlM (planner.buildOrderItem aggregate call) []

def buildAggregate (output : ℕ) : Planning σ (AggCall C F) :=
  if aggregate.aggdirectargs ≠ [] ∨ aggregate.aggvariadic ∨ aggregate.agglevelsup ≠ 0 ∨
      aggregate.aggsplit ≠ .simple then
    decline
  else do
    let arguments ← planner.buildArguments aggregate
    planner.lowerFilter aggregate.aggfilter
    let call ← orDecline (planner.tryNew aggregate arguments output)
    let orderBy ← planner.buildAggregateOrderBy aggregate call
    pure { call with orderBy }

/-! ### Groups -/

def supportsHashGroupKey (valueType : ExprType) : Bool :=
  match valueType.typeOid with
  | .int4 | .int8 => valueType.typmod = -1 && valueType.collation = 0
  | .text =>
    valueType.typmod = -1 && planner.facts.utf8ServerEncoding &&
      planner.facts.catalog.isDeterministic valueType.collation
  | .varchar =>
    (valueType.typmod = -1 || 4 ≤ valueType.typmod) && planner.facts.utf8ServerEncoding &&
      planner.facts.catalog.isDeterministic valueType.collation
  | .numeric => planner.facts.decimal128 valueType
  | _ => false

/-- VARCHAR is compared as TEXT. -/
def supportsGrouping (valueType : ExprType) (eqop : ℕ) (hashable : Bool) : Bool :=
  let equalityType := if valueType.typeOid = .varchar then .text else valueType.typeOid
  hashable && planner.supportsHashGroupKey valueType &&
    planner.equalityOperator equalityType = some eqop

end AggregatePlanner

structure GroupExpr (C F : Type) where
  expression : Upper C F
  resultType : ExprType
  output : ℕ

/-- The query block as far as aggregation reads it. -/
structure Query (C F : Type) where
  targetList : List (TargetEntry (Upper C F))
  groupClause : List SortGroupClause
  havingQual : Option (Upper C F)

/-- The query block, the clauses the planner kept of its GROUP BY, and the target of
the grouped relation. -/
structure PlannerInfo (C F : Type) where
  parse : Query C F
  processedGroupClause : List SortGroupClause
  pathTarget : List (Upper C F)

/-! ## Fragments -/

/-- HAVING over the outputs of an aggregate node. -/
inductive OutputExpr (C F : Type) where
  | output (id : ℕ)
  | column (column : C)
  | call (kind : F) (args : List (OutputExpr C F))

structure ProjectExpr where
  expression : ℕ
  resultType : ExprType
  output : ℕ
  nullable : Bool
  deriving DecidableEq

/-- Aggregate, optional filter, and projection, over an input that is not looked at. -/
structure Fragment (C F : Type) where
  groups : List (GroupExpr C F)
  aggregates : List (AggCall C F)
  having : Option (OutputExpr C F)
  project : List ProjectExpr
  /-- What PostgreSQL takes each position of the result for. -/
  scanTargetExprs : List (Upper C F)

namespace AggregatePlanner

variable {σ C F : Type} [DecidableEq C] [DecidableEq F] (planner : AggregatePlanner σ C F)

/-- A group key has no aggregates. -/
def buildGroup (parse : Query C F) (groups : List (GroupExpr C F)) (clause : SortGroupClause) :
    Planning σ (List (GroupExpr C F)) := do
  let target ← orDecline (sortgrouprefTle clause.tleSortGroupRef parse.targetList)
  if target.expr.aggrefs ≠ [] then decline
  else
    planner.lower (.group target.expr)
    if planner.supportsGrouping (planner.exprType target.expr) clause.eqop clause.hashable then
      pure (groups ++ [⟨target.expr, planner.exprType target.expr, groups.length⟩])
    else decline

def singleAggregateOutput (expression : Upper C F) : Option (Aggref C F) :=
  match expression with
  | .aggref aggregate => some aggregate
  | _ =>
    match expression.pulled with
    | [.aggref aggregate] => some aggregate
    | _ => none

abbrev Calls (C F : Type) := List (Aggref C F × AggCall C F)

variable (groups : List (GroupExpr C F))

/-- The output of an aggregate, computed anew only if no equal one is there. -/
def planAggregate (calls : Calls C F) (aggregate : Aggref C F) :
    Planning σ (Calls C F × AggCall C F) :=
  match calls.find? fun entry => entry.1 = aggregate with
  | some entry => pure (calls, entry.2)
  | none => do
    let call ← planner.buildAggregate aggregate (groups.length + calls.length)
    pure (calls ++ [(aggregate, call)], call)

structure Targets (C F : Type) where
  calls : Calls C F
  project : List ProjectExpr
  scanTargetExprs : List (Upper C F)

def Targets.push (targets : Targets C F) (calls : Calls C F) (output : ℕ) (scan : Upper C F) :
    Targets C F :=
  { calls
    project := targets.project ++ [⟨output, planner.exprType scan, targets.project.length,
      (calls.find? fun entry => entry.2.output = output).all fun entry => entry.2.nullable⟩]
    scanTargetExprs := targets.scanTargetExprs ++ [scan] }

def planTarget (targets : Targets C F) (expression : Upper C F) :
    Planning σ (Targets C F) :=
  match groups.find? fun group => group.expression = expression with
  | some group => pure (targets.push planner targets.calls group.output expression)
  | none => do
    let aggregate ← orDecline (singleAggregateOutput expression)
    let planned ← planner.planAggregate groups targets.calls aggregate
    pure (targets.push planner planned.1 planned.2.output (.aggref aggregate))

def planHavingAggregate (calls : Calls C F) :
    Upper C F → Planning σ (Calls C F)
  | .aggref aggregate => do
    let planned ← planner.planAggregate groups calls aggregate
    if planned.2.supportsHavingResult then pure planned.1 else decline
  | _ => pure calls

end AggregatePlanner

/-! ## HAVING over outputs -/

section Having

variable {C F V : Type} [DecidableEq C] [DecidableEq F]

/-- The outputs by the expressions they stand for. -/
abbrev OutputCatalog (C F : Type) := List (Upper C F × ℕ)

def resolveOutput (catalog : OutputCatalog C F) (expression : Upper C F) : Option ℕ :=
  (catalog.find? fun entry => entry.1 = expression).map Prod.snd

mutual

/-- Every node is looked up before its arguments are. -/
def lowerOutput (catalog : OutputCatalog C F) : Upper C F → Option (OutputExpr C F)
  | .column c => some ((resolveOutput catalog (.column c)).elim (.column c) .output)
  | .aggref aggregate => (resolveOutput catalog (.aggref aggregate)).map .output
  | .call kind args =>
    match resolveOutput catalog (.call kind args) with
    | some id => some (.output id)
    | none => (lowerOutputs catalog args).map (.call kind)

def lowerOutputs (catalog : OutputCatalog C F) : List (Upper C F) → Option (List (OutputExpr C F))
  | [] => some []
  | arg :: rest => do
    let arg ← lowerOutput catalog arg
    let rest ← lowerOutputs catalog rest
    pure (arg :: rest)

end

mutual

/-- Columns are gone above an aggregate node. -/
def OutputExpr.validate : OutputExpr C F → Bool
  | .output _ => true
  | .column _ => false
  | .call _ args => validateAll args

def OutputExpr.validateAll : List (OutputExpr C F) → Bool
  | [] => true
  | arg :: rest => validate arg && validateAll rest

end

mutual

def OutputExpr.eval (apply : F → List V → V) (null : V) (row : ℕ → V) : OutputExpr C F → V
  | .output id => row id
  | .column _ => null
  | .call kind args => apply kind (evalAll apply null row args)

def OutputExpr.evalAll (apply : F → List V → V) (null : V) (row : ℕ → V) :
    List (OutputExpr C F) → List V
  | [] => []
  | arg :: rest => eval apply null row arg :: evalAll apply null row rest

end

end Having

/-! ## The plan -/

namespace AggregatePlanner

variable {σ C F : Type} [DecidableEq C] [DecidableEq F] (planner : AggregatePlanner σ C F)

def outputCatalog (groups : List (GroupExpr C F)) (calls : Calls C F) : OutputCatalog C F :=
  groups.map (fun group => (group.expression, group.output)) ++
    calls.map fun entry => (.aggref entry.1, entry.2.output)

/-- The aggregates of HAVING are added to those of the target list. -/
def buildHaving (groups : List (GroupExpr C F)) (calls : Calls C F) :
    Option (Upper C F) → Planning σ (Calls C F × Option (OutputExpr C F))
  | none => pure (calls, none)
  | some havingQual => do
    let calls ← havingQual.pulled.foldlM (planner.planHavingAggregate groups) calls
    planner.lower (.having havingQual)
    let having ← orDecline (lowerOutput (outputCatalog groups calls) havingQual)
    if having.validate then pure (calls, some having) else decline

def build (root : PlannerInfo C F) : Planning σ (Fragment C F) := do
  let groups ← root.processedGroupClause.foldlM (planner.buildGroup root.parse) []
  let targets ← root.pathTarget.foldlM (planner.planTarget groups) ⟨[], [], []⟩
  let having ← planner.buildHaving groups targets.calls root.parse.havingQual
  if (groups.isEmpty && having.1.isEmpty) || targets.project.isEmpty then decline
  else
    pure ⟨groups, having.1.map Prod.snd, having.2, targets.project, targets.scanTargetExprs⟩

end AggregatePlanner

/-! ## Which queries are planned -/

/-- The features of a query block that offload looks at. -/
structure QueryShape where
  isSelect : Bool
  hasWindowFuncs : Bool
  hasTargetSRFs : Bool
  hasRecursive : Bool
  hasModifyingCTE : Bool
  hasForUpdate : Bool
  hasRowSecurity : Bool
  hasCtes : Bool
  hasRowMarks : Bool
  hasSetOperations : Bool
  hasAggs : Bool
  hasGroupClause : Bool
  hasDistinctOn : Bool
  groupDistinct : Bool
  hasGroupingSets : Bool
  hasWindowClause : Bool
  deriving DecidableEq

namespace QueryShape

def supportsRelationalBase (shape : QueryShape) : Bool :=
  shape.isSelect && !shape.hasWindowFuncs && !shape.hasTargetSRFs && !shape.hasRecursive &&
    !shape.hasModifyingCTE && !shape.hasForUpdate && !shape.hasRowSecurity && !shape.hasCtes &&
    !shape.hasRowMarks && !shape.hasSetOperations

def supportsAggregate (shape : QueryShape) : Bool :=
  shape.supportsRelationalBase && (shape.hasAggs || shape.hasGroupClause) &&
    !shape.hasDistinctOn && !shape.groupDistinct && !shape.hasGroupingSets &&
    !shape.hasWindowClause

end QueryShape

/-- `AggregateCandidate::install`, once offload is on and at the stage of grouping:
nothing is planned for an unsupported shape or where a SubPlan is left. -/
def AggregatePlanner.install {σ C F : Type} [DecidableEq C] [DecidableEq F]
    (planner : AggregatePlanner σ C F) (shape : QueryShape) (containSubplans : Upper C F → Bool)
    (root : PlannerInfo C F) : Planning σ (Fragment C F) :=
  if !shape.supportsAggregate ||
      (root.parse.targetList.map TargetEntry.expr ++ root.pathTarget ++
        root.parse.havingQual.toList).any containSubplans then
    decline
  else planner.build root

end LagoDB.Aggregate
