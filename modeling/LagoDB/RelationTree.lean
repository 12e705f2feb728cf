import LagoDB.JoinPaths

/-!
# The relation tree planner

A relation tree is rebuilt from PostgreSQL's join paths. At each join the clauses
become join keys, match filters or filters above the join; a key whose column a
semi- or antijoin below has dropped is moved to an equivalent column.
-/
namespace LagoDB.RelationTree

open Iceberg Negotiation

variable {σ : Type}

/-- Planning keeps state and may decline. -/
abbrev Planning (σ α : Type) := StateT σ (Except Unit) α

def decline {α : Type} : Planning σ α := throw ()

/-- An `Option` of the source that ends planning when there is nothing. -/
def orDecline {α : Type} : Option α → Planning σ α
  | some a => pure a
  | none => decline

variable {α : Type}

lemma decline_yields (Q : α → Prop) : ExceptLoop.Yields (decline : Planning σ α) Q :=
  fun _ _ _ hf => by cases hf

lemma orDecline_yields (a : Option α) :
    ExceptLoop.Yields (orDecline a : Planning σ α) fun r => a = some r := by
  cases a with
  | none => exact decline_yields _
  | some a => exact ExceptLoop.Yields.pure rfl

lemma any_yields (x : Planning σ α) : ExceptLoop.Yields x fun _ => True := fun _ _ _ _ => trivial

/-- Planner-wide facts, and the parts of planning that keep state: lowering of
expressions, registration of key columns, and base relations. -/
structure RelationTreePlanner (σ : Type) where
  root : ℕ
  facts : TypeFacts
  isLocal : ℕ → ℤ → Bool
  eqClasses : ℕ → List (List PgExpr)
  containSubplans : PgExpr → Bool
  lower : ExecutionExpr → Planning σ Unit
  recordJoinKey : JoinKey → Planning σ Unit
  buildBaseSubtree : ScanId → Bool → Planning σ RelationNode

/-- A failed attempt leaves the state alone. -/
def attempt {α : Type} (x : Planning σ α) : Planning σ (Option α) := fun state =>
  match x state with
  | .ok (a, state') => .ok (some a, state')
  | .error _ => .ok (none, state)

def placeHolderVarTag : ℕ := 1

mutual

/-- The column under relabels and PlaceHolderVars. -/
def equivalenceMemberVar : PgExpr → Option (ℤ × ℤ × ExprType)
  | .var varno varattno vartype => some (varno, varattno, vartype)
  | .relabel arg _ => equivalenceMemberVar arg
  | .other tag _ args => if tag = placeHolderVarTag then placeHolderArg args else none
  | _ => none

def placeHolderArg : List PgExpr → Option (ℤ × ℤ × ExprType)
  | [arg] => equivalenceMemberVar arg
  | _ => none

end

namespace RelationTreePlanner

variable (planner : RelationTreePlanner σ)

/-! ## Join keys -/

/-- `inspect_join_column`: a column of the scope under relabels. -/
def inspectJoinColumn (root : ℕ) (expr : PgExpr) : Option ScanColumn :=
  match expr.withoutRelabels with
  | .var varno varattno vartype =>
    if 0 < varattno ∧ planner.isLocal root varno ∧
        (vartype.typeOid = expr.typeMetadata.typeOid ∨
          planner.facts.isBinaryCoercible vartype.typeOid expr.typeMetadata.typeOid) then
      some ⟨⟨root, varno⟩, varattno, vartype, expr.typeMetadata⟩
    else none
  | _ => none

def lowerJoinKey (root : ℕ) : PgExpr → Option JoinKey
  | .op node [first, second] => do
    let left ← planner.inspectJoinColumn root first
    let right ← planner.inspectJoinColumn root second
    if left.scan = right.scan ∨
        ¬planner.facts.opHashjoinable node.opno left.valueType.typeOid then none
    else JoinKey.tryNew planner.facts left right node
  | _ => none

def lowerRestrictinfoJoinKey (restriction : JoinRestriction) : Option JoinKey :=
  match restriction.clause with
  | .op node _ =>
    if !restriction.canJoin || restriction.hashjoinoperator = 0 ||
        node.opno ≠ restriction.hashjoinoperator then none
    else planner.lowerJoinKey planner.root restriction.clause
  | _ => none

/-! ## Orienting keys -/

section Orient

variable (left right : RelationNode) (key : JoinKey)

def orientVisibleKey : Option JoinKey :=
  if left.emits key.left.scan && right.emits key.right.scan then some key
  else if left.emits key.right.scan && right.emits key.left.scan then
    JoinKey.tryNew planner.facts key.right key.left key.operator
  else none

def isOutputVisible (column : ScanColumn) : Bool :=
  left.emits column.scan || right.emits column.scan

/-- A member of an equivalence class as a column of its scope. -/
def memberColumn (root : ℕ) (member : PgExpr) : Option ScanColumn :=
  match equivalenceMemberVar member with
  | some (varno, varattno, vartype) =>
    if 0 < varattno then some ⟨⟨root, varno⟩, varattno, vartype, vartype⟩ else none
  | none => none

variable (pruned : ScanColumn)

/-- The members of a class that can stand for `pruned`. -/
def replacements (members : List PgExpr) : List ScanColumn :=
  ((members.filterMap (memberColumn pruned.scan.root)).filter fun column =>
    !(column.scan = pruned.scan && column.attno = pruned.attno) &&
      planner.isLocal pruned.scan.root column.scan.rti &&
      isOutputVisible left right column).eraseDups

def containsPruned (members : List PgExpr) : Bool :=
  members.any fun member =>
    match memberColumn pruned.scan.root member with
    | some column => column.scan = pruned.scan && column.attno = pruned.attno
    | none => false

/-- The visible members of the first class with `pruned` in it. -/
def outputEquivalents : List ScanColumn :=
  match (planner.eqClasses pruned.scan.root).find? (containsPruned pruned) with
  | some members => planner.replacements left right pruned members
  | none => []

/-- The columns an endpoint of a key may be read from. -/
def endpoints (column : ScanColumn) : List ScanColumn :=
  if isOutputVisible left right column then [column]
  else planner.outputEquivalents left right column

def orientedKeys : List JoinKey :=
  match planner.orientVisibleKey left right key with
  | some oriented => [oriented]
  | none =>
    if isOutputVisible left right key.left && isOutputVisible left right key.right then []
    else
      (planner.endpoints left right key.left).flatMap fun first =>
        (planner.endpoints left right key.right).filterMap fun second =>
          (JoinKey.tryNew planner.facts first second key.operator).bind
            (planner.orientVisibleKey left right)

/-- The first key whose columns can be registered. -/
def recordFirst : List JoinKey → Planning σ (Option JoinKey)
  | [] => pure none
  | key :: rest => do
    match ← attempt (planner.recordJoinKey key) with
    | some _ => pure (some key)
    | none => recordFirst rest

def orientJoinKey : Planning σ (Option JoinKey) :=
  planner.recordFirst (planner.orientedKeys left right key)

end Orient

end RelationTreePlanner

/-! ## Clauses of a join -/

structure JoinLevelPredicates where
  applied : List ℤ
  keys : List JoinKey
  keyRestrictions : List JoinRestriction
  joinRestrictions : List JoinRestriction
  onFilters : List ExecutionExpr
  postFilters : List ExecutionExpr

def JoinLevelPredicates.new : JoinLevelPredicates := ⟨[], [], [], [], [], []⟩

inductive JoinRestrictionPlacement where
  | onMatch
  | postJoin
  deriving DecidableEq

/-- SEMI is treated like INNER, ANTI like an outer join. -/
def restrictionPlacement (joinType : JoinType) (pushedDown : Bool) : JoinRestrictionPlacement :=
  if pushedDown && !(joinType = .inner || joinType = .leftSemi) then .postJoin else .onMatch

/-- `RINFO_IS_PUSHED_DOWN`. -/
def JoinRestriction.pushedDown (relids : Finset ℤ) (restriction : JoinRestriction) : Bool :=
  restriction.isPushedDown || ¬restriction.requiredRelids ⊆ relids

structure JoinRestrictionScope where
  relids : Finset ℤ
  left : RelationNode
  right : RelationNode
  joinType : JoinType

namespace JoinLevelPredicates

variable (predicates : JoinLevelPredicates) (restriction : JoinRestriction)

def addKey (key : JoinKey) : JoinLevelPredicates :=
  { predicates with
    applied := predicates.applied ++ [restriction.rinfoSerial]
    keyRestrictions := predicates.keyRestrictions ++ [restriction]
    joinRestrictions := predicates.joinRestrictions ++ [restriction]
    keys := if predicates.keys.contains key then predicates.keys else predicates.keys ++ [key] }

variable (predicate : ExecutionExpr)

def addOnFilter : JoinLevelPredicates :=
  { predicates with
    applied := predicates.applied ++ [restriction.rinfoSerial]
    joinRestrictions := predicates.joinRestrictions ++ [restriction]
    onFilters := predicates.onFilters ++ [predicate] }

def addPostFilter : JoinLevelPredicates :=
  { predicates with
    applied := predicates.applied ++ [restriction.rinfoSerial]
    postFilters := predicates.postFilters ++ [predicate] }

end JoinLevelPredicates

namespace RelationTreePlanner

variable (planner : RelationTreePlanner σ) (scope : JoinRestrictionScope)

def joinKeyOf (restriction : JoinRestriction) :
    Planning σ (Option JoinKey) :=
  match planner.lowerRestrictinfoJoinKey restriction with
  | some key => planner.orientJoinKey scope.left scope.right key
  | none => pure none

def classifyPlaced (predicates : JoinLevelPredicates)
    (restriction : JoinRestriction) :
    JoinRestrictionPlacement → Planning σ JoinLevelPredicates
  | .onMatch => do
    match ← planner.joinKeyOf scope restriction with
    | some key => pure (predicates.addKey restriction key)
    | none =>
      planner.lower ⟨planner.root, restriction.clause⟩
      pure (predicates.addOnFilter restriction ⟨planner.root, restriction.clause⟩)
  | .postJoin => do
    planner.lower ⟨planner.root, restriction.clause⟩
    pure (predicates.addPostFilter restriction ⟨planner.root, restriction.clause⟩)

def classifyRestriction (predicates : JoinLevelPredicates)
    (restriction : JoinRestriction) : Planning σ JoinLevelPredicates :=
  if predicates.applied.contains restriction.rinfoSerial then pure predicates
  else if restriction.pseudoconstant || planner.containSubplans restriction.clause then decline
  else planner.classifyPlaced scope predicates restriction
    (restrictionPlacement scope.joinType (restriction.pushedDown scope.relids))

def classifyJoinRestrictions (restrictions : List JoinRestriction)
    (predicates : JoinLevelPredicates) : Planning σ JoinLevelPredicates :=
  restrictions.foldlM (planner.classifyRestriction scope) predicates

/-! ## Joins -/

/-- What one join was built from, with the paths of its inputs. -/
structure JoinTrace where
  scope : JoinRestrictionScope
  restrictions : List JoinRestriction
  parameterized : List JoinRestriction
  leftInput : InputPath
  rightInput : InputPath
  /-- After `restrictions` alone. -/
  first : JoinLevelPredicates
  predicates : JoinLevelPredicates

/-- The clauses moved into the right input. -/
def JoinTrace.moved (trace : JoinTrace) : List JoinRestriction := trace.rightInput.moved

/-- Some input is made unique first. -/
def JoinTrace.uniqueInput (trace : JoinTrace) : Bool :=
  trace.leftInput.uniqueOn.isSome || trace.rightInput.uniqueOn.isSome

def levelNode (predicates : JoinLevelPredicates) : RelationNode :=
  let join := RelationNode.join scope.joinType scope.left scope.right predicates.keys
    predicates.onFilters false none
  if predicates.postFilters.isEmpty then join else .filter join predicates.postFilters

/-- The clauses of the parameterization are looked at only if there is no key yet. -/
def classifyParameterized (parameterized : List JoinRestriction)
    (first : JoinLevelPredicates) : Planning σ JoinLevelPredicates :=
  if first.keys.isEmpty then planner.classifyJoinRestrictions scope parameterized first
  else pure first

def buildJoinLevel
    (restrictions parameterized : List JoinRestriction) (leftInput rightInput : InputPath) :
    Planning σ (RelationNode × JoinTrace) := do
  let first ← planner.classifyJoinRestrictions scope restrictions .new
  let predicates ← planner.classifyParameterized scope parameterized first
  if predicates.keys.isEmpty && !(scope.joinType = .leftSemi || scope.joinType = .leftAnti) then
    decline
  else
    pure (levelNode scope predicates,
      ⟨scope, restrictions, parameterized, leftInput, rightInput, first, predicates⟩)

/-- The logical type of a join, and whether its inputs are swapped for it. -/
def normalizedType : PgJoinType → JoinType × Bool
  | .rightSemi => (.leftSemi, true)
  | .rightAnti => (.leftAnti, true)
  | .inner => (.inner, false)
  | .left => (.left, false)
  | .right => (.right, false)
  | .full => (.full, false)
  | .semi => (.leftSemi, false)
  | .anti => (.leftAnti, false)

abbrev TracedTree := RelationNode × List JoinTrace

def joinInputs (relids : Finset ℤ) (joinType : JoinType) (restrictions : List JoinRestriction)
    (leftPath rightPath : InputPath) (buildLeft buildRight : Planning σ TracedTree) :
    Planning σ TracedTree := do
  let left ← buildLeft
  let right ← buildRight
  let level ← planner.buildJoinLevel ⟨relids, left.1, right.1, joinType⟩ restrictions
    rightPath.ppiClauses leftPath rightPath
  pure (level.1, left.2 ++ right.2 ++ [level.2])

mutual

/-- A tree for a relation, from its selected path. -/
def buildTraced (allowMark : Bool) : RelOptInfo → Planning σ TracedTree
  | .base relid => do
    let node ← planner.buildBaseSubtree ⟨planner.root, relid⟩ allowMark
    pure (node, [])
  | .join relids lateralRelids pathlist =>
    ((selectCandidate lateralRelids (buildersOf allowMark relids pathlist)).map Prod.snd).getD
      decline
  | .other => decline

/-- Each path with what would be built from it. -/
def buildersOf (allowMark : Bool) (relids : Finset ℤ) :
    List Path → List (Path × Planning σ TracedTree)
  | [] => []
  | path :: rest => (path, buildPath allowMark relids path) :: buildersOf allowMark relids rest

def buildPath (allowMark : Bool) (relids : Finset ℤ) : Path → Planning σ TracedTree
  | .wrapped _ _ subpath => buildPath allowMark relids subpath
  | .join _ _ jointype _ joinrestrictinfo (.mk outer outerParam outerMoved outerUnique)
      (.mk inner innerParam innerMoved innerUnique) =>
    if (normalizedType jointype).2 then
      planner.joinInputs relids (normalizedType jointype).1 joinrestrictinfo
        (.mk inner innerParam innerMoved innerUnique) (.mk outer outerParam outerMoved outerUnique)
        (buildTraced allowMark inner) (buildTraced allowMark outer)
    else
      planner.joinInputs relids (normalizedType jointype).1 joinrestrictinfo
        (.mk outer outerParam outerMoved outerUnique) (.mk inner innerParam innerMoved innerUnique)
        (buildTraced allowMark outer) (buildTraced allowMark inner)
  | .other _ => decline

end

def buildSelectedSubtree (allowMark : Bool) (relation : RelOptInfo) :
    Planning σ RelationNode := do
  let traced ← planner.buildTraced allowMark relation
  pure traced.1

end RelationTreePlanner

end LagoDB.RelationTree
