import LagoDB.CombinedPredicate

/-!
# The filter negotiator

The negotiator walks over scan clauses and asks a provider what it can filter. A
clause accepted exactly is only kept for rechecks, one accepted conservatively
stays a residual qual, and so does everything the provider declines. What cannot
be accepted whole is taken apart: a conjunction operand by operand, a disjunction
as a wider one made of what each operand has to offer.
-/
namespace LagoDB.Negotiation

variable {σ P E : Type}

/-! ## Contracts -/

inductive PushdownContract where
  | exactRowFilter
  | conservativePruning
  deriving DecidableEq

def PushdownContract.requiresRecheck : PushdownContract → Bool
  | .exactRowFilter => true
  | .conservativePruning => false

inductive PushdownCosting where
  | layoutPruning
  | statisticsPruning
  | uncostedBestEffort
  deriving DecidableEq

inductive FilterEvaluation where
  | perRow
  | projected
  | pruningOnly
  deriving DecidableEq

structure PlannedFilter (P : Type) where
  predicate : P
  costing : PushdownCosting
  evaluation : FilterEvaluation

/-- A provider's answer for one complete fragment. -/
inductive FilterPlan (P : Type) where
  | unsupported
  /-- A widened tree; its slots are not those of the fragment. -/
  | partialTree (planned : PlannedFilter P)
  | exact (planned : PlannedFilter P)
  | conservative (planned : PlannedFilter P)

def FilterPlan.isAccepted : FilterPlan P → Bool
  | .exact _ | .conservative _ => true
  | .partialTree _ | .unsupported => false

def FilterPlan.isPerRow : FilterPlan P → Bool
  | .exact planned | .conservative planned => planned.evaluation = .perRow
  | .partialTree _ | .unsupported => false

/-- A planning session may keep state between the fragments it is asked about. -/
structure FilterPushdownPlanner (σ P E : Type) where
  tryPlanFilter : PredicateFragment → StateT σ (Except E) (FilterPlan P)

inductive RowFilter where
  | whole
  | part (expr : PgExpr)
  | nothing

structure EffectiveFilterContract where
  contract : PushdownContract
  costing : PushdownCosting
  rowFilter : RowFilter

/-! ## The negotiated set -/

inductive FilterQualLocation where
  | residual (index : ℕ)
  | recheck (index : ℕ)
  deriving DecidableEq

structure NegotiatedFilter (P : Type) where
  pushedExpr : PgExpr
  planned : P
  effective : EffectiveFilterContract
  qualLocation : FilterQualLocation
  bindingStart : ℕ
  bindingCount : ℕ

structure NegotiatedFilterSet (P : Type) where
  residual : List PgExpr
  planned : List (NegotiatedFilter P)
  recheck : List PgExpr
  bindings : List RuntimeValueExpr

namespace NegotiatedFilterSet

def new : NegotiatedFilterSet P := ⟨[], [], [], []⟩

variable (out : NegotiatedFilterSet P)

def pushResidual (expr : PgExpr) : NegotiatedFilterSet P :=
  { out with residual := out.residual ++ [expr] }

/-- The entry of an accepted filter: its qual is the next recheck or residual
qual, its slots are the next ones. -/
def entry (normalized : NormalizedPredicate) (planned : P)
    (effective : EffectiveFilterContract) : NegotiatedFilter P where
  pushedExpr := normalized.pushedExpr
  planned := planned
  effective := effective
  qualLocation :=
    if effective.contract.requiresRecheck then .recheck out.recheck.length
    else .residual out.residual.length
  bindingStart := out.bindings.length
  bindingCount := normalized.bindings.length

def accept (original : PgExpr) (normalized : NormalizedPredicate)
    (planned : P) (effective : EffectiveFilterContract) : NegotiatedFilterSet P where
  residual :=
    if effective.contract.requiresRecheck then out.residual else out.residual ++ [original]
  planned := out.planned ++ [out.entry normalized planned effective]
  recheck := if effective.contract.requiresRecheck then out.recheck ++ [original] else out.recheck
  bindings := out.bindings ++ normalized.bindings

/-- The slots an entry is bound with. -/
def slots (filter : NegotiatedFilter P) : List RuntimeValueExpr :=
  (out.bindings.drop filter.bindingStart).take filter.bindingCount

end NegotiatedFilterSet

/-! ## Conservative candidates -/

structure ConservativeCandidate where
  filter : NormalizedPredicate
  isWidened : Bool

open ConservativeCandidate

section Candidates

variable (normalize : PgExpr → Option NormalizedPredicate)
  (accepts : PredicateFragment → StateT σ (Except E) Bool)

/-- The expression itself, if it is accepted whole. -/
def candidateDirect (expr : PgExpr)
    (otherwise : StateT σ (Except E) (Option ConservativeCandidate)) :
    StateT σ (Except E) (Option ConservativeCandidate) :=
  match normalize expr with
  | some normalized => do
    if ← accepts normalized.fragment then pure (some ⟨normalized, false⟩) else otherwise
  | none => otherwise

def combineCandidates (combination : PredicateCombination)
    (candidates : List ConservativeCandidate) (isWidened : Bool) : Option ConservativeCandidate :=
  (NormalizedPredicate.combine combination (candidates.map filter)).map
    fun filter => ⟨filter, isWidened⟩

mutual

/-- A boolean expression, looked at through relabels. -/
def candidateFromBoolean : PgExpr → StateT σ (Except E) (Option ConservativeCandidate)
  | .relabel arg _ => candidateFromBoolean arg
  | .bool .and args => do
    let candidates ← candidatesOfSome args
    pure (combineCandidates .and candidates (decide (candidates.length ≠ args.length) ||
      candidates.any isWidened))
  | .bool .or args => do
    match ← candidatesOfAll args with
    | none => pure none
    | some candidates =>
      pure (combineCandidates .or candidates (candidates.any isWidened))
  | _ => pure none

/-- Operands without a candidate are left out. -/
def candidatesOfSome : List PgExpr → StateT σ (Except E) (List ConservativeCandidate)
  | [] => pure []
  | child :: rest => do
    let candidate ← candidateDirect normalize accepts child (candidateFromBoolean child)
    let candidates ← candidatesOfSome rest
    pure (candidate.toList ++ candidates)

/-- Stops at the first operand without a candidate. -/
def candidatesOfAll : List PgExpr → StateT σ (Except E) (Option (List ConservativeCandidate))
  | [] => pure (some [])
  | child :: rest => do
    match ← candidateDirect normalize accepts child (candidateFromBoolean child) with
    | none => pure none
    | some candidate => do
      let candidates ← candidatesOfAll rest
      pure (candidates.map (candidate :: ·))

end

def conservativeCandidate (expr : PgExpr) : StateT σ (Except E) (Option ConservativeCandidate) :=
  candidateDirect normalize accepts expr (candidateFromBoolean normalize accepts expr)

end Candidates

/-! ## The walk -/

structure RestrictInfo where
  serial : ℕ
  clause : PgExpr
  pseudoconstant : Bool

inductive ScanClauseSource where
  | baseRestriction
  | movable
  deriving DecidableEq

def ScanClauseSource.requiresMovabilityGate : ScanClauseSource → Bool
  | .baseRestriction => false
  | .movable => true

/-- The last four fields are PostgreSQL's answers about the scanned relation. -/
structure FilterNegotiator (σ P E : Type) where
  planner : FilterPushdownPlanner σ P E
  normalizer : RelationExpressionNormalizer
  restrictionIsSecurelyPromotable : RestrictInfo → Bool
  joinClauseIsMovableTo : RestrictInfo → Bool
  containVolatileFunctions : PgExpr → Bool
  containSubplans : PgExpr → Bool

namespace FilterNegotiator

variable (negotiator : FilterNegotiator σ P E)

def subtreeIsUnsafeToPush (expr : PgExpr) : Bool :=
  negotiator.containVolatileFunctions expr || negotiator.containSubplans expr

variable (acceptsPlan : FilterPlan P → Bool)

def accepting (fragment : PredicateFragment) :
    StateT σ (Except E) Bool := do
  pure (acceptsPlan (← negotiator.planner.tryPlanFilter fragment))

def candidateWhere (expr : PgExpr) :
    StateT σ (Except E) (Option ConservativeCandidate) :=
  conservativeCandidate negotiator.normalizer.normalize (negotiator.accepting acceptsPlan) expr

/-- What of a pushed expression the provider evaluates on each row. -/
def rowFilter (pushedExpr : PgExpr) : FilterEvaluation → StateT σ (Except E) RowFilter
  | .perRow => pure .whole
  | .pruningOnly => pure .nothing
  | .projected => do
    match ← negotiator.candidateWhere FilterPlan.isPerRow pushedExpr with
    | some candidate => pure (.part candidate.filter.pushedExpr)
    | none => pure .nothing

def accept (original : PgExpr) (filter : NormalizedPredicate) (planned : PlannedFilter P)
    (contract : PushdownContract) (out : NegotiatedFilterSet P) :
    StateT σ (Except E) (NegotiatedFilterSet P) := do
  let rowFilter ← negotiator.rowFilter filter.pushedExpr planned.evaluation
  pure (out.accept original filter planned.predicate ⟨contract, planned.costing, rowFilter⟩)

variable (original : PgExpr)

/-- The expression itself, if the provider plans all of it. -/
def negotiateDirect
    (otherwise : NegotiatedFilterSet P → StateT σ (Except E) (NegotiatedFilterSet P))
    (out : NegotiatedFilterSet P) : StateT σ (Except E) (NegotiatedFilterSet P) :=
  match negotiator.normalizer.normalize original with
  | some normalized => do
    match ← negotiator.planner.tryPlanFilter normalized.fragment with
    | .exact planned => negotiator.accept original normalized planned .exactRowFilter out
    | .conservative planned =>
      negotiator.accept original normalized planned .conservativePruning out
    | .partialTree _ | .unsupported => otherwise out
  | none => otherwise out

/-- A disjunction is pushed only if some operand was widened. -/
def negotiateOr (args : List PgExpr) (out : NegotiatedFilterSet P) :
    StateT σ (Except E) (NegotiatedFilterSet P) := do
  match ← candidatesOfAll negotiator.normalizer.normalize
      (negotiator.accepting FilterPlan.isAccepted) args with
  | none => pure (out.pushResidual original)
  | some candidates =>
    match combineCandidates .or candidates (candidates.any isWidened) with
    | none => pure (out.pushResidual original)
    | some candidate =>
      if candidate.isWidened then do
        match ← negotiator.planner.tryPlanFilter candidate.filter.fragment with
        | .exact planned | .conservative planned =>
          negotiator.accept original candidate.filter planned .conservativePruning out
        | .partialTree _ | .unsupported => pure (out.pushResidual original)
      else pure (out.pushResidual original)

mutual

/-- A boolean expression, looked at through relabels; `original` has them. -/
def negotiateBoolean (original : PgExpr) :
    PgExpr → NegotiatedFilterSet P → StateT σ (Except E) (NegotiatedFilterSet P)
  | .relabel arg _, out => negotiateBoolean original arg out
  | .bool .and args, out => negotiateAll args out
  | .bool .or args, out => negotiator.negotiateOr original args out
  | _, out => pure (out.pushResidual original)

def negotiateAll :
    List PgExpr → NegotiatedFilterSet P → StateT σ (Except E) (NegotiatedFilterSet P)
  | [], out => pure out
  | child :: rest, out => do
    let out ← negotiator.negotiateDirect child (negotiateBoolean child child) out
    negotiateAll rest out

end

def negotiateExpr (out : NegotiatedFilterSet P) :
    StateT σ (Except E) (NegotiatedFilterSet P) :=
  negotiator.negotiateDirect original (negotiator.negotiateBoolean original original) out

/-- One clause. Pseudoconstants belong to a gating node above the scan. -/
def negotiateClause (sourceFor : RestrictInfo → ScanClauseSource) (out : NegotiatedFilterSet P)
    (rinfo : RestrictInfo) : StateT σ (Except E) (NegotiatedFilterSet P) :=
  if rinfo.pseudoconstant then pure out
  else if !negotiator.restrictionIsSecurelyPromotable rinfo ||
      ((sourceFor rinfo).requiresMovabilityGate && !negotiator.joinClauseIsMovableTo rinfo) ||
      negotiator.subtreeIsUnsafeToPush rinfo.clause then
    pure (out.pushResidual rinfo.clause)
  else negotiator.negotiateExpr rinfo.clause out

variable (clauses : List RestrictInfo)

def negotiateWithSource
    (sourceFor : RestrictInfo → ScanClauseSource) :
    StateT σ (Except E) (NegotiatedFilterSet P) :=
  clauses.foldlM (negotiator.negotiateClause sourceFor) .new

def negotiate (source : ScanClauseSource) :
    StateT σ (Except E) (NegotiatedFilterSet P) :=
  negotiator.negotiateWithSource clauses fun _ => source

end FilterNegotiator

end LagoDB.Negotiation
