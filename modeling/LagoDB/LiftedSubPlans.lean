import LagoDB.SubPlanLifting

/-!
# Lifted SubPlans keep SQL's truth values

PostgreSQL evaluates a restriction with a subquery in three-valued logic for every
row of the relation. The joins over the scan keep a row exactly when all
restrictions are TRUE: each join is a filter on the rows below it, and the filters
compose.
-/
namespace LagoDB.RelationTree

open SqlLogic Iceberg Negotiation JoinAlgebra ExceptLoop List Truth RelationNode JoinNode
open RestrictionClause SubplanPlanner

variable {σ : Type}

/-! ## What restrictions mean -/

/-- `ANY` over the rows of a subquery. -/
def anyTruth {α : Type} (test : α → Truth) (rows : Multiset α) : Truth :=
  if 0 < rows.countP fun row => test row = some true then some true
  else if 0 < rows.countP fun row => test row = none then none
  else some false

lemma anyTruth_eq_true {α : Type} {test : α → Truth} {rs : Multiset α} :
    anyTruth test rs = some true ↔ ∃ row ∈ rs, test row = some true := by
  rw [← Multiset.countP_pos, anyTruth]
  split_ifs with ht hn
  · exact iff_of_true rfl ht
  · exact iff_of_false (by simp) ht
  · exact iff_of_false (by simp) ht

lemma anyTruth_eq_false {α : Type} {test : α → Truth} {rs : Multiset α} :
    anyTruth test rs = some false ↔ ∀ row ∈ rs, test row = some false := by
  have ho {v : Truth} (hv : v ≠ some false) (hs : 0 < rs.countP fun row => test row = v) :
      ¬∀ row ∈ rs, test row = some false := by
    obtain ⟨row, hr, ht⟩ := Multiset.countP_pos.mp hs
    exact fun ha => hv (ht.symm.trans (ha row hr))
  rw [anyTruth]
  split_ifs with htr hn
  · exact iff_of_false (by simp) (ho (by simp) htr)
  · exact iff_of_false (by simp) (ho (by simp) hn)
  · refine iff_of_true rfl fun row hr => ?_
    rw [Multiset.countP_pos] at htr hn
    rcases ht : test row with _ | _ | _
    · exact absurd ⟨row, hr, ht⟩ hn
    · rfl
    · exact absurd ⟨row, hr, ht⟩ htr

/-- What PostgreSQL computes for the uncorrelated subqueries, by planner scope: their
rows, the scans those have columns of, and the output columns of a row. Clauses that
are never lifted have some truth value. -/
structure SubquerySemantics where
  rows : QueryContext → ℕ → Multiset (Row ScanId)
  visible : ℕ → ScanId → Prop
  outputs : QueryContext → ℕ → Row ScanId → List PgValue
  unlifted : QueryContext → SubPlan → Row ℤ → Truth
  other : QueryContext → ℕ → Row ℤ → Truth

/-- The parameters of a test are set to the output of a row of the subquery. -/
def QueryContext.withParams (context : QueryContext) (paramIds : List ℕ)
    (values : List PgValue) : QueryContext :=
  { context with
    env :=
      { context.env with
        param := fun kind id =>
          match kind, (paramIds.zip values).lookup id with
          | .exec, some value => value
          | _, _ => context.env.param kind id } }

def QueryContext.columnValue (context : QueryContext) (root : ℕ) (row : Row ℤ)
    (varno varattno : ℤ) : PgValue :=
  if context.isLocal root varno then row varno varattno else context.env.outer varno varattno

section Truth

variable (planner : SubplanPlanner σ) (sem : SubquerySemantics) (context : QueryContext)
  (row : Row ℤ)

def SubPlan.truth (subplan : SubPlan) : Truth :=
  match planner.innerRoot subplan.planId, subplan.subLinkType, subplan.testexpr with
  | some inner, .existsSublink, _ => some (decide (0 < (sem.rows context inner).card))
  | some inner, .anySublink, some testexpr =>
    anyTruth (fun found => (context.withParams subplan.paramIds
      (sem.outputs context inner found)).clauseTruth planner.root row testexpr)
      (sem.rows context inner)
  | _, _, _ => sem.unlifted context subplan row

mutual

/-- The truth value of a restriction for a row of its relation. Alternatives all
compute the same. -/
def RestrictionClause.truth : RestrictionClause → Truth
  | .expr clause => context.clauseTruth planner.root row clause
  | .subplan own => own.truth planner sem context row
  | .alternatives [] => none
  | .alternatives (first :: _) => first.truth planner sem context row
  | .bool .and args => all (truthAll args)
  | .bool .or args => any (truthAll args)
  | .bool .not args => not (all (truthAll args))
  | .restrictInfo clause => clause.truth
  | .other tag => sem.other context tag row

def RestrictionClause.truthAll : List RestrictionClause → List Truth
  | [] => []
  | arg :: rest => arg.truth :: truthAll rest

end

def LiftedSubPlan.truth (lifted : LiftedSubPlan) : Truth :=
  if lifted.anti then not (lifted.subplan.truth planner sem context row)
  else lifted.subplan.truth planner sem context row

def LiftedMarkSubPlan.truth (lifted : LiftedMarkSubPlan) : Truth :=
  or
    (some (context.columnValue planner.root row lifted.nullVarno lifted.nullAttno).isNone)
    (lifted.toLiftedSubPlan.truth planner sem context row)

end Truth

/-! ## Classified restrictions -/

variable (c : QueryContext)

lemma eval_column (r : ℕ) (row : Row ℤ) (e : PgExpr) {varno v : ℤ} {vartype : ExprType}
    (h : e.withoutRelabels = .var varno v vartype) :
    e.eval c.backend 0 ⟨c.env.param, c.columnValue r row⟩
      (c.columnValue r row 0) = c.columnValue r row varno v := by
  rw [← PgExpr.eval_withoutRelabels, h, PgExpr.eval]
  split_ifs with hz
  · rw [hz]
  · rfl

lemma clauseTruth_bool (r : ℕ) (row : Row ℤ) (args : List PgExpr) :
    c.clauseTruth r row (.bool .and args) = Truth.all (args.map (c.clauseTruth r row)) ∧
      c.clauseTruth r row (.bool .or args) = Truth.any (args.map (c.clauseTruth r row)) ∧
        c.clauseTruth r row (.bool .not args) = not (all (args.map (c.clauseTruth r row))) := by
  simp only [QueryContext.clauseTruth, PgExpr.eval, PgExpr.evalAll_eq, map_map,
    PgValue.truth_ofTruth]
  exact ⟨rfl, rfl, rfl⟩

section Classified

variable {p : SubplanPlanner σ} {sem : SubquerySemantics} {context : QueryContext} {row : Row ℤ}

mutual

lemma withoutSubplans_truth (cl : RestrictionClause) (expr : PgExpr)
    (h : cl.withoutSubplans = some expr) :
    cl.truth p sem context row = context.clauseTruth p.root row expr := by
  match cl with
  | .expr own =>
    cases h
    rw [truth]
  | .bool b args =>
    obtain ⟨e, he, rfl⟩ := Option.map_eq_some_iff.mp h
    have ha := withoutSubplansAll_truth args e he
    obtain ⟨hand, ho, hn⟩ := clauseTruth_bool context p.root row e
    cases b with
    | and => rw [truth, ha, hand]
    | or => rw [truth, ha, ho]
    | not => rw [truth, ha, hn]
  | .restrictInfo own => exact withoutSubplans_truth own expr h
  | .subplan _ | .alternatives _ | .other _ => cases h

lemma withoutSubplansAll_truth (args : List RestrictionClause) (es : List PgExpr)
    (h : withoutSubplansAll args = some es) :
    truthAll p sem context row args = es.map (context.clauseTruth p.root row) := by
  match args with
  | [] =>
    cases h
    rfl
  | arg :: rest =>
    rw [withoutSubplansAll] at h
    split at h
    next f o hf ho =>
      cases h
      rw [truthAll, withoutSubplans_truth arg f hf, withoutSubplansAll_truth rest o ho, map_cons]
    next => cases h

end

variable {clause : RestrictionClause}

lemma firstSubplan_truth {s : SubPlan} (h : clause.firstSubplan = some s) :
    clause.truth p sem context row = s.truth p sem context row := by
  rw [firstSubplan.eq_def] at h
  split at h
  · rw [truth, Option.some.inj h]
  · rw [truth, Option.some.inj h]
  · cases h

lemma extractSubplan_eq_some {l : LiftedSubPlan} (h : p.extractSubplan clause = some l) :
    clause.unwrapNot.1.firstSubplan = some l.subplan ∧
      (l.subplan.subLinkType = .existsSublink ∨ l.subplan.subLinkType = .anySublink) ∧
      p.innerRoot l.subplan.planId = some l.innerRoot ∧ l.anti = clause.unwrapNot.2 := by
  obtain ⟨s, hs, h⟩ := Option.bind_eq_some_iff.mp h
  split_ifs at h with ht
  obtain ⟨i, hi, h⟩ := Option.bind_eq_some_iff.mp h
  cases h
  exact ⟨hs, ht, hi, rfl⟩

variable (cl : RestrictionClause)

lemma unwrapNot_truth :
    cl.truth p sem context row = if cl.unwrapNot.2 then
      not (cl.unwrapNot.1.truth p sem context row) else cl.unwrapNot.1.truth p sem context row := by
  rw [unwrapNot.eq_def]
  split
  · simp only [truth, truthAll, all_singleton, if_true]
  · rfl

lemma extractSubplan_truth {l : LiftedSubPlan} (h : p.extractSubplan clause = some l) :
    clause.truth p sem context row = l.truth p sem context row := by
  obtain ⟨hf, -, -, ha⟩ := extractSubplan_eq_some h
  rw [unwrapNot_truth, firstSubplan_truth hf, LiftedSubPlan.truth, ha]

/-- The values of the model are not rows, so that a NULL test asks the same of all. -/
def PlainNullTests (backend : Backend) : Prop :=
  ∀ value, (backend.rowNullTest .isNull value).truth = some value.isNone

lemma nullTestedVar_truth (hp : PlainNullTests context.backend) {varno va : ℤ}
    (h : nullTestedVar clause = some (varno, va)) :
    clause.truth p sem context row = some (context.columnValue p.root row varno va).isNone := by
  rw [nullTestedVar.eq_def] at h
  split at h
  next a arg =>
    split at h
    next own o v hva =>
      split_ifs at h
      cases h
      have hv := eval_column context p.root row arg hva
      rw [← hv]
      cases a with
      | false => rfl
      | true => exact hp _
    next => cases h
  next => cases h

lemma unwrapRestriction_truth :
    cl.unwrapRestriction.truth p sem context row = cl.truth p sem context row := by
  rw [unwrapRestriction.eq_def]
  split
  · rw [truth]
  · rfl

variable {l : LiftedMarkSubPlan}

lemma matchMarkBranches_eq_some {n s : RestrictionClause} (h : p.matchMarkBranches n s = some l) :
    nullTestedVar n = some (l.nullVarno, l.nullAttno) ∧
      p.extractSubplan s = some l.toLiftedSubPlan ∧ l.subplan.subLinkType = .anySublink := by
  obtain ⟨c, hc, h⟩ := Option.bind_eq_some_iff.mp h
  obtain ⟨own, ho, h⟩ := Option.bind_eq_some_iff.mp h
  obtain ⟨t, -, h⟩ := Option.bind_eq_some_iff.mp h
  split_ifs at h with ha
  cases h
  exact ⟨hc, ho, ha.1⟩

lemma extractMarkSubplan_truth (hp : PlainNullTests context.backend)
    (h : p.extractMarkSubplan clause = some l) :
    clause.truth p sem context row = some true ↔ l.truth p sem context row = some true := by
  rw [extractMarkSubplan.eq_def] at h
  split at h
  next f s =>
    have ho : truth p sem context row (.bool .or [f, s]) =
        some true ↔ f.unwrapRestriction.truth p sem context row = some true ∨
          s.unwrapRestriction.truth p sem context row = some true := by
      rw [truth, Truth.any_eq_true, unwrapRestriction_truth, unwrapRestriction_truth]
      simp [truthAll, eq_comm]
    rw [ho, LiftedMarkSubPlan.truth, or_eq_true]
    rcases Option.or_eq_some_iff.mp h with hm | ⟨-, hm⟩
    · obtain ⟨hn, hs, -⟩ := matchMarkBranches_eq_some hm
      rw [nullTestedVar_truth hp hn, extractSubplan_truth hs]
    · obtain ⟨hn, hs, -⟩ := matchMarkBranches_eq_some hm
      rw [nullTestedVar_truth hp hn, extractSubplan_truth hs, or_comm]
  next => cases h

/-- Everything that was taken off a list of restrictions is TRUE. -/
def ClassifiedRestrictions.AllTrue (planner : SubplanPlanner σ) (sem : SubquerySemantics)
    (context : QueryContext) (row : Row ℤ) (classified : ClassifiedRestrictions) : Prop :=
  (∀ clause ∈ classified.ordinaryClauses,
      context.clauseTruth planner.root row clause = some true) ∧
    (∀ lifted ∈ classified.topLevel, lifted.truth planner sem context row = some true) ∧
    ∀ lifted ∈ classified.mark, lifted.truth planner sem context row = some true

/-- PostgreSQL's form of a clause for its OR branches means the same. -/
def BaseRestriction.Consistent (planner : SubplanPlanner σ) (sem : SubquerySemantics)
    (restriction : BaseRestriction) : Prop :=
  ∀ orclause, restriction.orclause = some orclause → ∀ context row,
    orclause.truth planner sem context row = restriction.clause.truth planner sem context row

lemma classifyRestriction_allTrue (hp : PlainNullTests context.backend)
    {c next : ClassifiedRestrictions} {r : BaseRestriction} (hc : r.Consistent p sem)
    (h : p.classifyRestriction c r = some next) :
    next.AllTrue p sem context row ↔ c.AllTrue p sem context row ∧
      r.clause.truth p sem context row = some true := by
  rw [classifyRestriction] at h
  split at h
  next l hl =>
    cases h
    rw [extractSubplan_truth hl]
    simp only [ClassifiedRestrictions.AllTrue, forall_mem_append, forall_mem_singleton]
    tauto
  next =>
    split at h
    next l hl =>
      cases h
      have ho : (r.orclause.getD r.clause).truth p sem context
          row = r.clause.truth p sem context row := by
        cases hor : r.orclause with
        | none => rfl
        | some o => exact hc o hor context row
      rw [← ho, extractMarkSubplan_truth hp hl]
      simp only [ClassifiedRestrictions.AllTrue, forall_mem_append, forall_mem_singleton]
      tauto
    next =>
      split at h
      next clause hcl =>
        cases h
        rw [withoutSubplans_truth _ _ hcl]
        simp only [ClassifiedRestrictions.AllTrue, forall_mem_append, forall_mem_singleton]
        tauto
      next => cases h

lemma classifyRestrictions_allTrue (hp : PlainNullTests context.backend)
    {rs : List BaseRestriction} {c : ClassifiedRestrictions} (hc : ∀ r ∈ rs, r.Consistent p sem)
    (h : p.classifyRestrictions rs = some c) :
    c.AllTrue p sem context row ↔ ∀ r ∈ rs, r.clause.truth p sem context row = some true := by
  have hnew : ClassifiedRestrictions.new.AllTrue p sem context row := by
    simp [ClassifiedRestrictions.AllTrue, ClassifiedRestrictions.new]
  refine foldlM_eq_some (I := fun d s => s.AllTrue p sem context row ↔ ∀ r ∈ d,
    r.clause.truth p sem context row = some true) (fun r hr d s n hs hn => ?_) [] (by simp [hnew]) h
  rw [classifyRestriction_allTrue hp (hc r hr) hn, hs, forall_mem_append, forall_mem_singleton]

end Classified

/-! ## Joins that filter their left input -/

section Plans

variable {o : ℕ → ℤ → Bool} {j : JoinType} {left right : RelationNode} {keys : List JoinKey}
  {n : Bool} {mark : Option RelationMarkFilter} {node : JoinNode} {v r : ScanId → Prop}

/-- The join a lifted SubPlan becomes reads what its inputs hand on. -/
structure LiftedJoin (joinType : JoinType) (keys : List JoinKey) (nullAware : Bool)
    (mark : Option RelationMarkFilter) (leftVisible rightVisible : ScanId → Prop)
    (node : JoinNode) : Prop where
  built : joinNode joinType keys [] nullAware mark = some node
  leftOnly : node.joinType.emitsRight = false ∧ joinType.emitsRight = false
  noFilter : node.onFilter = []
  keys : ∀ key ∈ node.keys, leftVisible key.left.scan ∧ rightVisible key.right.scan
  mark : ∀ filter, node.markFilter = some filter → leftVisible filter.nullTest.scan

section

variable (h : LiftedJoin j keys n mark v r node) (hl : left.Outputs v)

include h hl

lemma LiftedJoin.outputs : (join j left right keys [] n mark).Outputs v := by
  refine ⟨fun s => ?_, fun q hq s => ?_⟩
  · rw [emits, h.leftOnly.2, Bool.false_and, Bool.or_false, hl.emits]
  · obtain ⟨lq, hlq, hq⟩ := Option.bind_eq_some_iff.mp hq
    obtain ⟨rq, -, hq⟩ := Option.bind_eq_some_iff.mp hq
    rw [h.built] at hq
    rw [← Option.some.inj hq, QueryNode.columns, h.leftOnly.1]
    exact hl.columns lq hlq s

lemma LiftedJoin.plan_iff (hr : right.Outputs r) (plan : DfPlan) :
    (join j left right keys [] n mark).plan o = some plan ↔
      ∃ l p, left.plan o = some l ∧ right.plan o = some p ∧ node.compile l p = some plan := by
  have hv {lq rq : QueryNode} (hlq : left.materialize = some lq)
      (hrq : right.materialize = some rq) :
      QueryNode.validate o (.join node lq rq) = true ↔
        lq.validate o = true ∧ rq.validate o = true := by
    have hk : (node.keys.all fun key => lq.columns.contains key.left.scan &&
        rq.columns.contains key.right.scan) = true := by
      refine all_eq_true.mpr fun key hke => ?_
      obtain ⟨hkl, hkr⟩ := h.keys key hke
      rw [Bool.and_eq_true, contains_iff_mem, contains_iff_mem]
      exact ⟨(hl.columns _ hlq _).mpr hkl, (hr.columns _ hrq _).mpr hkr⟩
    have hm : (node.markFilter.all fun f => lq.columns.contains f.nullTest.scan) = true := by
      cases hf : node.markFilter with
      | none => rfl
      | some f => exact contains_iff_mem.mpr ((hl.columns _ hlq _).mpr (h.mark f hf))
    rw [QueryNode.validate, hk, hm, h.noFilter]
    simp
  constructor
  · intro hp
    obtain ⟨q, hq, hq', hc⟩ := plan_eq_some hp
    obtain ⟨lq, hlq, hq⟩ := Option.bind_eq_some_iff.mp hq
    obtain ⟨rq, hrq, hq⟩ := Option.bind_eq_some_iff.mp hq
    rw [h.built] at hq
    cases hq
    obtain ⟨hvl, hvr⟩ := (hv hlq hrq).mp hq'
    obtain ⟨l, hlp, hc⟩ := Option.bind_eq_some_iff.mp hc
    obtain ⟨p, hrp, hc⟩ := Option.bind_eq_some_iff.mp hc
    exact ⟨l, p, plan_of_parts hlq hvl hlp, plan_of_parts hrq hvr hrp, hc⟩
  · rintro ⟨l, p, hlp, hrp, hc⟩
    obtain ⟨lq, hlq, hvl, hlp⟩ := plan_eq_some hlp
    obtain ⟨rq, hrq, hvr, hrp⟩ := plan_eq_some hrp
    have hq : (join j left right keys [] n mark).materialize = some (.join node lq rq) := by
      simp [materialize, hlq, hrq, h.built]
    refine plan_of_parts hq ((hv hlq hrq).mpr ⟨hvl, hvr⟩) ?_
    simp [QueryNode.compile, hlp, hrp, hc]

end

lemma joined_keepLeft (k : Row ScanId → Bool) (rs : Multiset (Row ScanId)) :
    (keepLeft k rs).map Row.joined = rs.filter fun l => k l = true := by
  have hj (l : Row ScanId) : Row.joined (some l, none) = l := by
    ext scan attno
    simp [Row.joined, Row.merge, Row.null]
  rw [keepLeft, Multiset.map_map]
  simp only [Function.comp_def, hj, Multiset.map_id']

/-- The join compiles, and keeps some rows of its left input. -/
def JoinNode.Filters (node : JoinNode)
    (keep : QueryContext → Multiset (Row ScanId) → Row ScanId → Bool) : Prop :=
  ∀ left right, ∃ plan, node.compile left right = some plan ∧ ∀ context,
    plan.rows context = (left.rows context).filter fun l =>
      keep context (right.rows context) l = true

variable (keys : List JoinKey)

lemma semi_filters : (mk .leftSemi keys [] false none).Filters fun c rs =>
      hasMatch (fun l r => joinsOn c keys [] (.merge l r)) rs := by
  refine fun left right => ⟨_, rfl, fun c => ?_⟩
  simp only [DfPlan.rows, conditions_holds, joinRows, joined_keepLeft]

lemma anti_filters : (mk .leftAnti keys [] false none).Filters fun c rs l =>
      !hasMatch (fun l r => joinsOn c keys [] (.merge l r)) rs l := by
  refine fun left right => ⟨_, rfl, fun c => ?_⟩
  simp only [DfPlan.rows, conditions_holds, joinRows, joined_keepLeft]

variable (key : JoinKey)

lemma nullAwareAnti_filters : (mk .leftAnti [key] [] true none).Filters fun c rs l =>
      !hasMatch (fun l r => c.keyTruth (.merge l r) key ≠ some false) rs l := by
  refine fun left right => ⟨_, rfl, fun c => Multiset.filter_congr fun l _ => ?_⟩
  rw [Bool.not_eq_true']
  rfl

/-- The mark: an antijoin also counts an inner NULL as a match. -/
def markMatch (key : JoinKey) (anti : Bool) (context : QueryContext) (l r : Row ScanId) : Bool :=
  context.keyTruth (.merge l r) key = some true ||
    (anti && (Row.merge l r key.right.scan key.right.attno).isNone)

def markOn (key : JoinKey) : Bool → List DfExpr
  | false => [.keyEq key]
  | true => [.or (.keyEq key) (.isNull key.right)]

lemma markOn_holds (a : Bool) (c : QueryContext) (l r : Row ScanId) :
    DfExpr.holds c (markOn key a) (.merge l r) = markMatch key a c l r := by
  rw [Bool.eq_iff_iff]
  cases a <;> simp [DfExpr.holds, markOn, markMatch, DfExpr.eval]

lemma mark_filters (anti : Bool) :
    (mk .leftMark [key] [] false (some ⟨key.left, anti⟩)).Filters fun c rows l =>
      (hasMatch (markMatch key anti c) rows l == !anti) ||
        (l key.left.scan key.left.attno).isNone := by
  intro left right
  have hc : (mk .leftMark [key] [] false (some ⟨key.left, anti⟩)).compile left
      right = some (.markFilter left right (markOn key anti) ⟨key.left, anti⟩) := by
    cases anti <;> rfl
  refine ⟨_, hc, fun c => Multiset.filter_congr fun l _ => ?_⟩
  rw [hasMatch_congr fun r _ => markOn_holds key anti c l r, Bool.or_eq_true,
    Option.isNone_iff_eq_none]

end Plans

end LagoDB.RelationTree
