import LagoDB.JoinClauses

/-!
# Executing a rebuilt join

The plan of a join is put together from the plans of its inputs. Its rows are
those of the join of the inputs' rows under all keys and match filters, as far as
the filters above the join keep them.
-/
namespace LagoDB.RelationTree

open JoinAlgebra List Option RelationTreePlanner RelationNode DfExpr JoinNode

variable {σ : Type}

/-! ## Plans of joins -/

/-- The scans whose columns a tree emits, before and after it is materialized. -/
structure RelationNode.Outputs (node : RelationNode) (visible : ScanId → Prop) : Prop where
  emits : ∀ scan, node.emits scan = true ↔ visible scan
  columns : ∀ query, node.materialize = some query → ∀ scan, scan ∈ query.columns ↔ visible scan

variable {l : ℕ → ℤ → Bool} {node : RelationNode} {plan : DfPlan}

lemma plan_eq_some (h : node.plan l = some plan) :
    ∃ query, node.materialize = some query ∧ query.validate l = true ∧
      query.compile = some plan := by
  obtain ⟨query, hq, hr⟩ := bind_eq_some_iff.mp h
  split_ifs at hr with hv
  exact ⟨query, hq, hv, hr⟩

lemma plan_of_parts {query : QueryNode} (hq : node.materialize = some query)
    (hv : query.validate l = true) (hp : query.compile = some plan) : node.plan l = some plan := by
  simp [RelationNode.plan, hq, hv, hp]

lemma joinNode_new {j : JoinType} {keys : List JoinKey} {o : List ExecutionExpr} {node : JoinNode}
    (h : new j keys o = some node) : node = ⟨j, keys, o, false, none⟩ ∧ j ≠ .leftMark := by
  rw [new] at h
  split_ifs at h with hd
  · refine ⟨(Option.some.inj h).symm, fun hm => hd ?_⟩
    simp [hm]

lemma toKind_of_ne_mark {j : JoinType} (h : j ≠ .leftMark) : ∃ k, j.toKind = some k := by
  cases j with
  | leftMark => exact absurd rfl h
  | _ => exact ⟨_, rfl⟩

def joinsOn (context : QueryContext) (keys : List JoinKey) (onFilters : List ExecutionExpr)
    (row : Row ScanId) : Bool :=
  (keys.all fun key => context.keyTruth row key == some true) &&
    onFilters.all fun expr => context.execTruth row expr == some true

def keeps (context : QueryContext) (postFilters : List ExecutionExpr) (row : Row ScanId) : Bool :=
  postFilters.all fun expr => context.execTruth row expr == some true

lemma conditions_holds (c : QueryContext) (j : JoinType) (keys : List JoinKey)
    (o : List ExecutionExpr) (row : Row ScanId) :
    holds c (conditions ⟨j, keys, o, false, none⟩) row = joinsOn c keys o row := by
  have ho : holds c (keys.map keyEq ++ o.map exec) row =
      joinsOn c keys o row := by
    simp [holds, joinsOn, eval, Function.comp_def]
  rw [conditions]
  simp only
  split_ifs with he
  · obtain ⟨hn, -⟩ := Bool.and_eq_true_iff.mp he
    rw [← ho, isEmpty_iff.mp hn]
    rfl
  · exact ho

section Level

variable {l : ℕ → ℤ → Bool} {s : JoinRestrictionScope} {keys : List JoinKey}
  {o : List ExecutionExpr}

structure JoinQuery (scope : JoinRestrictionScope) (keys : List JoinKey)
    (onFilters : List ExecutionExpr) (leftQuery rightQuery query : QueryNode) : Prop where
  left : scope.left.materialize = some leftQuery
  right : scope.right.materialize = some rightQuery
  query : query = .join ⟨scope.joinType, keys, onFilters, false, none⟩ leftQuery rightQuery
  ne_mark : scope.joinType ≠ .leftMark

lemma materialize_join {query : QueryNode}
    (h : (join s.joinType s.left s.right keys o false none).materialize = some query) :
    ∃ lq rq, JoinQuery s keys o lq rq query := by
  obtain ⟨lq, hl, h⟩ := bind_eq_some_iff.mp h
  obtain ⟨rq, hr, h⟩ := bind_eq_some_iff.mp h
  obtain ⟨node, hn, h⟩ := bind_eq_some_iff.mp h
  obtain ⟨rfl, hne⟩ := joinNode_new hn
  exact ⟨lq, rq, hl, hr, (Option.some.inj h).symm, hne⟩

section

variable {lq rq query : QueryNode} (h : JoinQuery s keys o lq rq query)

include h

lemma columns_join :
    query.columns = if s.joinType.emitsRight then lq.columns ++ rq.columns else lq.columns := by
  rw [h.query, QueryNode.columns]

lemma plan_join {plan : DfPlan} (hv : query.validate l = true) (hp : query.compile = some plan) :
    ∃ left right k, s.left.plan l = some left ∧
      s.right.plan l = some right ∧ s.joinType.toKind = some k ∧
      (∀ e ∈ o, ∀ scan ∈ e.scans l, scan ∈ lq.columns ∨ scan ∈ rq.columns) ∧
      plan = .joinOn k left right (conditions ⟨s.joinType, keys, o, false, none⟩) := by
  obtain ⟨k, hk⟩ := toKind_of_ne_mark h.ne_mark
  rw [h.query] at hv hp
  obtain ⟨left, hl, hp⟩ := bind_eq_some_iff.mp hp
  obtain ⟨right, hr, hp⟩ := bind_eq_some_iff.mp hp
  simp only [QueryNode.validate, Bool.and_eq_true] at hv
  obtain ⟨⟨⟨⟨hvl, hvr⟩, -⟩, ho⟩, -⟩ := hv
  refine ⟨left, right, k, plan_of_parts h.left hvl hl, plan_of_parts h.right hvr hr, hk, ?_, ?_⟩
  · intro e he scan hs
    have hre := all_eq_true.mp (all_eq_true.mp ho e he) scan hs
    simpa using hre
  · simp only [compile, Bool.false_eq_true, if_false, hk, map_some] at hp
    exact (Option.some.inj hp).symm

end

structure LevelPlan (isLocal : ℕ → ℤ → Bool) (scope : JoinRestrictionScope)
    (predicates : JoinLevelPredicates) (leftQuery rightQuery : QueryNode)
    (left right plan : DfPlan) (kind : JoinKind) : Prop where
  leftNode : scope.left.materialize = some leftQuery
  rightNode : scope.right.materialize = some rightQuery
  leftPlan : scope.left.plan isLocal = some left
  rightPlan : scope.right.plan isLocal = some right
  joinKind : scope.joinType.toKind = some kind
  visible : ∀ expr ∈ predicates.onFilters ++ predicates.postFilters,
    ∀ scan ∈ expr.scans isLocal, scan ∈ leftQuery.columns ∨ scan ∈ rightQuery.columns
  rows : ∀ context, plan.rows context =
    ((joinRows kind (fun l r => joinsOn context predicates.keys predicates.onFilters (.merge l r))
      (left.rows context) (right.rows context)).map Row.joined).filter fun row =>
        keeps context predicates.postFilters row = true

variable {ps : JoinLevelPredicates}

lemma levelPlan_of_plan {plan : DfPlan} (h : (levelNode s ps).plan l = some plan) :
    ∃ lq rq left right k, LevelPlan l s ps lq rq left right plan k := by
  obtain ⟨query, hq, hv, hp⟩ := plan_eq_some h
  rw [levelNode] at hq
  split_ifs at hq with hpo
  · obtain ⟨lq, rq, hj⟩ := materialize_join hq
    obtain ⟨left, right, k, hl, hr, hk, ho, rfl⟩ := plan_join hj hv hp
    have hn : ps.postFilters = [] := isEmpty_iff.mp hpo
    refine ⟨lq, rq, left, right, k, hj.left, hj.right, hl, hr, hk, ?_, fun c => ?_⟩
    · rw [hn, append_nil]
      exact ho
    · simp only [DfPlan.rows, conditions_holds, keeps, hn, all_nil, Multiset.filter_true]
  · obtain ⟨i, hi, hq⟩ := bind_eq_some_iff.mp hq
    obtain ⟨lq, rq, hj⟩ := materialize_join hi
    have hfi : query = .filter i ps.postFilters := by
      cases hf : ps.postFilters with
      | nil => simp [hf] at hpo
      | cons e r =>
        rw [hf] at hq
        exact (Option.some.inj hq).symm
    rw [hfi] at hv hp
    obtain ⟨jp, hjp, hp⟩ := bind_eq_some_iff.mp hp
    cases hp
    rw [QueryNode.validate, Bool.and_eq_true] at hv
    obtain ⟨left, right, k, hl, hr, hk, ho, rfl⟩ := plan_join hj hv.1 hjp
    refine ⟨lq, rq, left, right, k, hj.left, hj.right, hl, hr, hk, ?_, fun c => ?_⟩
    · rw [forall_mem_append]
      refine ⟨ho, fun e he scan hs => ?_⟩
      have hre := all_eq_true.mp (all_eq_true.mp hv.2 e he) scan hs
      have hm : scan ∈ i.columns := contains_iff_mem.mp hre
      rw [columns_join hj] at hm
      split_ifs at hm
      · exact mem_append.mp hm
      · exact .inl hm
    · simp only [DfPlan.rows, conditions_holds]
      simp [holds, keeps, eval, Function.comp_def]

lemma levelNode_outputs {l r : ScanId → Prop} (hl : s.left.Outputs l) (hr : s.right.Outputs r) :
    (levelNode s ps).Outputs fun scan => l scan ∨ s.joinType.emitsRight = true ∧ r scan := by
  have hj : (join s.joinType s.left s.right ps.keys ps.onFilters false none).Outputs fun scan =>
        l scan ∨ s.joinType.emitsRight = true ∧ r scan := by
    refine ⟨fun scan => ?_, fun query hq scan => ?_⟩
    · rw [emits, Bool.or_eq_true, Bool.and_eq_true, hl.emits, hr.emits]
    · obtain ⟨q, rightQuery, hj⟩ := materialize_join hq
      rw [columns_join hj]
      split_ifs with he
      · rw [mem_append, hl.columns q hj.left, hr.columns rightQuery hj.right]
        simp [he]
      · rw [hl.columns q hj.left]
        simp [he]
  rw [levelNode]
  split_ifs with hp
  · exact hj
  · refine ⟨fun scan => ?_, fun query hq scan => ?_⟩
    · rw [emits]
      exact hj.emits scan
    · obtain ⟨i, hi, hq⟩ := bind_eq_some_iff.mp hq
      rw [← hj.columns i hi scan]
      cases hf : ps.postFilters with
      | nil => simp [hf] at hp
      | cons e rest =>
        rw [hf] at hq
        rw [← Option.some.inj hq, QueryNode.columns]

end Level

end LagoDB.RelationTree
