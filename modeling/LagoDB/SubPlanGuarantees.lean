import LagoDB.JoinGuarantees
import LagoDB.SubPlanContract

/-!
# Scans with lifted SubPlans

What a scan with restrictions returns, from what PostgreSQL guarantees about its
clauses, its equality operators and the trees built for subqueries.
-/
namespace LagoDB.RelationTree

open SqlLogic Negotiation JoinAlgebra ExceptLoop List QueryContext SubplanPlanner ExecutionExpr

variable {σ : Type}

/-! ## Filters over a scan -/

/-- The tree returns the rows of the scan for which some conditions are TRUE. -/
structure Lifts (planner : SubplanPlanner σ) (scan : ScanId)
    (conditions : List (QueryContext → Row ℤ → Truth)) (node : RelationNode) : Prop where
  outputs : node.Outputs fun emitted => emitted = scan
  rows : ∀ context plan, LiftingLaws planner context → node.plan planner.isLocal = some plan →
    plan.rows context = ((context.contents scan).filter fun tuple =>
      (conditions.all fun condition =>
        condition context (relationRow scan.rti tuple) == some true) = true).map
      (scanRow scan)
  planned : InnerPlans planner → ∃ plan, node.plan planner.isLocal = some plan

variable {planner p : SubplanPlanner σ} {sem : SubquerySemantics} {scan : ScanId}
  {cs : List (QueryContext → Row ℤ → Truth)} {left : RelationNode}

lemma Lifts.wrap {right : RelationNode} {inner : ℕ} {j : JoinType} {ks : List JoinKey} {n : Bool}
    {m : Option RelationMarkFilter} {node : JoinNode}
    {k : QueryContext → Multiset (Row ScanId) → Row ScanId → Bool}
    {c : QueryContext → Row ℤ → Truth} (h : Lifts p scan cs left)
    (hr : SubqueryTree p sem inner right)
    (hp : InnerPlans p → ∃ plan, right.plan p.isLocal = some plan)
    (hj : LiftedJoin j ks n m (fun e => e = scan) (sem.visible inner) node) (hf : node.Filters k)
    (hk : ∀ x, LiftingLaws p x → ∀ t, k x (sem.rows x inner) (scanRow scan t) = true ↔
      c x (relationRow scan.rti t) = some true) :
    Lifts p scan (cs ++ [c]) (.join j left right ks [] n m) := by
  refine ⟨hj.outputs h.outputs, fun x plan hl hpl => ?_, fun hi => ?_⟩
  · obtain ⟨l, r, hlp, hrp, hc⟩ := (hj.plan_iff h.outputs hr.outputs plan).mp hpl
    obtain ⟨f, hfi, hro⟩ := hf l r
    obtain rfl := Option.some.inj (hfi.symm.trans hc)
    rw [hro x, h.rows x l hl hlp, hr.rows x r hl hrp, Multiset.filter_map, Multiset.filter_filter]
    congr 1
    refine Multiset.filter_congr fun t _ => ?_
    rw [Function.comp_apply, hk x hl t, and_comm]
    simp
  · obtain ⟨l, hlp⟩ := h.planned hi
    obtain ⟨r, hrp⟩ := hp hi
    obtain ⟨plan, hc, -⟩ := hf l r
    exact ⟨plan, (hj.plan_iff h.outputs hr.outputs plan).mpr ⟨l, r, hlp, hrp, hc⟩⟩

/-! ## One SubPlan -/

lemma scanRow_same (t : ℤ → PgValue) : scanRow scan t scan = t := if_pos rfl

lemma relationRow_same (rti : ℤ) (t : ℤ → PgValue) : relationRow rti t rti = t := if_pos rfl

variable {lifted : LiftedSubPlan}

lemma truth_of_exists (hown : OwnSubPlan p scan lifted)
    (ht : lifted.subplan.testexpr = none) (x : QueryContext) (row : Row ℤ) :
    lifted.subplan.truth p sem x row = some (decide (0 < (sem.rows x lifted.innerRoot).card)) := by
  have he : lifted.subplan.subLinkType = .existsSublink := by
    refine hown.sublink.resolve_right fun ha => ?_
    simpa [ht] using lifted.subplan.any_test ha
  simp [SubPlan.truth, hown.innerRoot, he]

lemma truth_of_any (hown : OwnSubPlan p scan lifted)
    {te : PgExpr} (ht : lifted.subplan.testexpr = some te) (x : QueryContext) (row : Row ℤ) :
    lifted.subplan.truth p sem x row = anyTruth (fun found => (x.withParams lifted.subplan.paramIds
        (sem.outputs x lifted.innerRoot found)).clauseTruth p.root row te)
        (sem.rows x lifted.innerRoot) := by
  have ha : lifted.subplan.subLinkType = .anySublink := by
    refine hown.sublink.resolve_left fun he => ?_
    simpa [ht] using lifted.subplan.exists_test he
  simp [SubPlan.truth, hown.innerRoot, ha, ht]

section Merged

variable (hct : LiftingContract p sem scan) {l : LiftedSubPlan} (hown : OwnSubPlan p scan l)
  {o : JoinKey} (hte : OrientedTest p sem scan l o) {x : QueryContext} (t : ℤ → PgValue)
  {found : Row ScanId} (hf : found ∈ sem.rows x l.innerRoot)

include hct hown

lemma not_visible_scan : ¬sem.visible l.innerRoot scan := by
  intro hv
  refine hct.subroots l.innerRoot (innerRoot_mem hown.innerRoot) ?_
  rw [← hct.visible l.innerRoot scan hv, hct.root]

include hf in
lemma merge_left (a : ℤ) : Row.merge (scanRow scan t) found scan a = t a := by
  have hn : found scan a = none := hct.supported x l.innerRoot found hf scan
      (not_visible_scan hct hown) a
  rw [Row.merge, hn, Option.or_none, scanRow_same]

include hte in
lemma merge_right : Row.merge (scanRow scan t) found o.right.scan
    o.right.attno = found o.right.scan o.right.attno := by
  have hne : o.right.scan ≠ scan := fun hs => not_visible_scan hct hown (hs ▸ hte.right)
  rw [Row.merge, scanRow, if_neg hne, Option.none_or]

include hte hf in
lemma OrientedTest.keyTruth_eq (hl : LiftingLaws p x) {te : PgExpr}
    (ht : l.subplan.testexpr = some te) :
    (x.withParams l.subplan.paramIds (sem.outputs x l.innerRoot found)).clauseTruth p.root
      (relationRow scan.rti t) te = x.keyTruth (.merge (scanRow scan t) found) o := by
  rw [hte.truth te ht x hl _ found hf, keyTruth, hte.left, merge_left hct hown t hf,
    merge_right hct hown hte t, relationRow_same]

variable {te : PgExpr} (hs : l.subplan.testexpr = some te) (hl : LiftingLaws p x)

include hte hl

include hs in
/-- `x IN S` is TRUE if some row matches, and FALSE if no comparison is TRUE or NULL. -/
lemma truth_of_key : (l.subplan.truth p sem x (relationRow scan.rti t) = some true ↔
      ∃ found ∈ sem.rows x l.innerRoot, x.keyTruth (.merge (scanRow scan t) found) o = some true) ∧
    (l.subplan.truth p sem x (relationRow scan.rti t) = some false ↔
      ∀ found ∈ sem.rows x l.innerRoot, x.keyTruth (.merge (scanRow scan t) found) o =
          some false) := by
  have hk (found : Row ScanId) (hf : found ∈ sem.rows x l.innerRoot) :=
    hte.keyTruth_eq hct hown t hf hl hs
  rw [truth_of_any hown hs, anyTruth_eq_true, anyTruth_eq_false]
  constructor
  · exact exists_congr fun found => and_congr_right fun hf => by rw [hk found hf]
  · exact forall₂_congr fun found hf => by rw [hk found hf]

/-- Of a column that is not NULL, the mark condition of NOT IN fails for a row exactly
if the comparison is FALSE. -/
lemma markMatch_anti {found : Row ScanId} (hf : found ∈ sem.rows x l.innerRoot)
    (hv : t o.left.attno ≠ none) :
    markMatch o true x (scanRow scan t) found = false ↔
      x.keyTruth (.merge (scanRow scan t) found) o = some false := by
  have hn := hl.strict o hte.valid (t o.left.attno) (found o.right.scan o.right.attno)
  have hk : x.keyTruth (.merge (scanRow scan t) found) o =
      (x.backend.operator o.operator [t o.left.attno, found o.right.scan o.right.attno]).truth := by
    rw [keyTruth, hte.left, merge_left hct hown t hf, merge_right hct hown hte t]
  rw [markMatch, merge_right hct hown hte t, hk]
  simp only [hv, false_or] at hn
  rcases ht : (x.backend.operator o.operator [t o.left.attno,
    found o.right.scan o.right.attno]).truth with _ | _ | _
  · simp [hn.mp ht]
  · have hs : found o.right.scan o.right.attno ≠ none := fun hno => by
      rw [hn.mpr hno] at ht
      cases ht
    simpa using Option.isSome_iff_ne_none.mpr hs
  · simp

end Merged

open LiftedSubPlan QueryContext DfExpr

lemma LiftedSubPlan.truth_eq_true (lifted : LiftedSubPlan) (x : QueryContext)
    (row : Row ℤ) : lifted.truth p sem x row = some true ↔
      lifted.subplan.truth p sem x row = some !lifted.anti := by
  rw [truth]
  cases lifted.anti <;> simp

variable {i : RelationNode × Option PgExpr}

lemma Lifts.exists_join (hown : OwnSubPlan p scan lifted) (ht : lifted.subplan.testexpr = none)
    (hl : Lifts p scan cs left) (hi : SubplanInput p sem lifted i) :
    Lifts p scan (cs ++ [lifted.truth p sem])
      (.join (if lifted.anti then .leftAnti else .leftSemi) left i.1 [] [] false none) := by
  have hm (x : QueryContext) (l : Row ScanId) :
      hasMatch (fun l r => joinsOn x [] [] (.merge l r)) (sem.rows x lifted.innerRoot) l =
          decide (0 < (sem.rows x lifted.innerRoot).card) := by
    rw [Bool.eq_iff_iff, hasMatch_eq_true, decide_eq_true_iff, Multiset.card_pos_iff_exists_mem]
    simp [joinsOn]
  have hc (x : QueryContext) (row : Row ℤ) : lifted.truth p sem x row = some true ↔
        decide (0 < (sem.rows x lifted.innerRoot).card) = !lifted.anti := by
    rw [truth_eq_true, truth_of_exists hown ht, Option.some_inj]
  cases ha : lifted.anti with
  | false =>
    have hj : LiftedJoin .leftSemi [] false none (fun e => e = scan) (sem.visible lifted.innerRoot)
      ⟨.leftSemi, [], [], false, none⟩ := ⟨rfl, ⟨rfl, rfl⟩, rfl, by simp, by simp⟩
    refine hl.wrap hi.tree hi.planned hj (semi_filters []) fun x _ t => ?_
    rw [hm, hc, ha, Bool.not_false]
  | true =>
    have hj : LiftedJoin .leftAnti [] false none (fun e => e = scan) (sem.visible lifted.innerRoot)
      ⟨.leftAnti, [], [], false, none⟩ := ⟨rfl, ⟨rfl, rfl⟩, rfl, by simp, by simp⟩
    refine hl.wrap hi.tree hi.planned hj (anti_filters []) fun x _ t => ?_
    rw [hm, hc, ha, Bool.not_eq_true', Bool.not_true]

section

variable (hct : LiftingContract p sem scan)

include hct

variable {te : PgExpr} {key : JoinKey}

lemma Lifts.in_join {l : LiftedSubPlan} (hown : OwnSubPlan p scan l)
    (ht : l.subplan.testexpr = some te) (hl : Lifts p scan cs left) (hi : SubplanInput p sem l i)
    (hte : OrientedTest p sem scan l key) :
    Lifts p scan (cs ++ [l.truth p sem])
      (.join (if l.anti then .leftAnti else .leftSemi) left i.1 [key] [] l.anti none) := by
  have hk : ∀ o ∈ [key], o.left.scan = scan ∧ sem.visible l.innerRoot o.right.scan := by
    simpa using ⟨hte.left, hte.right⟩
  cases ha : l.anti with
  | false =>
    have hj : LiftedJoin .leftSemi [key] false none (fun e => e = scan) (sem.visible l.innerRoot)
      ⟨.leftSemi, [key], [], false, none⟩ := ⟨rfl, ⟨rfl, rfl⟩, rfl, hk, by simp⟩
    refine hl.wrap hi.tree hi.planned hj (semi_filters [key]) fun x hla t => ?_
    rw [truth_eq_true, ha, Bool.not_false, (truth_of_key hct hown hte t ht hla).1, hasMatch_eq_true]
    simp [joinsOn]
  | true =>
    have hj : LiftedJoin .leftAnti [key] true none (fun e => e = scan) (sem.visible l.innerRoot)
      ⟨.leftAnti, [key], [], true, none⟩ := ⟨rfl, ⟨rfl, rfl⟩, rfl, hk, by simp⟩
    refine hl.wrap hi.tree hi.planned hj (nullAwareAnti_filters key) fun x hla t => ?_
    rw [truth_eq_true, ha, Bool.not_true, (truth_of_key hct hown hte t ht hla).2,
      Bool.not_eq_true', ← Bool.not_eq_true, hasMatch_eq_true]
    simp

variable {l : LiftedMarkSubPlan}

lemma Lifts.mark_join (hown : OwnSubPlan p scan l.toLiftedSubPlan)
    (ht : l.subplan.testexpr = some te) (hle : Lifts p scan cs left)
    (hi : SubplanInput p sem l.toLiftedSubPlan i)
    (hte : OrientedTest p sem scan l.toLiftedSubPlan key) (hl : p.isLocal p.root l.nullVarno = true)
    (hva : key.left.scan = ⟨p.root, l.nullVarno⟩) (ha : key.left.attno = l.nullAttno) :
    Lifts p scan (cs ++ [l.truth p sem])
      (.join .leftMark left i.1 [key] [] false (some ⟨key.left, l.anti⟩)) := by
  have hj : LiftedJoin .leftMark [key] false (some ⟨key.left, l.anti⟩) (fun e => e = scan)
      (sem.visible l.innerRoot) ⟨.leftMark, [key], [], false, some ⟨key.left, l.anti⟩⟩ := by
    refine ⟨?_, ⟨rfl, rfl⟩, rfl, by simpa using ⟨hte.left, hte.right⟩, ?_⟩
    · simp [RelationNode.joinNode, JoinNode.newFilteredMarkSubplan, ScanColumn.sameStorageColumn]
    · rintro f ⟨⟩
      exact hte.left
  refine hle.wrap hi.tree hi.planned hj (mark_filters key l.anti) fun x hla t => ?_
  have hr : l.nullVarno = scan.rti := by rw [← hte.left, hva]
  have hv : x.columnValue p.root (relationRow scan.rti t) l.nullVarno
      l.nullAttno = t key.left.attno := by
    rw [columnValue, hla.isLocal, hl, if_pos rfl, hr, ha, relationRow_same]
  rw [LiftedMarkSubPlan.truth, Truth.or_eq_true, hv, Bool.or_eq_true, hte.left,
    scanRow_same, truth_eq_true, Option.some_inj, or_comm]
  by_cases hn : t key.left.attno = none
  · simp [hn]
  · have hs : (t key.left.attno).isNone = false := by simpa using Option.isSome_iff_ne_none.mpr hn
    rw [hs]
    simp only [Bool.false_eq_true, false_or]
    cases han : l.anti with
    | false =>
      rw [Bool.not_false, (truth_of_key hct hown hte t ht hla).1, beq_true, hasMatch_eq_true]
      simp [markMatch]
    | true =>
      rw [Bool.not_true, (truth_of_key hct hown hte t ht hla).2, beq_false,
        Bool.not_eq_true', ← Bool.not_eq_true, hasMatch_eq_true]
      simp only [not_exists, not_and, Bool.not_eq_true]
      exact forall₂_congr fun found hf => markMatch_anti hct hown hte t hla hf hn

lemma wrapTopLevelSubplan_lifts {l : LiftedSubPlan} (hown : OwnSubPlan p scan l)
    (hl : Lifts p scan cs left) :
    Yields (p.wrapTopLevelSubplan left l) (Lifts p scan
      (cs ++ [l.truth p sem])) := by
  refine (buildSubplanInput_spec hct l false).bind fun i hi => ?_
  dsimp only
  split
  next ht => exact Yields.pure (hl.exists_join hown ht hi)
  next testexpr ht =>
    refine (subplanKey_spec hct hown hl.outputs hi).bind fun key hte => ?_
    exact Yields.pure (hl.in_join hct hown ht hi hte)

lemma wrapMarkSubplan_lifts (hown : OwnSubPlan p scan l.toLiftedSubPlan)
    (ht : l.subplan.testexpr = some te) (hl : Lifts p scan cs left) :
    Yields (p.wrapMarkSubplan left l) (Lifts p scan
      (cs ++ [l.truth p sem])) := by
  refine (buildSubplanInput_spec hct l.toLiftedSubPlan true).bind fun i hi => ?_
  refine (subplanKey_spec hct hown hl.outputs hi).bind fun key hte => ?_
  split_ifs with hc
  · exact Yields.pure (hl.mark_join hct hown ht hi hte hc.1 hc.2.1 hc.2.2)
  · exact decline_yields _

end

/-! ## The scan and all its SubPlans -/

lemma scopeRow_scanRow (hr : scan.root = p.root) (t : ℤ → PgValue) :
    scopeRow p.root (scanRow scan t) = relationRow scan.rti t := by
  have hs : scan = ⟨p.root, scan.rti⟩ := by rw [← hr]
  rw [hs, ← toScan_relationRow, scopeRow_toScan]

def ordinaryConditions (root : ℕ) (clauses : List PgExpr) :
    List (QueryContext → Row ℤ → Truth) :=
  clauses.map fun clause context row => context.clauseTruth root row clause

lemma scan_lifts (hr : scan.root = p.root) {l : List PgExpr}
    (hown : ∀ cl ∈ l, ∀ col ∈ columnsOf cl, p.isLocal p.root col.1 = true → col.1 = scan.rti) :
    Lifts p scan (ordinaryConditions p.root l) (.scan scan (l.map (mk p.root))) := by
  have hv : QueryNode.validate p.isLocal (.scan scan (l.map (mk p.root))) = true := by
    simp only [QueryNode.validate, all_map, all_eq_true, Function.comp_apply,
      scans, mem_filter, decide_eq_true_iff]
    rintro cl hcl col ⟨hco, hl⟩
    rw [hown cl hcl col hco hl, ← hr]
  have hh (x : QueryContext) (t : ℤ → PgValue) : holds x ((l.map (mk p.root)).map exec)
      (scanRow scan t) = (ordinaryConditions p.root l).all fun c =>
          c x (relationRow scan.rti t) == some true := by
    simp [holds, ordinaryConditions, eval, execTruth, scopeRow_scanRow hr, Function.comp_def]
  -- an empty filter is left out of the plan
  have hc : ∃ plan, (RelationNode.scan scan (l.map (mk p.root))).plan p.isLocal = some plan ∧
        ∀ x, plan.rows x = ((x.contents scan).map (scanRow scan)).filter fun row => holds x
            ((l.map (mk p.root)).map exec) row = true := by
    cases l with
    | nil =>
      refine ⟨.scan scan, plan_of_parts rfl hv rfl, fun x => ?_⟩
      simp [DfPlan.rows, holds]
    | cons cl r => exact ⟨_, plan_of_parts rfl hv rfl, fun x => rfl⟩
  obtain ⟨plan, hp, hro⟩ := hc
  refine ⟨⟨fun e => ?_, fun q hq e => ?_⟩, fun x o _ ho => ?_, fun _ => ⟨plan, hp⟩⟩
  · rw [RelationNode.emits, decide_eq_true_iff, eq_comm]
  · rw [← Option.some.inj hq, QueryNode.columns, mem_singleton]
  · obtain rfl := Option.some.inj (hp.symm.trans ho)
    rw [hro x, Multiset.filter_map]
    simp only [Function.comp_def, hh]

lemma foldlM_lifts {α : Type} {w : RelationNode → α → Planning σ RelationNode}
    (c : α → QueryContext → Row ℤ → Truth) {ts : List α}
    (hst : ∀ lifted ∈ ts, ∀ cs left, Lifts p scan cs left →
      Yields (w left lifted) (Lifts p scan (cs ++ [c lifted]))) {s : RelationNode}
    (hs : Lifts p scan cs s) : Yields (ts.foldlM w s) (Lifts p scan (cs ++ ts.map c)) := by
  refine Yields.foldlM (I := fun d t => Lifts p scan (cs ++ d.map c) t)
    (fun lifted hl d left hle => ?_) [] s (by simpa using hs)
  rw [map_append, ← append_assoc]
  exact hst lifted hl _ left hle

/-- The tree keeps the rows of the relation for which all restrictions are TRUE, as
often as they are there, and has the columns of the relation only. -/
structure KeepsTrueRows (planner : SubplanPlanner σ) (sem : SubquerySemantics) (scan : ScanId)
    (node : RelationNode) : Prop where
  outputs : node.Outputs fun emitted => emitted = scan
  rows : ∀ context plan, LiftingLaws planner context → node.plan planner.isLocal = some plan →
    plan.rows context = ((context.contents scan).filter fun tuple =>
      ∀ restriction ∈ planner.baserestrictinfo scan,
        restriction.clause.truth planner sem context (relationRow scan.rti tuple) =
          some true).map (scanRow scan)
  planned : InnerPlans planner → ∃ plan, node.plan planner.isLocal = some plan

lemma buildScanWithRestrictions_yields (hc : LiftingContract planner sem scan) (a : Bool) :
    Yields (planner.buildScanWithRestrictions scan a) (KeepsTrueRows planner sem scan) := by
  refine (orDecline_yields _).bind fun c hcl => ?_
  split_ifs with hd
  · exact decline_yields _
  have hown := classifyRestrictions_own hc.ownColumns hcl
  refine (any_yields _).bind fun _ _ => ?_
  refine (foldlM_lifts (·.truth planner sem)
    (fun lifted hl _ _ => wrapTopLevelSubplan_lifts hc (hown.topLevel lifted hl))
    (scan_lifts hc.root hown.ordinary)).bind fun top ht => ?_
  refine (foldlM_lifts (·.truth planner sem)
    (fun lifted hl cs left hle => ?_) ht).mono fun n hn => ?_
  · obtain ⟨testexpr, hte⟩ := (hown.mark lifted hl).tested
    exact wrapMarkSubplan_lifts hc (hown.mark lifted hl).toOwnSubPlan hte hle
  refine ⟨hn.outputs, fun context p hla hp => ?_, hn.planned⟩
  rw [hn.rows context p hla hp]
  congr 1
  refine Multiset.filter_congr fun t _ => ?_
  rw [← classifyRestrictions_allTrue hla.nullTests hc.consistent hcl]
  simp [ClassifiedRestrictions.AllTrue, ordinaryConditions]

/-- The joins of a scope are over its scans with lifted SubPlans. -/
def SubplanPlanner.relations (planner : SubplanPlanner σ) : RelationTreePlanner σ :=
  { planner.toRelationTreePlanner with buildBaseSubtree := planner.buildScanWithRestrictions }

/-- The planner of a scope in which a subquery is planned as the join of its own scope.
`scopes` has what PostgreSQL knows of each; no SubPlan of a scope is planned in the scope
itself, and the depth bounds how far they lie in one another. -/
def SubplanPlanner.nested (scopes : ℕ → SubplanPlanner σ) : ℕ → ℕ → SubplanPlanner σ
  | 0, root => { scopes root with buildInnerSubtree := fun _ _ _ => decline }
  | depth + 1, root =>
    { scopes root with
      buildInnerSubtree := fun inner relation allowMark =>
        (nested scopes depth inner).relations.buildSelectedSubtree allowMark relation }

/-- Scans with lifted SubPlans are base relations for the joins of their scope. -/
def liftedBase {root : ℕ} (contract : ∀ rti, LiftingContract planner sem ⟨root, rti⟩) :
    BaseRelations planner.relations where
  laws := LiftingLaws planner
  rows context scan := (context.contents scan).filter fun tuple =>
    ∀ restriction ∈ planner.baserestrictinfo scan,
      restriction.clause.truth planner sem context (relationRow scan.rti tuple) = some true
  built scan allowMark hroot := by
    have hr : root = scan.root := (contract scan.rti).root.trans hroot.symm
    have hc : LiftingContract planner sem scan := by
      subst hr
      exact contract scan.rti
    exact (buildScanWithRestrictions_yields hc allowMark).mono fun node hn => ⟨hn.outputs, hn.rows⟩

/-- What a subquery returns is the output of the final relation of its scope, and no join
rebuilt for it loses a clause or has a unique input. -/
structure InnerScope (planner : SubplanPlanner σ) (sem : SubquerySemantics) (inner : ℕ)
    {own : RelationTreePlanner σ} (base : BaseRelations own) (relation : RelOptInfo) : Prop where
  root : own.root = inner
  isLocal : own.isLocal = planner.isLocal
  lawful : ∃ context, LiftingLaws planner context
  planned : ∀ context, LiftingLaws planner context → ∃ pg : PgSemantics, pg.context = context ∧
    Agrees own pg ∧ relation.Consistent own base pg ∧
      sem.visible inner = scansOf inner (pg.output relation).visible ∧
        sem.rows context inner = (pg.output relation).rows.map (toScan inner)
  joins : ∀ allowMark, Yields (own.buildTraced allowMark relation) fun traced =>
    ∀ trace ∈ traced.2, trace.Recovers ∧ trace.uniqueInput = false

lemma InnerScope.yields {inner : ℕ} {own : RelationTreePlanner σ} {b : BaseRelations own}
    {r : RelOptInfo} (h : InnerScope planner sem inner b r) (a : Bool) :
    Yields (own.buildSelectedSubtree a r) (SubqueryTree planner sem inner) := by
  intro s tree s' hb
  obtain ⟨js, ht⟩ := buildSelectedSubtree_eq_ok hb
  have hr := buildTraced_rebuilt b a r _ _ _ ht
  have hj := h.joins a _ _ _ ht
  have hpg (c : QueryContext) (hl : LiftingLaws planner c) : tree.Outputs (sem.visible inner) ∧ ∀ p,
      tree.plan planner.isLocal = some p → p.rows c = sem.rows c inner := by
    obtain ⟨pg, rfl, ha, hc, hv, hro⟩ := h.planned c hl
    have hre := hr.2 pg _ ha ⟨rfl, hc⟩ fun t htr => (hj t htr).1
    have hd (t) (htr : t ∈ js) : t.DropsUnmatched pg := hre.whole t htr (hj t htr).2
    rw [hv, hro, ← h.root, ← h.isLocal]
    exact ⟨hre.outputs, fun p hp => ((hre.rows p hp).mpr hd).1 p hp⟩
  obtain ⟨c, hl⟩ := h.lawful
  exact ⟨(hpg c hl).1, fun c p hl hp => (hpg c hl).2 p hp⟩

section Nested

variable {scopes : ℕ → SubplanPlanner σ}
  (hown : ∀ depth root rti, ScopeContract (.nested scopes depth root) sem ⟨root, rti⟩)
  (hinner : ∀ depth root
    (hc : ∀ inner rti, LiftingContract (.nested scopes depth inner) sem ⟨inner, rti⟩)
    inner relation, (scopes root).findFinalRelation inner = some relation →
      InnerScope (.nested scopes (depth + 1) root) sem inner (liftedBase (hc inner)) relation)

include hown hinner

lemma nested_contract (depth root : ℕ) (rti : ℤ) :
    LiftingContract (.nested scopes depth root) sem ⟨root, rti⟩ := by
  induction depth generalizing root rti with
  | zero => exact ⟨hown 0 root rti, fun _ _ _ _ => decline_yields _⟩
  | succ depth ih =>
    refine ⟨hown _ root rti, fun inner relation a hf => ?_⟩
    exact (hinner depth root ih inner relation hf).yields a

/-- However deep its SubPlans are nested, a scan keeps the rows for which all restrictions
are TRUE, if every scope meets its contract and the joins of subqueries keep theirs. -/
theorem nested_yields (depth root : ℕ) (rti : ℤ) (allowMark : Bool) :
    let planner := nested scopes depth root
    Yields (planner.buildScanWithRestrictions ⟨root, rti⟩ allowMark)
      (KeepsTrueRows planner sem ⟨root, rti⟩) :=
  buildScanWithRestrictions_yields (nested_contract hown hinner depth root rti) allowMark

end Nested

/-! ## A column tested against two subqueries -/

def inSubplan : SubPlan where
  subLinkType := .anySublink
  testexpr := some (.op int4Equal [int4Column 1 1, .param .exec 7 int4])
  paramIds := [7]
  planId := 1
  parParam := []
  exists_test := by simp
  any_test := by simp

def existsSubplan : SubPlan where
  subLinkType := .existsSublink
  testexpr := none
  paramIds := []
  planId := 2
  parParam := []
  exists_test := by simp
  any_test := by simp

/-- `x NOT IN (SELECT y FROM s) OR x IS NULL`. -/
def notInOrNull : RestrictionClause :=
  .bool .or [.bool .not [.subplan inSubplan], .expr (.nullTest .isNull false (int4Column 1 1))]

/-- Scope 0 has the restrictions, and the two scopes below it read a relation each. -/
def subqueryScopes (root : ℕ) : SubplanPlanner Unit where
  toRelationTreePlanner := { scanPlanner with root }
  baserestrictinfo scan :=
    if scan = ⟨0, 1⟩ then [⟨notInOrNull, none⟩, ⟨.subplan existsSubplan, none⟩] else []
  subroots := if root = 0 then [some 1, some 2] else []
  subqueryShapeIsSupported _ := true
  findFinalRelation inner := if inner = 0 then none else some (.base 1)
  targetList _ := [⟨int4Column 1 1, false⟩]
  addScope _ := pure ()
  buildInnerSubtree _ _ _ := decline

/-- Both subqueries return a relation as it is. -/
def subquerySemantics : SubquerySemantics where
  rows context inner := (context.contents ⟨inner, 1⟩).map (scanRow ⟨inner, 1⟩)
  visible inner scan := scan = ⟨inner, 1⟩
  outputs _ inner found := [found ⟨inner, 1⟩ 1]
  unlifted _ _ _ := none
  other _ _ _ := none

lemma nested_eq (scopes : ℕ → SubplanPlanner σ) (depth root : ℕ) :
    ∃ b, nested scopes depth root = { scopes root with buildInnerSubtree := b } := by
  cases depth <;> exact ⟨_, rfl⟩

variable (depth root : ℕ)

lemma subqueryScopes_contract (rti : ℤ) :
    ScopeContract (.nested subqueryScopes depth root) subquerySemantics ⟨root, rti⟩ := by
  obtain ⟨b, hb⟩ := nested_eq subqueryScopes depth root
  rw [hb]
  refine ⟨rfl, ?_, ?_, ?_, fun inner o hv => by rw [hv], ?_, ?_⟩
  · intro inner hi
    by_cases hr : root = 0
    · simp only [subqueryScopes, if_pos hr, mem_cons, not_mem_nil, or_false] at hi ⊢
      grind
    · simp [subqueryScopes, hr] at hi
  · intro r hr orclause ho
    by_cases hs : (⟨root, rti⟩ : ScanId) = ⟨0, 1⟩
    · simp only [subqueryScopes, if_pos hs, mem_cons, not_mem_nil, or_false] at hr
      rcases hr with rfl | rfl <;> cases ho
    · simp [subqueryScopes, hs] at hr
  · intro r hr clause hcl c hc _
    by_cases hs : (⟨root, rti⟩ : ScanId) = ⟨0, 1⟩
    · simp only [subqueryScopes, if_pos hs, mem_cons, not_mem_nil, or_false] at hr
      rcases hr with rfl | rfl <;> rcases hcl with rfl | hn
      · have hco : RestrictionClause.columns notInOrNull = [(1, 1), (1, 1)] := rfl
        simp only [hco, mem_cons, not_mem_nil, or_false, or_self] at hc
        rw [hs, hc]
      · cases hn
      · have hco : RestrictionClause.columns (.subplan existsSubplan) = [] := rfl
        simp [hco] at hc
      · cases hn
    · simp [subqueryScopes, hs] at hr
  · intro x inner found hf o hot a
    obtain ⟨tuple, -, rfl⟩ := Multiset.mem_map.mp hf
    have hne : o ≠ ⟨inner, 1⟩ := hot
    rw [scanRow, if_neg hne]
  · intro inner t c ht hc o hs hv x found hf
    obtain rfl : int4Column 1 1 = t := Option.some.inj ht
    obtain rfl : ⟨⟨inner, 1⟩, 1, int4, int4⟩ = c := Option.some.inj hc
    rcases hs with rfl | ⟨m, hm, -⟩
    · rfl
    · cases hm

lemma equality_lawful (cs : ScanId → Multiset (ℤ → PgValue)) :
    LiftingLaws (.nested subqueryScopes depth root) (equalityContext cs) := by
  obtain ⟨build, hb⟩ := nested_eq subqueryScopes depth root
  rw [hb]
  refine ⟨rfl, (equalitySemantics_agrees cs (fun _ => ⟨∅, 0, by simp⟩) fun _ => 0).symmetric,
    fun key _ a b => ?_, fun v => ?_⟩
  · cases a <;> cases b <;> simp [equalityContext, equalityBackend, PgValue.truth, PgValue.ofTruth]
  · cases v <;> rfl

lemma subqueryScopes_inner
    (hc : ∀ inner rti, LiftingContract (.nested subqueryScopes depth inner) subquerySemantics
      ⟨inner, rti⟩) (inner : ℕ) (r : RelOptInfo)
    (hf : (subqueryScopes root).findFinalRelation inner = some r) :
    InnerScope (.nested subqueryScopes (depth + 1) root) subquerySemantics inner
      (liftedBase (hc inner)) r := by
  by_cases hi : inner = 0
  · simp [subqueryScopes, hi] at hf
  obtain rfl : .base 1 = r := by simpa [subqueryScopes, hi] using hf
  obtain ⟨b, hb⟩ := nested_eq subqueryScopes depth inner
  have hroot : (nested subqueryScopes depth inner).relations.root = inner := by
    rw [hb]
    rfl
  have hloc : (nested subqueryScopes depth inner).relations.isLocal = fun _ _ => true := by
    rw [hb]
    rfl
  refine ⟨hroot, hloc, ⟨_, equality_lawful _ _ fun _ => 0⟩, fun x hl => ?_, fun a => ?_⟩
  · let out := scannedOutput (fun scan => x.contents ⟨inner, scan.rti⟩) 1
    have hl' : LiftingLaws (.nested subqueryScopes depth inner) x := by
      rw [hb]
      exact ⟨hl.isLocal, hl.symmetric, hl.strict, hl.nullTests⟩
    have hall : (liftedBase (hc inner)).rows x ⟨inner, 1⟩ = x.contents ⟨inner, 1⟩ := by
      refine Multiset.filter_eq_self.mpr fun tuple _ restriction hr => ?_
      simp [hb, subqueryScopes, hi] at hr
    refine ⟨⟨x, fun _ _ => none, fun _ => out, fun _ => 0⟩, rfl, ⟨hl'.isLocal, hl'.symmetric⟩,
      ⟨hl', rfl, ?_⟩, ?_, ?_⟩
    · rw [hroot, hall]
      rfl
    · exact (scansOf_singleton inner 1).symm
    · refine (Multiset.map_congr rfl fun t _ => ?_).trans (Multiset.map_map ..).symm
      exact (toScan_relationRow inner 1 t).symm
  · exact (any_yields _).bind fun _ _ => Yields.pure (by simp)

lemma subqueryContract : LiftingContract (.nested subqueryScopes 1 0) subquerySemantics ⟨0, 1⟩ :=
  nested_contract subqueryScopes_contract subqueryScopes_inner 1 0 1

/-- The joins over the scan: the keyless semijoin first, then the mark join. -/
def notInOrNullTree : RelationNode :=
  .join .leftMark (.join .leftSemi (.scan ⟨0, 1⟩ []) (.scan ⟨2, 1⟩ []) [] [] false none)
    (.scan ⟨1, 1⟩ []) [⟨⟨⟨0, 1⟩, 1, int4, int4⟩, ⟨⟨1, 1⟩, 1, int4, int4⟩, int4Equal⟩] [] false
    (some ⟨⟨⟨0, 1⟩, 1, int4, int4⟩, true⟩)

/-- The restricted relation has a NULL and two values, of which the subquery has one. -/
def subqueryContents (scan : ScanId) : Multiset (ℤ → PgValue) :=
  if scan = ⟨0, 1⟩ then {intTuple [1], intTuple [2], intTuple []}
  else if scan = ⟨1, 1⟩ then {intTuple [2]}
  else {intTuple [5]}

end LagoDB.RelationTree
