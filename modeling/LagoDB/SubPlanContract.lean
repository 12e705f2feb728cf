import LagoDB.LiftedSubPlans

/-!
# The contract of lifted SubPlans

What PostgreSQL guarantees about the restrictions of a base relation, its equality
operators and its subqueries, and what follows for the key that a SubPlan's test
becomes: it compares the same values, whichever way round the test was written and
whichever equivalent column stands for the output of the subquery.
-/
namespace LagoDB.RelationTree

open Iceberg Negotiation ExceptLoop List Option RestrictionClause SubplanPlanner

variable {σ : Type}

/-! ## What PostgreSQL guarantees -/

mutual

/-- The columns a clause reads, those of the tests of SubPlans among them. -/
def RestrictionClause.columns : RestrictionClause → List (ℤ × ℤ)
  | .expr clause => columnsOf clause
  | .subplan own => own.testexpr.elim [] columnsOf
  | .alternatives subplans => subplans.flatMap fun own => own.testexpr.elim [] columnsOf
  | .bool _ args => columnsAll args
  | .restrictInfo clause => clause.columns
  | .other _ => []

def RestrictionClause.columnsAll : List RestrictionClause → List (ℤ × ℤ)
  | [] => []
  | arg :: rest => arg.columns ++ columnsAll rest

end

/-- PostgreSQL's hashable equality operators are symmetric, and NULL exactly for NULL
operands. -/
structure LiftingLaws (planner : SubplanPlanner σ) (context : QueryContext) : Prop where
  isLocal : context.isLocal = planner.isLocal
  symmetric : SymmetricKeys planner.facts context.backend
  strict : ∀ key, JoinKey.validateSemantics planner.facts key = true → ∀ a b,
    (context.backend.operator key.operator [a, b]).truth = none ↔ a = none ∨ b = none
  nullTests : PlainNullTests context.backend

/-- A tree for a subquery: it hands on what the subquery has, and returns its rows. -/
structure SubqueryTree (planner : SubplanPlanner σ) (sem : SubquerySemantics) (inner : ℕ)
    (right : RelationNode) : Prop where
  outputs : right.Outputs (sem.visible inner)
  rows : ∀ context plan, LiftingLaws planner context → right.plan planner.isLocal = some plan →
    plan.rows context = sem.rows context inner

/-- What is known about a base relation and the subqueries of its restrictions. -/
structure ScopeContract (planner : SubplanPlanner σ) (sem : SubquerySemantics)
    (scan : ScanId) : Prop where
  root : scan.root = planner.root
  subroots : ∀ inner, some inner ∈ planner.subroots → inner ≠ planner.root
  consistent : ∀ restriction ∈ planner.baserestrictinfo scan, restriction.Consistent planner sem
  /-- A restriction of a base relation reads no other relation of its scope. -/
  ownColumns : ∀ restriction ∈ planner.baserestrictinfo scan, ∀ clause,
    clause = restriction.clause ∨ restriction.orclause = some clause →
      ∀ column ∈ clause.columns, planner.isLocal planner.root column.1 = true →
        column.1 = scan.rti
  visible : ∀ inner other, sem.visible inner other → other.root = inner
  supported : ∀ context inner, ∀ found ∈ sem.rows context inner, ∀ other,
    ¬sem.visible inner other → ∀ attno, found other attno = none
  /-- The first output of a subquery is its column, or an equivalent one where that is
  gone. -/
  outputs : ∀ inner target column, planner.subplanOutput inner = some target →
    planner.inspectJoinColumn inner target = some column → ∀ other,
      Interchangeable (planner.eqClasses inner) column other → sem.visible inner other.scan →
        ∀ context, ∀ found ∈ sem.rows context inner,
          (sem.outputs context inner found).head? = some (found other.scan other.attno)

/-- Moreover, the trees built for the subqueries return their rows. -/
structure LiftingContract (planner : SubplanPlanner σ) (sem : SubquerySemantics)
    (scan : ScanId) : Prop extends ScopeContract planner sem scan where
  inner : ∀ inner relation allowMark, planner.findFinalRelation inner = some relation →
    Yields (planner.buildInnerSubtree inner relation allowMark) (SubqueryTree planner sem inner)

variable (planner : SubplanPlanner σ)

def InnerPlans : Prop :=
  ∀ inner relation allowMark, Yields (planner.buildInnerSubtree inner relation allowMark)
    fun right => ∃ plan, right.plan planner.isLocal = some plan

variable {p : SubplanPlanner σ} {sem : SubquerySemantics} {scan : ScanId}

/-! ## Keys of tests -/

/-- A test `x op $param`, either way round. -/
structure KeyTest (planner : SubplanPlanner σ) (lifted : LiftedSubPlan) (testexpr : PgExpr)
    (key : JoinKey) (paramId : ℕ) (first second : PgExpr) : Prop where
  paramIds : lifted.subplan.paramIds = [paramId]
  testexpr : testexpr = .op key.operator [first, second]
  operands : (planner.inspectJoinColumn planner.root first = some key.left ∧
      ∃ type, second.withoutRelabels = .param .exec paramId type) ∨
    (planner.inspectJoinColumn planner.root second = some key.left ∧
      ∃ type, first.withoutRelabels = .param .exec paramId type)

variable {d : ℕ} {first s : PgExpr}

lemma outerOperand_spec {o : PgExpr} (h : outerOperand d first s = some o) :
    (o = first ∧ ∃ t, s.withoutRelabels = .param .exec d t) ∨
      (o = s ∧ ∃ t, first.withoutRelabels = .param .exec d t) := by
  rw [outerOperand] at h
  split at h
  next hp =>
    split_ifs at h with hi
    obtain ⟨rfl, rfl⟩ := hi
    exact .inl ⟨(Option.some.inj h).symm, _, hp⟩
  next hp _ =>
    split_ifs at h with hi
    obtain ⟨rfl, rfl⟩ := hi
    exact .inr ⟨(Option.some.inj h).symm, _, hp⟩
  next => cases h

variable {lifted : LiftedSubPlan} {key : JoinKey} {io : PgExpr}

lemma lowerSubplanJoinKey_spec (h : p.lowerSubplanJoinKey lifted io = some key) :
    JoinKey.validateSemantics p.facts key = true ∧
      p.inspectJoinColumn lifted.innerRoot io = some key.right ∧
      ∃ t, lifted.subplan.testexpr = some t ∧ ∃ d first s, KeyTest p lifted t key d first s := by
  rw [lowerSubplanJoinKey] at h
  split at h
  next d n first s hpa ht =>
    obtain ⟨oe, ho, h⟩ := bind_eq_some_iff.mp h
    obtain ⟨o, hou, h⟩ := bind_eq_some_iff.mp h
    obtain ⟨i, hi, h⟩ := bind_eq_some_iff.mp h
    split_ifs at h
    obtain ⟨rfl, hv⟩ := tryNew_eq_some h
    refine ⟨hv, hi, _, ht, d, first, s, hpa, rfl, ?_⟩
    rcases outerOperand_spec ho with ⟨rfl, hp⟩ | ⟨rfl, hp⟩
    · exact .inl ⟨hou, hp⟩
    · exact .inr ⟨hou, hp⟩
  next => cases h

lemma inspectJoinColumn_spec {t : RelationTreePlanner σ} {r : ℕ} {e : PgExpr}
    {c : ScanColumn} (h : t.inspectJoinColumn r e = some c) :
    c.scan.root = r ∧ t.isLocal r c.scan.rti = true ∧
      ∃ vartype, e.withoutRelabels = .var c.scan.rti c.attno vartype := by
  rw [RelationTreePlanner.inspectJoinColumn] at h
  split at h
  next a v vartype hv =>
    split_ifs at h with hc
    cases h
    exact ⟨rfl, hc.2.1, vartype, hv⟩
  next => cases h

lemma columnsOf_of_withoutRelabels {e : PgExpr} {varno v : ℤ} {vartype : ExprType}
    (h : e.withoutRelabels = .var varno v vartype) : columnsOf e = [(varno, v)] := by
  induction e using PgExpr.withoutRelabels.induct with
  | case1 arg t ih => exact ih h
  | case2 e hn =>
    rw [PgExpr.withoutRelabels.eq_2 e hn] at h
    rw [h, columnsOf]

variable {t : PgExpr}

lemma KeyTest.column (h : KeyTest p lifted t key d first s) :
    (key.left.scan.rti, key.left.attno) ∈ columnsOf t := by
  rw [h.testexpr]
  simp only [columnsOf, columnsOfAll, append_nil, mem_append]
  rcases h.operands with ⟨ho, -⟩ | ⟨ho, -⟩
  · obtain ⟨-, -, v, hv⟩ := inspectJoinColumn_spec ho
    rw [columnsOf_of_withoutRelabels hv]
    simp
  · obtain ⟨-, -, v, hv⟩ := inspectJoinColumn_spec ho
    rw [columnsOf_of_withoutRelabels hv]
    simp

lemma KeyTest.truth (h : KeyTest p lifted t key d first s)
    (hv : JoinKey.validateSemantics p.facts key = true) {c : QueryContext} (hl : LiftingLaws p c)
    (row : Row ℤ) {vs : List PgValue} {value : PgValue} (hva : vs.head? = some value) :
    (c.withParams lifted.subplan.paramIds vs).clauseTruth p.root row t =
      (c.backend.operator key.operator [row key.left.scan.rti key.left.attno, value]).truth := by
  obtain ⟨r, rfl⟩ : ∃ r, vs = value :: r := List.head?_eq_some_iff.mp hva
  let bound := c.withParams lifted.subplan.paramIds (value :: r)
  have hp {e : PgExpr} {type : ExprType} (he : e.withoutRelabels = .param .exec d type) :
      e.eval bound.backend 0 ⟨bound.env.param, bound.columnValue p.root row⟩
        (bound.columnValue p.root row 0) = value := by
    rw [← PgExpr.eval_withoutRelabels, he, PgExpr.eval]
    simp [bound, QueryContext.withParams, h.paramIds]
  have hc {e : PgExpr} (he : p.inspectJoinColumn p.root e = some key.left) :
      e.eval bound.backend 0 ⟨bound.env.param, bound.columnValue p.root row⟩
        (bound.columnValue p.root row 0) = row key.left.scan.rti key.left.attno := by
    obtain ⟨-, hlo, v, hvar⟩ := inspectJoinColumn_spec he
    have hown : bound.isLocal p.root key.left.scan.rti = true := by
      rw [← hlo, ← hl.isLocal]
      rfl
    rw [eval_column bound p.root row e hvar, QueryContext.columnValue, hown, if_pos rfl]
  have ht : bound.clauseTruth p.root row t = (c.backend.operator
      key.operator [first.eval bound.backend 0 ⟨bound.env.param,
          bound.columnValue p.root row⟩ (bound.columnValue p.root row 0),
        s.eval bound.backend 0 ⟨bound.env.param, bound.columnValue p.root row⟩
          (bound.columnValue p.root row 0)]).truth := by
    rw [h.testexpr]
    rfl
  rcases h.operands with ⟨ho, type, hs⟩ | ⟨ho, type, hf⟩
  · rw [ht, hc ho, hp hs]
  · rw [ht, hc ho, hp hf, hl.symmetric key hv]

/-- The key a test became, over the scan and the tree of the subquery. -/
structure OrientedTest (planner : SubplanPlanner σ) (sem : SubquerySemantics) (scan : ScanId)
    (lifted : LiftedSubPlan) (oriented : JoinKey) : Prop where
  left : oriented.left.scan = scan
  right : sem.visible lifted.innerRoot oriented.right.scan
  valid : JoinKey.validateSemantics planner.facts oriented = true
  truth : ∀ testexpr, lifted.subplan.testexpr = some testexpr → ∀ context,
    LiftingLaws planner context → ∀ row, ∀ found ∈ sem.rows context lifted.innerRoot,
      (context.withParams lifted.subplan.paramIds
          (sem.outputs context lifted.innerRoot found)).clauseTruth planner.root row testexpr =
        (context.backend.operator oriented.operator
          [row scan.rti oriented.left.attno,
            found oriented.right.scan oriented.right.attno]).truth

/-- A lifted SubPlan of a restriction of the relation. -/
structure OwnSubPlan (planner : SubplanPlanner σ) (scan : ScanId) (lifted : LiftedSubPlan) :
    Prop where
  sublink : lifted.subplan.subLinkType = .existsSublink ∨ lifted.subplan.subLinkType = .anySublink
  innerRoot : planner.innerRoot lifted.subplan.planId = some lifted.innerRoot
  columns : ∀ testexpr, lifted.subplan.testexpr = some testexpr → ∀ column ∈ columnsOf testexpr,
    planner.isLocal planner.root column.1 = true → column.1 = scan.rti

lemma innerRoot_mem {planId : ℤ} {i : ℕ} (h : p.innerRoot planId = some i) :
    some i ∈ p.subroots := by
  rw [innerRoot] at h
  split_ifs at h
  rw [join_eq_some_iff] at h
  exact mem_of_getElem? h

lemma orientedKeys_test (hc : LiftingContract p sem scan)
    (how : OwnSubPlan p scan lifted) {left right : RelationNode}
    (hl : left.Outputs fun e => e = scan) (hr : right.Outputs (sem.visible lifted.innerRoot))
    (hou : p.subplanOutput lifted.innerRoot = some io) {r : JoinKey}
    (hke : p.lowerSubplanJoinKey lifted io = some key) (hor : r ∈ p.orientedKeys left right key) :
    OrientedTest p sem scan lifted r := by
  obtain ⟨hv, hin, t, ht, d, first, s, hte⟩ := lowerSubplanJoinKey_spec hke
  obtain ⟨hir, -⟩ := inspectJoinColumn_spec hin
  have hs : key.left.scan = scan := by
    have hco : key.left.scan.root = p.root ∧ p.isLocal p.root key.left.scan.rti = true := by
      rcases hte.operands with ⟨ho, -⟩ | ⟨ho, -⟩
      · exact ⟨(inspectJoinColumn_spec ho).1, (inspectJoinColumn_spec ho).2.1⟩
      · exact ⟨(inspectJoinColumn_spec ho).1, (inspectJoinColumn_spec ho).2.1⟩
    have hrt := how.columns t ht _ hte.column hco.2
    have hro : key.left.scan.root = scan.root := hco.1.trans hc.root.symm
    cases hks : key.left.scan
    cases hs : scan
    simp_all
  obtain ⟨ou, ho, o, hot, hvo, hcr⟩ := orientedKeys_endpoints hv hor
  obtain ⟨hi, hoth⟩ := endpoints_spec hot
  have hvi : RelationTreePlanner.isOutputVisible left right key.left = true := by
    simp [RelationTreePlanner.isOutputVisible, (hl.emits key.left.scan).mpr hs]
  have hk : ou = key.left := by simpa [RelationTreePlanner.endpoints, hvi] using ho
  have hf : o.scan ≠ scan := by
    intro hsa
    refine hc.subroots lifted.innerRoot (innerRoot_mem how.innerRoot) ?_
    rw [← hir, ← hoth, hsa, hc.root]
  obtain rfl : r = ⟨key.left, o, key.operator⟩ := by
    rcases hcr.same with hsa | htu
    · rw [hsa, hk]
    · have he := hcr.left
      rw [htu, hl.emits] at he
      exact absurd he hf
  have hov : sem.visible lifted.innerRoot o.scan := (hr.emits o.scan).mp hcr.right
  rw [hk] at hvo
  refine ⟨hs, hov, hvo, ?_⟩
  intro own hownT c hla row f hfo
  obtain rfl := Option.some.inj (ht.symm.trans hownT)
  rw [hir] at hi
  have hva := hc.outputs lifted.innerRoot io key.right hou hin o hi hov c f hfo
  rw [hte.truth hv hla row hva, hs]

structure SubplanInput (planner : SubplanPlanner σ) (sem : SubquerySemantics)
    (lifted : LiftedSubPlan) (input : RelationNode × Option PgExpr) : Prop where
  tree : SubqueryTree planner sem lifted.innerRoot input.1
  planned : InnerPlans planner → ∃ plan, input.1.plan planner.isLocal = some plan
  output : ∀ innerOutput, input.2 = some innerOutput →
    planner.subplanOutput lifted.innerRoot = some innerOutput

lemma buildSubplanInput_spec (hc : LiftingContract p sem scan) (f : LiftedSubPlan) (a : Bool) :
    Yields (p.buildSubplanInput f a) (SubplanInput p sem f) := by
  rw [buildSubplanInput]
  split_ifs with hd
  · exact decline_yields _
  · refine (orDecline_yields _).bind fun r hre => ?_
    refine (any_yields _).bind fun _ _ => ?_
    have hb : Yields (p.buildInnerSubtree f.innerRoot r a)
        fun right => SubqueryTree p sem f.innerRoot right ∧
          (InnerPlans p → ∃ plan, right.plan p.isLocal = some plan) :=
      fun s right s' h => ⟨hc.inner _ r a hre s right s' h, fun hp => hp _ r a s right s' h⟩
    refine hb.bind fun right hr => ?_
    split
    · exact Yields.pure ⟨hr.1, hr.2, fun _ hn => by cases hn⟩
    · refine (orDecline_yields _).bind fun o ho => ?_
      refine Yields.pure ⟨hr.1, hr.2, fun io hs => ?_⟩
      rw [ho, Option.some.inj hs]

lemma subplanKey_spec (hc : LiftingContract p sem scan) (how : OwnSubPlan p scan lifted)
    {left : RelationNode} (hl : left.Outputs fun e => e = scan) {i : RelationNode × Option PgExpr}
    (hi : SubplanInput p sem lifted i) :
    Yields (p.subplanKey left i.1 lifted i.2) (OrientedTest p sem scan lifted) := by
  refine (orDecline_yields _).bind fun io hou => ?_
  refine (orDecline_yields _).bind fun key hk => ?_
  have hori : Yields (p.orientJoinKey left i.1 key) fun r =>
      ∀ o, r = some o → o ∈ p.orientedKeys left i.1 key :=
    p.recordFirst_mem _
  refine hori.bind fun r hr => ?_
  refine (orDecline_yields _).mono fun o ho => ?_
  exact orientedKeys_test hc how hl hi.tree.outputs (hi.output io hou) hk (hr o ho)

/-! ## Restrictions read their own relation -/

mutual

lemma withoutSubplans_columns (l : RestrictionClause) (expr : PgExpr)
    (h : l.withoutSubplans = some expr) : columnsOf expr = l.columns := by
  match l with
  | .expr own => rw [← Option.some.inj h, columns]
  | .bool b args =>
    obtain ⟨e, he, rfl⟩ := map_eq_some_iff.mp h
    rw [columnsOf, columns, withoutSubplansAll_columns args e he]
  | .restrictInfo own => exact withoutSubplans_columns own expr h
  | .subplan _ | .alternatives _ | .other _ => cases h

lemma withoutSubplansAll_columns (args : List RestrictionClause) (es : List PgExpr)
    (h : withoutSubplansAll args = some es) : columnsOfAll es = columnsAll args := by
  match args with
  | [] =>
    cases h
    rfl
  | arg :: rest =>
    rw [withoutSubplansAll] at h
    split at h
    next first o hf ho =>
      cases h
      rw [columnsOfAll, columnsAll, withoutSubplans_columns arg first hf,
        withoutSubplansAll_columns rest o ho]
    next => cases h

end

/-- The columns of a clause among those of the relation with index `rti`. -/
def RestrictionClause.Own (rti : ℤ) (clause : RestrictionClause) :
    Prop :=
  ∀ column ∈ clause.columns, planner.isLocal planner.root column.1 = true → column.1 = rti

variable {l : RestrictionClause}

lemma RestrictionClause.Own.unwrapNot {r : ℤ} (h : l.Own p r) : l.unwrapNot.1.Own p r := by
  rw [unwrapNot.eq_def]
  split
  · intro c hc
    refine h c ?_
    exact mem_append_left _ hc
  · exact h

lemma RestrictionClause.Own.unwrapRestriction {r : ℤ} (h : l.Own p r) :
    l.unwrapRestriction.Own p r := by
  rw [unwrapRestriction.eq_def]
  split
  · intro c hc
    refine h c ?_
    rwa [columns]
  · exact h

lemma firstSubplan_columns {s : SubPlan} (h : l.firstSubplan = some s)
    (ht : s.testexpr = some t) {c : ℤ × ℤ} (hc : c ∈ columnsOf t) : c ∈ l.columns := by
  rw [firstSubplan.eq_def] at h
  split at h
  · cases h
    rw [columns, ht]
    exact hc
  · cases h
    rw [columns, flatMap_cons, ht]
    exact mem_append_left _ hc
  · cases h

lemma extractSubplan_own (h : p.extractSubplan l = some lifted) (ho : l.Own p scan.rti) :
    OwnSubPlan p scan lifted := by
  obtain ⟨hf, hs, hi, -⟩ := extractSubplan_eq_some h
  exact ⟨hs, hi, fun t ht c hc => ho.unwrapNot c (firstSubplan_columns hf ht hc)⟩

/-- What was recognised as a mark clause has a test. -/
structure OwnMarkSubPlan (planner : SubplanPlanner σ) (scan : ScanId)
    (lifted : LiftedMarkSubPlan) : Prop extends OwnSubPlan planner scan lifted.toLiftedSubPlan where
  tested : ∃ testexpr, lifted.subplan.testexpr = some testexpr

variable {f : LiftedMarkSubPlan}

lemma matchMarkBranches_own {n s : RestrictionClause} (h : p.matchMarkBranches n s = some f)
    (ho : s.Own p scan.rti) : OwnMarkSubPlan p scan f := by
  obtain ⟨-, hs, ha⟩ := matchMarkBranches_eq_some h
  exact ⟨extractSubplan_own hs ho, isSome_iff_exists.mp (f.subplan.any_test ha)⟩

lemma extractMarkSubplan_own (h : p.extractMarkSubplan l = some f) (ho : l.Own p scan.rti) :
    OwnMarkSubPlan p scan f := by
  rw [extractMarkSubplan.eq_def] at h
  split at h
  next first s =>
    have hf : first.Own p scan.rti := fun c hc => ho c (by simp [columns, columnsAll, hc])
    have hs : s.Own p scan.rti := fun c hc => ho c (by simp [columns, columnsAll, hc])
    rcases or_eq_some_iff.mp h with hm | ⟨-, hm⟩
    · exact matchMarkBranches_own hm hs.unwrapRestriction
    · exact matchMarkBranches_own hm hf.unwrapRestriction
  next => cases h

/-- What was taken off a list of restrictions reads the relation itself. -/
structure ClassifiedRestrictions.Own (planner : SubplanPlanner σ) (scan : ScanId)
    (classified : ClassifiedRestrictions) : Prop where
  ordinary : ∀ clause ∈ classified.ordinaryClauses, ∀ column ∈ columnsOf clause,
    planner.isLocal planner.root column.1 = true → column.1 = scan.rti
  topLevel : ∀ lifted ∈ classified.topLevel, OwnSubPlan planner scan lifted
  mark : ∀ lifted ∈ classified.mark, OwnMarkSubPlan planner scan lifted

lemma classifyRestriction_own {c next : ClassifiedRestrictions} {r : BaseRestriction}
    (hc : c.Own p scan) (ho : ∀ l, l = r.clause ∨ r.orclause = some l → l.Own p scan.rti)
    (h : p.classifyRestriction c r = some next) : next.Own p scan := by
  rw [classifyRestriction] at h
  split at h
  next lifted hl =>
    cases h
    refine ⟨hc.ordinary, forall_mem_append.mpr ⟨hc.topLevel, ?_⟩, hc.mark⟩
    exact forall_mem_singleton.mpr (extractSubplan_own hl (ho _ (.inl rfl)))
  next =>
    split at h
    next lifted hl =>
      cases h
      refine ⟨hc.ordinary, hc.topLevel, forall_mem_append.mpr ⟨hc.mark, ?_⟩⟩
      refine forall_mem_singleton.mpr (extractMarkSubplan_own hl (ho _ ?_))
      cases hor : r.orclause with
      | none => exact .inl rfl
      | some o => exact .inr rfl
    next =>
      split at h
      next l hcl =>
        cases h
        refine ⟨forall_mem_append.mpr ⟨hc.ordinary, ?_⟩, hc.topLevel, hc.mark⟩
        rw [forall_mem_singleton, withoutSubplans_columns _ _ hcl]
        exact ho _ (.inl rfl)
      next => cases h

lemma classifyRestrictions_own {rs : List BaseRestriction} {c : ClassifiedRestrictions}
    (ho : ∀ r ∈ rs, ∀ l, l = r.clause ∨ r.orclause = some l → l.Own p scan.rti)
    (h : p.classifyRestrictions rs = some c) : c.Own p scan := by
  have hnew : ClassifiedRestrictions.new.Own p scan := by
    constructor <;> simp [ClassifiedRestrictions.new]
  exact foldlM_eq_some (I := fun _ s => s.Own p scan)
    (fun r hr _ _ _ hs hn => classifyRestriction_own hs (ho r hr) hn) [] hnew h

end LagoDB.RelationTree
