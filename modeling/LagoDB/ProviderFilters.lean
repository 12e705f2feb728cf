import LagoDB.NegotiationWalk

/-!
# Negotiation with a provider

A provider that plans predicate trees marks its answers correctly when its leaves
and connectives do. With any such provider negotiation keeps the clauses of a
scan.
-/
namespace LagoDB.Negotiation

open SqlLogic Pushdown Iceberg ExceptLoop PgScalarExprRef Truth

variable {σ P E Row : Type} {backend b : Backend} {relation r : ScannedRelation Row}

/-! ## Providers that plan trees -/

variable (costing : P → PushdownCosting)

/-- The answer a provider makes of a planned tree. -/
def FilterPlan.ofPredicatePlan
    (evaluation : P → FilterEvaluation) : PredicatePlan P → FilterPlan P
  | .unsupported => .unsupported
  | .partialTree predicate => .partialTree ⟨predicate, costing predicate, .perRow⟩
  | .exact predicate | .exactNoComplement predicate =>
    .exact ⟨predicate, costing predicate, .perRow⟩
  | .conservative predicate => .conservative ⟨predicate, costing predicate, evaluation predicate⟩

/-- A provider that plans each fragment's tree. -/
def treePlanner (planner : PredicateFragment → PredicatePlanner ScalarExpr PgComparisonOp P E)
    (costing : P → PushdownCosting) (evaluation : P → FilterEvaluation) :
    FilterPushdownPlanner σ P E where
  tryPlanFilter fragment state := do
    let plan ← fragment.root.planWith (planner fragment)
    pure (.ofPredicatePlan costing evaluation plan, state)

lemma treePlanner_honest {holds : Holds P Row}
    {l : PredicateFragment → PredicatePlanner ScalarExpr PgComparisonOp P E}
    (evaluation : P → FilterEvaluation)
    (hl : ∀ f vs, f.Describes vs → LeavesMeet (l f) (b.semantics r vs) fun p => holds p vs)
    (hla : ∀ f vs, ConnectiveLaws (l f) fun p => holds p vs) :
    (treePlanner l costing evaluation : FilterPushdownPlanner σ P E).Honest b r holds := by
  intro f s a s' ha
  obtain ⟨plan, hp, hpu⟩ := bind_eq_ok ha
  cases hpu
  have hm (vs : RuntimeValueBindings) (hv : f.Describes vs) := planWith_meets (hla f vs) f.root
    (fun leaf hle => hl f vs hv leaf (plannedLeaves_isLeaf f.root leaf hle)) plan hp
  cases plan with
  | unsupported => trivial
  | partialTree | conservative => exact hm
  | exact p => exact fun vs hv => (hm vs hv).1
  | exactNoComplement p => exact hm

/-! ## A backend and a provider -/

/-- A catalog's comparisons, LIKE and prefix tests, and nothing else. -/
def Backend.standard (catalog : Catalog) : Backend where
  catalog := catalog
  nextChar bytes := bytes.tail?
  operator node args :=
    match args, builtinSignature catalog node with
    | [left, right], some signature =>
      .ofTruth (signature.kind.truth (catalog.collate node.inputcollid) left.toSql right.toSql)
    | [left, right], none =>
      if node.opno = textLikeOperator then
        .ofTruth (SqlValue.likeTruth List.tail? left.toSql right.toSql)
      else .ofTruth (SqlValue.prefixTruth left.toSql right.toSql)
    | _, _ => none
  arrayOperator _ _ _ _ := none
  function _ args :=
    match args with
    | [text, pre] => .ofTruth (SqlValue.prefixTruth text.toSql pre.toSql)
    | [value] => value
    | _ => none
  rowNullTest _ _ := none
  other _ _ _ _ := none

open Backend

lemma standard_laws {c : Catalog}
    (hb : builtinSignature c booleanEquality = some ⟨.bool, .bool, 60, .equal⟩)
    (hl : c.forOperator textLikeOperator = none) (hpo : c.forOperator textPrefixOperator = none) :
    (standard c).Laws where
  comparison operator signature hs left right := by
    have hso : builtinSignature c operator = some signature := hs
    simp [standard, hso]
  booleanEquality := hb
  textLike operator ho _ _ text pattern := by
    have hn : builtinSignature c operator = none := by simp [builtinSignature, ho, hl]
    simp [standard, hn, ho]
  textPrefix operator ho _ _ text p := by
    have hn : builtinSignature c operator = none := by simp [builtinSignature, ho, hpo]
    have hoth : textPrefixOperator ≠ textLikeOperator := by decide
    simp [standard, hn, ho, hoth]
  startsWith function _ _ text p := by simp [standard]
  widening function source _ value := rfl

/-- A provider that evaluates comparisons and NULL tests itself and prunes with
nothing else. -/
def evaluatingPlanner (backend : Backend) (relation : ScannedRelation Row) :
    PredicatePlanner ScalarExpr PgComparisonOp (RuntimeValueBindings → Row → Truth) E where
  alwaysTrue := .ok (.exact fun _ _ => some true)
  alwaysFalse := .ok (.exact fun _ _ => some false)
  strictTrue _ := .ok .unsupported
  strictFalse _ := .ok .unsupported
  comparison operator left right :=
    .ok (.exact fun values => (backend.semantics relation values).compare operator left right)
  booleanTest _ _ := .ok .unsupported
  isNull value := .ok (.exact fun values row =>
    some ((backend.semantics relation values).isNull value row))
  isNotNull value := .ok (.exact fun values row =>
    some (!(backend.semantics relation values).isNull value row))
  isNan _ := .ok .unsupported
  isNotNan _ := .ok .unsupported
  startsWith _ _ := .ok .unsupported
  inSet _ _ _ := .ok (.conservative fun _ _ => some true)
  conjunction predicates values row := all (predicates.map (· values row))
  disjunction predicates values row := any (predicates.map (· values row))
  negate predicate values row := not (predicate values row)

def evaluates (predicate : RuntimeValueBindings → Row → Truth) (values : RuntimeValueBindings)
    (row : Row) : Bool :=
  predicate values row == some true

attribute [local simp] evaluatingPlanner evaluates

variable (vs : RuntimeValueBindings)

lemma evaluatingPlanner_laws :
    ConnectiveLaws (evaluatingPlanner b r : PredicatePlanner _ _ _ E) fun e => evaluates e vs where
  conjunction := by
    intro p _ row
    rw [Bool.eq_iff_iff]
    simp [all_eq_true]
  disjunction := by
    intro p _ row
    rw [Bool.eq_iff_iff]
    simp [any_eq_true]
  negateConjunction := by
    intro p _ row
    rw [Bool.eq_iff_iff]
    simp [all_eq_false]
  negateDisjunction := by
    intro p _ row
    rw [Bool.eq_iff_iff]
    simp [any_eq_false]
  negateNegate := by
    simp

lemma evaluatingPlanner_exact (c : RuntimeValueBindings → Row → Truth) (vs : RuntimeValueBindings) :
    (PredicatePlan.exact c).Meets (fun p => evaluates p vs)
      (evaluatingPlanner b r : PredicatePlanner _ _ _ E).negate (c vs) := by
  constructor
  · intro row
    simp
  · intro row
    simp

lemma evaluatingPlanner_leaves : LeavesMeet (evaluatingPlanner b r : PredicatePlanner _ _ _ E)
      (b.semantics r vs) fun p => evaluates p vs := by
  intro leaf hl plan hp
  cases leaf with
  | and | or | not => cases hl
  | inSet o v set =>
    cases hp
    intro row _
    rfl
  | alwaysTrue | alwaysFalse | comparison o left right | isNull v | isNotNull v =>
    exact Except.ok.inj hp ▸ evaluatingPlanner_exact _ vs
  | _ =>
    cases hp
    trivial

/-- Integer `<` and boolean `=`. -/
def integerCatalog : Catalog where
  forOperator opno :=
    if opno = 91 then some ⟨.bool, .bool, 60, .equal⟩
    else if opno = 97 then some ⟨.int4, .int4, 66, .less⟩ else none
  isDeterministic _ := true
  isByteOrdered _ := true
  collate _ := byteOrder
  otherOperator _ _ _ := none
  storedMember _ _ _ := none

def integerRelation : ScannedRelation ℤ := ⟨1, fun row _ => some (.scalar (.integral row))⟩

def integerNegotiator :
    FilterNegotiator Unit (RuntimeValueBindings → ℤ → Truth) Unit where
  planner := treePlanner (fun _ => evaluatingPlanner (.standard integerCatalog) integerRelation)
    (fun _ => .uncostedBestEffort) fun _ => .perRow
  normalizer := (Backend.standard integerCatalog).normalizer integerRelation
  restrictionIsSecurelyPromotable _ := true
  joinClauseIsMovableTo _ := true
  containVolatileFunctions _ := false
  containSubplans _ := false

lemma integerNegotiator_honest :
    integerNegotiator.planner.Honest (.standard integerCatalog) integerRelation evaluates :=
  treePlanner_honest _ _ (fun _ v _ => evaluatingPlanner_leaves v)
    fun _ v => evaluatingPlanner_laws v

/-- `column < bound`. -/
def columnBelow (bound : PgExpr) : PgExpr :=
  .op ⟨97, 66, .bool, 0, 0⟩ [.var 1 1 ⟨.int4, -1, 0⟩, bound]

def integerConst (value : ℤ) : PgExpr := .const ⟨.int4, -1, 0⟩ (some (.scalar (.integral value)))

def unplannable : PgExpr := .other 0 ⟨.bool, -1, 0⟩ []

lemma columnBelow_typed (b : PgExpr)
    (hb : ∀ n, parse b ≠ some (.var n) ∧ parse b ≠ some (.widenedIntegerVar n)) :
    (standard integerCatalog).Typed integerRelation (columnBelow b) := by
  intro s hs
  cases hs
  constructor
  · rintro n _ _ env row d hd
    cases hd
    rfl
  · rintro n _ (hp | hp)
    · exact absurd hp (hb n).1
    · exact absurd hp (hb n).2

/-- `column < $1 AND (column < 3 OR (column < 7 AND unplannable))` -/
def sampleClauses : List RestrictInfo :=
  [⟨1, columnBelow (.param .external 1 ⟨.int4, -1, 0⟩), false⟩,
    ⟨2, .bool .or [columnBelow (integerConst 3),
      .bool .and [columnBelow (integerConst 7), unplannable]], false⟩]

def integerFilters (rinfos : List RestrictInfo) :
    NegotiatedFilterSet (RuntimeValueBindings → ℤ → Truth) :=
  match integerNegotiator.negotiate rinfos .baseRestriction () with
  | .ok (out, _) => out
  | .error _ => .new

/-! ## Negotiation -/

/-- Nothing is lost and nothing is kept twice. -/
structure NegotiatedFilterSet.Preserves (backend : Backend) (relation : ScannedRelation Row)
    (holds : Holds P Row) (planner : FilterPushdownPlanner σ P E) (clauses : List PgExpr)
    (out : NegotiatedFilterSet P) : Prop where
  selects : ∀ env row, (∀ clause ∈ clauses, backend.truth relation env row clause = some true) ↔
    (∀ filter ∈ out.planned, filter.effective.contract = .exactRowFilter →
        out.passes backend relation holds env row filter = true) ∧
      ∀ qual ∈ out.residual, backend.truth relation env row qual = some true
  covers : ∀ env row, (∀ clause ∈ clauses, backend.truth relation env row clause = some true) →
    ∀ filter ∈ out.planned, out.passes backend relation holds env row filter = true
  /-- Each filter was planned from parts of the qual kept for it, and each slot of
  a part has the value it has in that part alone. -/
  slots : ∀ filter ∈ out.planned, ∃ qual clause root pieces,
    out.qualAt filter.qualLocation = some qual ∧ clause ∈ clauses ∧ qual.PartOf clause ∧
      Assembled (backend.normalizer relation) qual 0 root pieces ∧
      planner.Planned ⟨root, (slotsOf pieces).map RuntimeValueExpr.metadata⟩ filter.planned ∧
      ∀ env before piece after slot, pieces = before ++ piece :: after →
        slot < piece.bindings.length →
          backend.bindingValues relation env (out.slots filter) ((slotsOf before).length + slot) =
            backend.bindingValues relation env piece.bindings slot
  quals : ∃ parts, SplitsAll clauses parts ∧ (out.residual ++ out.recheck).Perm parts

/-- Negotiation keeps the clauses of a scan, for every provider that marks its
plans correctly. -/
theorem negotiateWithSource_preserves {holds : Holds P Row} (laws : backend.Laws)
    (negotiator : FilterNegotiator σ P E)
    (hnormalizer : negotiator.normalizer = backend.normalizer relation)
    (hhonest : negotiator.planner.Honest backend relation holds) (rinfos : List RestrictInfo)
    (htyped : ∀ rinfo ∈ rinfos, backend.Typed relation rinfo.clause)
    (sourceFor : RestrictInfo → ScanClauseSource) (state state' : σ) (out : NegotiatedFilterSet P)
    (h : negotiator.negotiateWithSource rinfos sourceFor state = .ok (out, state')) :
    out.Preserves backend relation holds negotiator.planner (scanClauses rinfos) := by
  have ho := negotiateWithSource_negotiated laws hhonest hnormalizer htyped sourceFor
    state out state' h
  refine ⟨ho.selects, ho.covers, fun f hf => ?_, ho.splits⟩
  obtain ⟨qual, clause, root, p, hq, hc, hpa, hr, hpi, hp⟩ := ho.traced f hf
  refine ⟨qual, clause, root, p, hq, hc, hpa, hr, hp, ?_⟩
  rintro env b pi a slot rfl hs
  rw [hpi]
  exact bindingValues_slotsOf backend relation env b a pi hs

lemma sampleClauses_typed (r : RestrictInfo) (hr : r ∈ sampleClauses) :
    (standard integerCatalog).Typed integerRelation r.clause := by
  simp only [sampleClauses, List.mem_cons, List.not_mem_nil, or_false] at hr
  rcases hr with rfl | rfl
  · exact columnBelow_typed _ (by simp [parse, PgExpr.withoutRelabels])
  · have hc (v : ℤ) := columnBelow_typed (integerConst v)
      (by simp [parse, PgExpr.withoutRelabels, integerConst])
    exact ⟨hc 3, ⟨hc 7, trivial, trivial⟩, trivial⟩

/-- The comparison with the parameter is exact; the disjunction is pruned with a
wider one and stays a residual qual. -/
theorem sampleClauses_preserved :
    (integerFilters sampleClauses).planned.map (·.effective.contract) =
        [.exactRowFilter, .conservativePruning] ∧
      (integerFilters sampleClauses).bindings.length = 3 ∧
      (integerFilters sampleClauses).Preserves (.standard integerCatalog) integerRelation evaluates
        integerNegotiator.planner (scanClauses sampleClauses) :=
  ⟨rfl, rfl, negotiateWithSource_preserves (standard_laws rfl rfl rfl) integerNegotiator rfl
    integerNegotiator_honest sampleClauses sampleClauses_typed (fun _ => .baseRestriction) () ()
    (integerFilters sampleClauses) rfl⟩

/-- A constant FALSE, which PostgreSQL checks in a gating node above the scan. -/
def gatedClauses : List RestrictInfo :=
  [⟨1, .const ⟨.bool, -1, 0⟩ (some (.scalar (.boolean false))), true⟩]

theorem gatedClauses_not_negotiated :
    integerNegotiator.negotiate gatedClauses .baseRestriction () =
        .ok (integerFilters gatedClauses, ()) ∧
      ¬ ∀ env row, (∀ rinfo ∈ gatedClauses, (Backend.standard integerCatalog).truth
            integerRelation env row rinfo.clause = some true) ↔
          (∀ filter ∈ (integerFilters gatedClauses).planned,
            filter.effective.contract = .exactRowFilter →
              (integerFilters gatedClauses).passes (.standard integerCatalog) integerRelation
                evaluates env row filter = true) ∧ ∀ qual ∈ (integerFilters gatedClauses).residual,
              (Backend.standard integerCatalog).truth integerRelation env row qual = some true := by
  refine ⟨rfl, fun hiff => ?_⟩
  have he : (integerFilters gatedClauses).planned = [] ∧
      (integerFilters gatedClauses).residual = [] := ⟨rfl, rfl⟩
  have ha := (hiff ⟨fun _ _ => none, fun _ _ => none⟩ 0).mpr ⟨by simp [he.1], by simp [he.2]⟩
  have hf := ha _ List.mem_cons_self
  cases hf

end LagoDB.Negotiation
