import LagoDB.DataFusionFilters

/-!
# Filters are lowered without losing or inventing rows

A leaf that either adapter compiles is TRUE on the same rows as its expression.
AND and OR are monotone in those rows, which is all a filter needs: a NULL never
counts, so NULL literals may become FALSE. Part of an AND may be left to a
residual, part of an OR only together with the whole of it.
-/
namespace LagoDB.DataFusionFilters

open SqlLogic Pushdown Iceberg RuntimePredicates Option Truth
open RuntimePredicates.IcebergPredicatePlanner (operatorClass)
open DataFusionPredicateScalar PredicateExpr

/-! ## Runtime predicates on source rows -/

abbrev SourceRow := ℕ → Option SqlValue

def runtimeSql (row : SourceRow) : RuntimePredicateScalar → Option SqlValue
  | .column position => row position
  | .widenedIntegerColumn position _ => row position
  | .value value => some value.toSql

variable (order : SqlValue → SqlValue → Option Ordering)

/-- No adapter builds a set. -/
def runtimeSemantics :
    ScalarSemantics RuntimePredicateScalar RuntimeComparisonOperator SourceRow where
  isNull scalar row := (runtimeSql row scalar).isNone
  boolean scalar row := SqlValue.truth (runtimeSql row scalar)
  compare operator left right row :=
    compareTruth order (operatorClass operator) (runtimeSql row left) (runtimeSql row right)
  isNan scalar row := SqlValue.nanTruth (runtimeSql row scalar)
  startsWith value pre row := SqlValue.prefixTruth (runtimeSql row value) (runtimeSql row pre)
  inSet _ _ _ _ := none

def Selected (predicate : RuntimePruningPredicate)
    (row : SourceRow) : Prop :=
  predicate.eval (runtimeSemantics order) row = some true

/-- Values an Arrow column of a type holds. -/
def Holds : DataType → SqlValue → Prop
  | .boolean, value => ∃ boolean, value = .boolean boolean
  | .int16, value => ∃ integer, value = .integral integer ∧ -2 ^ 15 ≤ integer ∧ integer < 2 ^ 15
  | .int32, value => ∃ integer, value = .integral integer ∧ -2 ^ 31 ≤ integer ∧ integer < 2 ^ 31
  | .binary, value | .largeBinary, value | .binaryView, value | .fixedSizeBinary _, value =>
    ∃ bytes, value = .binary bytes
  | _, _ => True

/-- Arrow's comparison kernels are total orders of each type, and widening an
integer or relayouting bytes keeps the value. -/
structure KernelLaws {C : Type} (kernels : Kernels C) : Prop where
  order_refl : ∀ value, kernels.order value value = some .eq
  order_swap : ∀ a b, kernels.order b a = (kernels.order a b).map Ordering.swap
  order_boolean : ∀ a b, kernels.order (.boolean a) (.boolean b) = some (compare a b)
  cast_widening : ∀ source target widening, integerWidening source target = some widening →
    ∀ value, Holds source value → kernels.cast target value = some value
  cast_binary : ∀ source target, binaryRepresentationCast source target = true →
    ∀ value, Holds source value → kernels.cast target value = some value

/-- The expression's columns read the source row, with values of their types. -/
structure Reads {C : Type} (adapter : PredicateAdapter C) (row : C → Option SqlValue)
    (source : SourceRow) : Prop where
  position : ∀ column position, adapter.position column = some position →
    row column = source position
  typed : ∀ column dataType, adapter.dataType column = some dataType →
    ∀ value, row column = some value → Holds dataType value

/-! ## Leaves -/

attribute [local simp] SqlValue.truth ScalarValue.toSql

section Leaves

variable {C : Type} {kernels : Kernels C} {adapter : PredicateAdapter C} {row : C → Option SqlValue}
  {source : SourceRow} {e left r : Expr C} {p : RuntimePruningPredicate}

lemma truth_ofTruth (t : Truth) : SqlValue.truth (ofTruth t) = t := by
  cases t <;> rfl

variable {o : ℕ}

lemma column_eval (rs : Reads adapter row source) (h : adapter.column e = some o) :
    e.eval kernels row = source o := by
  unfold PredicateAdapter.column at h
  split at h
  next c => exact rs.position c o h
  next => cases h

lemma booleanPosition_eval (ks : Kernels C) (rs : Reads adapter row source)
    (h : adapter.booleanPosition e = some o) :
    ∃ t, e.eval ks row = ofTruth t ∧ source o = ofTruth t := by
  unfold PredicateAdapter.booleanPosition at h
  split at h
  next c =>
    split_ifs at h with ht
    have hr := rs.position c o h
    rw [Expr.eval, hr]
    cases hv : source o with
    | none => exact ⟨none, rfl, rfl⟩
    | some v =>
      obtain ⟨b, rfl⟩ := rs.typed c .boolean ht v (hr.trans hv)
      exact ⟨some b, rfl, rfl⟩
  next => cases h

variable {sc : ScalarValue} {v : RuntimePredicateValue}

lemma value_toSql (h : value sc = some v) : sc.toSql = some v.toSql := by
  unfold value at h
  split at h
  all_goals try (cases h; rfl)
  next m t => cases t <;> (cases h; rfl)
  next =>
    split_ifs at h
    cases h
    rfl
  next => cases h

lemma value_eval (h : PredicateAdapter.value e = some v) : e.eval kernels row = some v.toSql := by
  obtain ⟨sc, hl, hv⟩ := bind_eq_some_iff.mp h
  unfold PredicateAdapter.literal at hl
  split at hl
  next =>
    cases hl
    exact value_toSql hv
  next => cases hl

lemma comparisonColumn_eval (laws : KernelLaws kernels) (rs : Reads adapter row source)
    {sc : RuntimePredicateScalar} (h : adapter.comparisonColumn e = some sc) :
    e.eval kernels row = runtimeSql source sc := by
  unfold PredicateAdapter.comparisonColumn at h
  split at h
  next c =>
    obtain ⟨o, hp, rfl⟩ := map_eq_some_iff.mp h
    exact rs.position c o hp
  next c t =>
    obtain ⟨o, hp, hre⟩ := bind_eq_some_iff.mp h
    obtain ⟨d, ht, hc⟩ := bind_eq_some_iff.mp hre
    have hr := rs.position c o hp
    rw [Expr.eval, Expr.eval, hr]
    split_ifs at hc with hb
    · cases hc
      rw [runtimeSql]
      cases hv : source o with
      | none => rfl
      | some v => exact laws.cast_binary d t hb v (rs.typed c d ht v (hr.trans hv))
    · obtain ⟨w, hw, rfl⟩ := map_eq_some_iff.mp hc
      rw [runtimeSql]
      cases hv : source o with
      | none => rfl
      | some v => exact laws.cast_widening d t w hw v (rs.typed c d ht v (hr.trans hv))
  next => cases h

/-- The predicate is TRUE where the expression is. -/
abbrev SameRows (kernels : Kernels C) (row : C → Option SqlValue) (source : SourceRow)
    (e : Expr C) (predicate : RuntimePruningPredicate) : Prop :=
  Selected kernels.order predicate source ↔ e.IsTrue kernels row

section

variable (rs : Reads adapter row source)

include rs

lemma booleanColumn_sameRows (laws : KernelLaws kernels)
    {expected : Bool} (h : adapter.booleanColumn e expected = some p) :
    Selected kernels.order p source ↔ SqlValue.truth (e.eval kernels row) = some expected := by
  obtain ⟨o, hp, hsa⟩ := bind_eq_some_iff.mp h
  cases hsa
  obtain ⟨t, he, hs⟩ := booleanPosition_eval kernels rs hp
  rw [he]
  show compareTruth kernels.order .equal (source o) (some (.boolean expected)) = _ ↔ _
  rw [hs]
  cases t with
  | none => simp [ofTruth, compareTruth]
  | some v =>
    cases v <;> cases expected <;>
      simp [ofTruth, compareTruth, laws.order_boolean, PgComparisonKind.holds]

variable {args : List (Expr C)}

lemma nanTest_sameRows {isNotNan : Bool} (h : adapter.nanTest args isNotNan = some p) :
    Selected kernels.order p source ↔
      SqlValue.truth ((Expr.function .isNan args).eval kernels row) = some !isNotNan := by
  unfold PredicateAdapter.nanTest at h
  split at h
  next v =>
    obtain ⟨o, hp, hs⟩ := bind_eq_some_iff.mp h
    cases hs
    rw [Expr.eval, Expr.evalArgs, Expr.evalArgs, Expr.evalFunction, truth_ofTruth,
      column_eval rs hp]
    cases isNotNan with
    | false => rfl
    | true =>
      rw [if_pos rfl, Selected, eval, not_eq_true]
      rfl
  next => cases h

lemma startsWith_sameRows (h : adapter.startsWith args = some p) :
    p.eval (runtimeSemantics kernels.order) source =
      SqlValue.truth ((Expr.function .startsWith args).eval kernels row) := by
  unfold PredicateAdapter.startsWith at h
  split at h
  next v r =>
    obtain ⟨o, hp, hr⟩ := bind_eq_some_iff.mp h
    obtain ⟨l, hl, hm⟩ := bind_eq_some_iff.mp hr
    split at hm
    next b =>
      cases hm
      rw [Expr.eval, Expr.evalArgs, Expr.evalArgs, Expr.evalArgs, Expr.evalFunction,
        truth_ofTruth, column_eval rs hp, value_eval hl]
      rfl
    next => cases hm
  next => cases h

lemma negatedUnary_sameRows (laws : KernelLaws kernels) (h : adapter.negatedUnary e = some p) :
    SameRows kernels row source (.not e) p := by
  unfold SameRows Expr.IsTrue
  rw [Expr.eval, truth_ofTruth, not_eq_true]
  unfold PredicateAdapter.negatedUnary at h
  split at h
  next f hf =>
    cases h
    exact booleanColumn_sameRows rs laws hf
  next =>
    split at h
    next args => exact nanTest_sameRows rs h
    next args =>
      obtain ⟨i, hi, rfl⟩ := map_eq_some_iff.mp h
      rw [Selected, eval, not_eq_true, startsWith_sameRows rs hi]
    next => cases h

end

lemma isDistinct_boolean (laws : KernelLaws kernels) (a b : Truth) :
    isDistinct kernels.order (ofTruth a) (ofTruth b) = !(a == b) := by
  cases a with
  | none => cases b <;> rfl
  | some x =>
    cases b with
    | none => rfl
    | some y => cases x <;> cases y <;> simp [ofTruth, isDistinct, laws.order_boolean]

variable {op : Operator}

lemma booleanTest_eq {k : BooleanTestKind} (h : booleanTest op sc = some k) :
    ∃ l : Truth, sc.toSql = ofTruth l ∧ ∀ t : Truth, (op = .isNotDistinctFrom ∧
      k.test t = (t == l)) ∨ (op = .isDistinctFrom ∧ k.test t = !(t == l)) := by
  obtain ⟨b, hb, ho⟩ := bind_eq_some_iff.mp h
  have hl : ∃ l : Truth, sc.toSql = ofTruth l ∧ ∀ t, b.test t = (t == l) := by
    unfold literalTest at hb
    split at hb
    next => cases hb; exact ⟨some true, rfl, fun t => rfl⟩
    next => cases hb; exact ⟨some false, rfl, fun t => rfl⟩
    next => cases hb; exact ⟨none, rfl, fun t => rfl⟩
    next => cases hb
  obtain ⟨l, hs, ht⟩ := hl
  refine ⟨l, hs, fun t => ?_⟩
  split at ho
  next =>
    cases ho
    exact .inl ⟨rfl, ht t⟩
  next =>
    cases ho
    exact .inr ⟨rfl, by rw [BooleanTestKind.test_negated, ht]⟩
  next => cases ho

lemma literal_eval (h : PredicateAdapter.literal e = some sc) : e.eval kernels row = sc.toSql := by
  unfold PredicateAdapter.literal at h
  split at h
  next =>
    cases h
    rw [Expr.eval]
  next => cases h

lemma distinctTest_sameRows (laws : KernelLaws kernels) (rs : Reads adapter row source)
    (h : adapter.distinctTest left op r = some p) :
    SameRows kernels row source (.binary left op r) p := by
  obtain ⟨⟨c, sc⟩, hs, hr⟩ := bind_eq_some_iff.mp h
  obtain ⟨o, hp, ht⟩ := bind_eq_some_iff.mp hr
  obtain ⟨k, hk, hsa⟩ := bind_eq_some_iff.mp ht
  cases hsa
  obtain ⟨t, hc, hso⟩ := booleanPosition_eval kernels rs hp
  obtain ⟨l, hsq, hca⟩ := booleanTest_eq hk
  have hd : isDistinct kernels.order (left.eval kernels row) (r.eval kernels row) = !(t == l) := by
    unfold PredicateAdapter.literalSide at hs
    split at hs
    next f hri =>
      cases hs
      rw [literal_eval hri, hsq, hc, isDistinct_boolean laws]
    next =>
      obtain ⟨f, hl, hpa⟩ := map_eq_some_iff.mp hs
      cases hpa
      rw [literal_eval hl, hsq, hc, isDistinct_boolean laws, Bool.beq_comm]
  have hse : Selected kernels.order (.booleanTest k (.column o)) source ↔ k.test t = true := by
    rw [Selected, eval, some_inj]
    show k.test (SqlValue.truth (source o)) = true ↔ _
    rw [hso, truth_ofTruth]
  unfold SameRows Expr.IsTrue
  rw [hse, Expr.eval]
  rcases hca t with ⟨rfl, hm⟩ | ⟨rfl, hm⟩
  · rw [hm, Expr.evalBinary, hd]
    simp
  · rw [hm, Expr.evalBinary, hd]
    simp

lemma compareTruth_self (laws : KernelLaws kernels) (k : PgComparisonKind) (v : Option SqlValue) :
    compareTruth kernels.order k v v = if v.isNone then none else some (k.holds .eq) := by
  cases v with
  | none => rfl
  | some v => simp [compareTruth, laws.order_refl]

lemma sameColumn_eval (ks : Kernels C) (rs : Reads adapter row source)
    (h : adapter.sameColumn left r = some o) :
    left.eval ks row = source o ∧ r.eval ks row = source o := by
  obtain ⟨lc, hl, hr⟩ := bind_eq_some_iff.mp h
  obtain ⟨c, hri, hs⟩ := bind_eq_some_iff.mp hr
  split_ifs at hs with heq
  cases hs
  subst heq
  exact ⟨column_eval rs hl, column_eval rs hri⟩

lemma comparisonOperator_eval {c' : RuntimeComparisonOperator}
    (h : comparisonOperator op = some c') (a b : Option SqlValue) :
    Expr.evalBinary kernels op a b =
      ofTruth (compareTruth kernels.order (operatorClass c') a b) := by
  cases op <;> cases h <;> rfl

section

variable (laws : KernelLaws kernels)

include laws

lemma compareTruth_swap {k m : PgComparisonKind}
    (h : ∀ d, k.holds d = m.holds d.swap) (a b : Option SqlValue) :
    compareTruth kernels.order k a b = compareTruth kernels.order m b a := by
  cases a with
  | none => cases b <;> rfl
  | some x =>
    cases b with
    | none => rfl
    | some y =>
      simp only [compareTruth, bind_eq_bind, bind_some, laws.order_swap x y]
      cases kernels.order x y with
      | none => rfl
      | some d => exact congrArg some (h d)

lemma reverseOperator_eval {r : RuntimeComparisonOperator}
    (h : comparisonOperator (reverseOperator op) = some r) (a b : Option SqlValue) :
    Expr.evalBinary kernels op a b =
      ofTruth (compareTruth kernels.order (operatorClass r) b a) := by
  obtain ⟨c', hc, hh⟩ : ∃ c', comparisonOperator op = some c' ∧
      ∀ d, (operatorClass c').holds d = (operatorClass r).holds d.swap := by
    cases op <;> cases h <;> exact ⟨_, rfl, fun d => by cases d <;> rfl⟩
  rw [comparisonOperator_eval hc, compareTruth_swap laws hh]

section

variable (rs : Reads adapter row source)

include rs

lemma literalComparison_sameRows (h : adapter.literalComparison left op r = some p) :
    SameRows kernels row source (.binary left op r) p := by
  unfold SameRows Expr.IsTrue
  unfold PredicateAdapter.literalComparison at h
  rw [Expr.eval]
  split at h
  next c v hc hv =>
    obtain ⟨c', hcl, hs⟩ := bind_eq_some_iff.mp h
    cases hs
    rw [comparisonOperator_eval hcl, truth_ofTruth, comparisonColumn_eval laws rs hc, value_eval hv]
    rfl
  next =>
    split at h
    next v c hv hc =>
      obtain ⟨c', hcl, hs⟩ := bind_eq_some_iff.mp h
      cases hs
      rw [reverseOperator_eval laws hcl, truth_ofTruth,
        comparisonColumn_eval laws rs hc, value_eval hv]
      rfl
    next => cases h

lemma comparison_sameRows (h : adapter.comparison left op r = some p) :
    SameRows kernels row source (.binary left op r) p := by
  unfold PredicateAdapter.comparison at h
  split_ifs at h with hd
  · exact distinctTest_sameRows laws rs h
  · split at h
    next o hs =>
      cases h
      obtain ⟨hl, hr⟩ := sameColumn_eval kernels rs hs
      have hc : comparisonOperator .eq = some .equal := rfl
      unfold SameRows Expr.IsTrue
      rw [Expr.eval, hl, hr, comparisonOperator_eval hc, compareTruth_self laws, truth_ofTruth]
      rfl
    next o hs =>
      cases h
      obtain ⟨hl, hr⟩ := sameColumn_eval kernels rs hs
      have hc : comparisonOperator .gt = some .greaterThan := rfl
      unfold SameRows Expr.IsTrue
      rw [Expr.eval, hl, hr, comparisonOperator_eval hc, compareTruth_self laws, truth_ofTruth]
      rfl
    next => exact literalComparison_sameRows laws rs h

lemma compileLeaf_sameRows
    (h : adapter.compileLeaf e = some p) : SameRows kernels row source e p := by
  unfold PredicateAdapter.compileLeaf at h
  split at h
  next co => exact booleanColumn_sameRows rs laws h
  next v =>
    unfold SameRows Expr.IsTrue
    rw [Expr.eval]
    unfold PredicateAdapter.booleanLiteral at h
    split at h
    next => cases h; simp [Selected, eval]
    next => cases h; simp [Selected, eval]
    next => cases h; simp [Selected, eval]
    next => cases h; simp [Selected, eval]
    next => cases h
  next c =>
    obtain ⟨o, hp, rfl⟩ := map_eq_some_iff.mp h
    unfold SameRows Expr.IsTrue
    rw [Expr.eval, column_eval rs hp]
    rfl
  next c =>
    obtain ⟨o, hp, rfl⟩ := map_eq_some_iff.mp h
    unfold SameRows Expr.IsTrue
    rw [Expr.eval, column_eval rs hp]
    show some (!(source o).isNone) = some true ↔ _
    cases source o <;> simp
  next c => exact negatedUnary_sameRows rs laws h
  next args => exact nanTest_sameRows rs h
  next args =>
    unfold SameRows Expr.IsTrue
    rw [Selected, startsWith_sameRows rs h]
  next left op r => exact comparison_sameRows laws rs h
  next => cases h

end

end

end Leaves

/-! ## AND and OR -/

section Connectives

variable {C : Type} {ks : Kernels C} {row : C → Option SqlValue}
  {d : SqlValue → SqlValue → Option Ordering} {s : SourceRow}

lemma selected_alwaysTrue : Selected d .alwaysTrue s := rfl

lemma not_selected_alwaysFalse : ¬Selected d .alwaysFalse s := nofun

variable (left r : RuntimePruningPredicate)

lemma selected_and : Selected d (andPredicate left r) s ↔ Selected d left s ∧ Selected d r s := by
  unfold andPredicate
  split
  · simp [not_selected_alwaysFalse]
  · simp [not_selected_alwaysFalse]
  · simp [selected_alwaysTrue]
  · simp [selected_alwaysTrue]
  · simp [Selected, eval, evalAll, all]

lemma selected_or : Selected d (orPredicate left r) s ↔ Selected d left s ∨ Selected d r s := by
  unfold orPredicate
  split
  · simp [selected_alwaysTrue]
  · simp [selected_alwaysTrue]
  · simp [not_selected_alwaysFalse]
  · simp [not_selected_alwaysFalse]
  · simp [Selected, eval, evalAll, any]

lemma isTrue_and (left r : Expr C) :
    (Expr.binary left .and r).IsTrue ks row ↔ left.IsTrue ks row ∧ r.IsTrue ks row := by
  unfold Expr.IsTrue
  rw [Expr.eval, Expr.evalBinary, truth_ofTruth, and_eq_true]

lemma isTrue_or (left r : Expr C) :
    (Expr.binary left .or r).IsTrue ks row ↔ left.IsTrue ks row ∨ r.IsTrue ks row := by
  unfold Expr.IsTrue
  rw [Expr.eval, Expr.evalBinary, truth_ofTruth, or_eq_true]

lemma conjunctionOpt_isTrue (es : List (Expr C)) :
    (∀ w, conjunctionOpt es = some w → w.IsTrue ks row) ↔ ∀ e ∈ es, e.IsTrue ks row := by
  cases es with
  | nil => simp [conjunctionOpt]
  | cons f r =>
    simp only [conjunctionOpt, Option.some.injEq, forall_eq', List.forall_mem_cons]
    induction r generalizing f with
    | nil => simp
    | cons n r ih => rw [List.foldl_cons, ih, isTrue_and, List.forall_mem_cons, and_assoc]

end Connectives

/-! ## Physical plans -/

section Physical

variable {ks : Kernels ℕ} {a : PredicateAdapter ℕ} {row : ℕ → Option SqlValue} {s : SourceRow}

/-- A row passes what a plan keeps of an expression. -/
def PhysicalPredicatePlan.Passes (kernels : Kernels ℕ) (row : ℕ → Option SqlValue)
    (source : SourceRow) (plan : PhysicalPredicatePlan) : Prop :=
  (∀ predicate, plan.providerPredicate = some predicate →
    Selected kernels.order predicate source) ∧
    ∀ residual, plan.exactResidual = some residual → residual.IsTrue kernels row

lemma PhysicalPredicatePlan.Passes.provider {plan : PhysicalPredicatePlan}
    (h : plan.Passes ks row s) {p : RuntimePruningPredicate}
    (hp : plan.providerPredicate = some p) : Selected ks.order p s :=
  h.1 p hp

open PhysicalPredicateAdapter

lemma leaf_passes (laws : KernelLaws ks) (rs : Reads a row s) (e : Expr ℕ) :
    (leaf e (a.compileLeaf e)).Passes ks row s ↔ e.IsTrue ks row := by
  unfold leaf PhysicalPredicatePlan.Passes
  cases hl : a.compileLeaf e with
  | none => simp
  | some p => simp [compileLeaf_sameRows laws rs hl]

lemma combineProvider_selected (left r : Option RuntimePruningPredicate)
    (d : SqlValue → SqlValue → Option Ordering) :
    (∀ p, combineProvider left r = some p → Selected d p s) ↔
      (∀ p, left = some p → Selected d p s) ∧ ∀ p, r = some p → Selected d p s := by
  cases left <;> cases r <;> simp [combineProvider, selected_and]

lemma and_passes (left r : PhysicalPredicatePlan) :
    (and left r).Passes ks row s ↔ left.Passes ks row s ∧ r.Passes ks row s := by
  unfold PhysicalPredicatePlan.Passes PhysicalPredicateAdapter.and
  rw [combineProvider_selected, conjunctionOpt_isTrue]
  simp only [List.mem_append, mem_toList]
  constructor
  · rintro ⟨⟨hl, hri⟩, hr⟩
    exact ⟨⟨hl, fun e he => hr e (.inl he)⟩, hri, fun e he => hr e (.inr he)⟩
  · rintro ⟨⟨hl, hlr⟩, hri, hrr⟩
    exact ⟨⟨hl, hri⟩, fun e he => he.elim (hlr e) (hrr e)⟩

/-- The provider's part of an OR covers the OR of its branches; unless both
branches are complete the whole expression stays as a residual. -/
lemma or_passes {left r : Expr ℕ} {leftPlan rightPlan : PhysicalPredicatePlan}
    (hl : leftPlan.Passes ks row s ↔ left.IsTrue ks row)
    (hr : rightPlan.Passes ks row s ↔ r.IsTrue ks row) :
    (or (.binary left .or r) leftPlan rightPlan).Passes ks row s ↔
      (Expr.binary left .or r).IsTrue ks row := by
  unfold PhysicalPredicateAdapter.or
  split
  next l rp hlp hrp =>
    have hco (h : (Expr.binary left .or r).IsTrue ks row) :
        Selected ks.order (orPredicate l rp) s := by
      rw [selected_or]
      rcases (isTrue_or left r).mp h with ht | ht
      · exact .inl ((hl.mpr ht).provider hlp)
      · exact .inr ((hr.mpr ht).provider hrp)
    split_ifs with hc
    · rw [Bool.and_eq_true, isNone_iff_eq_none, isNone_iff_eq_none] at hc
      have he {plan : PhysicalPredicatePlan} {p : RuntimePruningPredicate}
          (hp : plan.providerPredicate = some p)
          (hn : plan.exactResidual = none) :
          plan.Passes ks row s ↔ Selected ks.order p s := by
        simp [PhysicalPredicatePlan.Passes, hp, hn]
      rw [isTrue_or, ← hl, ← hr, he hlp hc.1, he hrp hc.2, ← selected_or]
      simp [PhysicalPredicatePlan.Passes]
    · simp only [PhysicalPredicatePlan.Passes, Option.some.injEq, forall_eq']
      exact ⟨fun h => h.2, fun h => ⟨hco h, h⟩⟩
  next => simp [PhysicalPredicatePlan.Passes]

/-- A filter is TRUE exactly where its provider predicate and its residual are. -/
lemma plan_passes (laws : KernelLaws ks) (rs : Reads a row s) (e : Expr ℕ) :
    (plan a e).Passes ks row s ↔ e.IsTrue ks row := by
  fun_induction plan a e with
  | case1 left r ihl i => rw [and_passes, ihl, i, isTrue_and]
  | case2 left r ihl i => exact or_passes ihl i
  | case3 e => exact leaf_passes laws rs e

end Physical

/-! ## Logical plans -/

section Logical

variable {ks : Kernels String} {a : PredicateAdapter String} {row : String → Option SqlValue}
  {s : SourceRow}

open LogicalPredicateAdapter

/-- A complete plan has the filter's rows, an incomplete one at least those. -/
def LogicalPredicatePlan.Represents (kernels : Kernels String) (row : String → Option SqlValue)
    (source : SourceRow) (e : Expr String) (plan : LogicalPredicatePlan) : Prop :=
  (e.IsTrue kernels row → Selected kernels.order plan.predicate source) ∧
    (plan.complete = true → Selected kernels.order plan.predicate source → e.IsTrue kernels row)

variable {plan : LogicalPredicatePlan}

section

variable {left r : Expr String} {l rp : Option LogicalPredicatePlan}
  (hle : ∀ plan, l = some plan → plan.Represents ks row s left)
  (hr : ∀ plan, rp = some plan → plan.Represents ks row s r)

include hle hr

lemma combineAnd_represents (h : combineAnd l rp = some plan) :
    plan.Represents ks row s (.binary left .and r) := by
  unfold LogicalPredicatePlan.Represents
  rw [isTrue_and]
  unfold combineAnd at h
  split at h
  next l rp =>
    cases h
    obtain ⟨hlc, hl⟩ := hle l rfl
    obtain ⟨hrc, hre⟩ := hr rp rfl
    simp only [selected_and, Bool.and_eq_true]
    exact ⟨fun h => ⟨hlc h.1, hrc h.2⟩, fun hc h => ⟨hl hc.1 h.1, hre hc.2 h.2⟩⟩
  next l =>
    cases h
    exact ⟨fun h => (hle l rfl).1 h.1, fun hc => nomatch hc⟩
  next rp =>
    cases h
    exact ⟨fun h => (hr rp rfl).1 h.2, fun hc => nomatch hc⟩
  next => cases h

lemma combineOr_represents (h : combineOr l rp = some plan) :
    plan.Represents ks row s (.binary left .or r) := by
  unfold LogicalPredicatePlan.Represents
  rw [isTrue_or]
  unfold combineOr at h
  split at h
  next l rp =>
    cases h
    obtain ⟨hlc, hl⟩ := hle l rfl
    obtain ⟨hrc, hre⟩ := hr rp rfl
    simp only [selected_or, Bool.and_eq_true]
    exact ⟨Or.imp hlc hrc, fun hc => Or.imp (hl hc.1) (hre hc.2)⟩
  next => cases h

end

lemma booleanTest_represents (rs : Reads a row s) {c : Expr String} {k : BooleanTestKind}
    (h : booleanTest a c k = some plan) : plan.Represents ks row s (.booleanTest k c) := by
  obtain ⟨p, hp, hsa⟩ := bind_eq_some_iff.mp h
  cases hsa
  obtain ⟨t, hc, hs⟩ := booleanPosition_eval ks rs hp
  have hr : Selected ks.order (.booleanTest k (.column p)) s ↔
      (Expr.booleanTest k c).IsTrue ks row := by
    unfold Expr.IsTrue
    rw [Expr.eval, hc]
    show some (k.test (SqlValue.truth (s p))) = some true ↔ _
    rw [hs, truth_ofTruth]
    simp
  exact ⟨hr.mpr, fun _ => hr.mp⟩

lemma lower_represents (laws : KernelLaws ks) (rs : Reads a row s) (e : Expr String)
    (plan : LogicalPredicatePlan) (h : lower a e = some plan) : plan.Represents ks row s e := by
  fun_induction lower a e generalizing plan with
  | case1 left r ihl i => exact combineAnd_represents ihl i h
  | case2 left r ihl i => exact combineOr_represents ihl i h
  | case3 k c => exact booleanTest_represents rs h
  | case4 e =>
    obtain ⟨p, hl, rfl⟩ := map_eq_some_iff.mp h
    have hr := compileLeaf_sameRows laws rs hl
    exact ⟨hr.mpr, fun _ => hr.mp⟩

end Logical

end LagoDB.DataFusionFilters
