import LagoDB.PlannedFilter

/-!
# Filters bound at execution

Three promises of a planned filter when its slots have values. One planned exactly
always binds. The row filter, which leaves sets to file pruning, keeps every row of
the SQL condition. A nanosecond column is compared with a PostgreSQL timestamp as
its reads are: rounded down to microseconds.
-/
namespace LagoDB.Iceberg

open SqlLogic Pushdown ExceptLoop List Option TimestampComparison IcebergFilterBinder
open PlannedIcebergNode

/-! ## Nanosecond columns -/

section Nanoseconds

variable {api : PredicateApi} {column : PlannedIcebergColumn}

/-- The ends of the nanosecond interval that an operator is bound with. -/
def PlannedComparisonOperator.needsBoundary (upper : Bool) : PlannedComparisonOperator → Bool
  | .eq | .notEq => true
  | .lt | .ge => !upper
  | .le | .gt => upper

lemma nanosBoundary_none {v : TimestampComparison} {u : Bool}
    (h : ¬(-2 ^ 63 ≤ (v.unixMicros + if u then 1 else 0) * 1000 ∧
      (v.unixMicros + if u then 1 else 0) * 1000 < 2 ^ 63)) : v.nanosBoundary u = none := by
  cases hb : v.nanosBoundary u with
  | none => rfl
  | some b =>
    obtain ⟨m, hm, hr⟩ := bind_eq_some_iff.mp hb
    obtain ⟨n, hn, -⟩ := bind_eq_some_iff.mp hr
    unfold checkedInt at hm hn
    cases u <;> simp_all <;> omega

/-- A bound predicate compares the microsecond of the stored nanosecond; without the
interval's ends there is none. -/
theorem timestampComparison_floors (laws : api.Laws) (pgMicros : ℤ) (withTimezone : Bool)
    (column : PlannedIcebergColumn) (operator : PlannedComparisonOperator) :
    let bound := (fromPgMicros pgMicros .nanoseconds withTimezone).bind
      fun v => v.bind api column operator
    (∀ predicate, bound = some predicate → ∀ (row : Row) n,
      row column.fieldId = some (nanosDatum withTimezone n) → api.selects predicate row =
          operator.kind.holds (compare (n / 1000 - pgEpochUsecsDiff) pgMicros)) ∧
    ∀ u, operator.needsBoundary u = true →
      ¬(-2 ^ 63 ≤ (pgMicros + pgEpochUsecsDiff + if u then 1 else 0) * 1000 ∧
        (pgMicros + pgEpochUsecsDiff + if u then 1 else 0) * 1000 < 2 ^ 63) →
      bound = none := by
  have hv {v : TimestampComparison} (h : fromPgMicros pgMicros .nanoseconds withTimezone = some v) :
      v = ⟨pgMicros + pgEpochUsecsDiff, .nanoseconds, withTimezone⟩ := by
    unfold fromPgMicros at h
    split_ifs at h
    obtain ⟨m, hm, rfl⟩ := map_eq_some_iff.mp h
    unfold pgEpochMicrosToUnixMicros checkedInt at hm
    split_ifs at hm
    rw [Option.some.inj hm]
  constructor
  · intro predicate hb row n hro
    obtain ⟨v, hf, hbi⟩ := bind_eq_some_iff.mp hb
    cases hv hf
    rw [nanos_eval laws rfl hbi hro, compare_sub_right]
  · intro u hn hr
    refine bind_eq_none_iff.mpr fun v hf => ?_
    cases hv hf
    have hno := @nanosBoundary_none ⟨_, .nanoseconds, withTimezone⟩ u hr
    cases operator <;> cases u <;> cases hn <;>
      simp [TimestampComparison.bind, hno]

/-- The last nanosecond before the Unix epoch is in the microsecond before it. -/
theorem lastNanosecond_floors :
    ∃ predicate, (fromPgMicros (-pgEpochUsecsDiff - 1) .nanoseconds false).bind
        (fun value => value.bind foldingApi ⟨1, "at"⟩ .eq) = some predicate ∧
      foldingApi.selects predicate
        ⟨fun _ => some (nanosDatum false (-1)), fun _ => true, nofun⟩ = true := by
  have hf := timestampComparison_floors foldingApi_laws (-pgEpochUsecsDiff - 1) false ⟨1, "at"⟩ .eq
  refine ⟨_, rfl, ?_⟩
  rw [hf.1 _ rfl _ (-1) rfl]
  decide

end Nanoseconds

/-! ## Exact filters -/

section Exact

variable {api : PredicateApi} {vs : RuntimeValueBindings} {pl : IcebergFilterPlanner}
  {ss : ℕ → RuntimeValueSpec} {plan : PredicatePlan PlannedIcebergNode}

/-- The types whose values may have no literal, by the PostgreSQL type compared. -/
def PlannedValueType.temporal : PlannedValueType → Option TypeOid
  | .date => some .date
  | .timestamp _ => some .timestamp
  | .timestamptz _ => some .timestamptz
  | _ => none

/-- Every value of the type has a literal or lies beside all of them. -/
def PlannedValueType.Total (valueType : PlannedValueType) : Prop :=
  valueType.temporal = none ∧ ∀ width, valueType ≠ .fixedBinary width

open PgPredicatePushdownPolicy PredicatePushdownPolicy IcebergFilterPlanner

section

variable {t : PlannedValueType} {i : TypeOid} (ht : t.temporal = some i)

include ht

lemma plannedValueType_temporal {l : ColumnRef} {v : RuntimeValueSpec} {u : Bool}
    (h : plannedValueType l v u = some t) : l.valueType.typeOid = i := by
  unfold plannedValueType tabulatedValueType widenedInteger sameType at h
  grind [PlannedValueType.temporal, map_eq_some_iff]

lemma temporal_conservative {op : PgComparisonOp} {s : Bool} {k : PgComparisonKind}
    {c : SupportedPredicateCapability}
    (h : capabilityForClass i op s k = some c) : c = .conservative := by
  cases t <;> cases ht <;> cases k <;> exact (Option.some.inj h).symm

end

lemma withSourceType_temporal {t p : PlannedValueType} {f : IcebergType}
    (h : t.withSourceType f = some p) : p.temporal = t.temporal := by
  cases t <;> cases f <;> cases h <;> rfl

variable {op : PgComparisonOp} {l : ColumnRef}

lemma exact_total {v : RuntimeValueSpec} {r : ResolvedComparison}
    (h : pl.resolveComparison l v op = .ok (some r)) (he : comparisonCapability r = .exact) :
    r.valueType.Total := by
  unfold resolveComparison at h
  split at h
  next => cases h
  next s t hpl =>
    obtain ⟨f, -, hr⟩ := bind_eq_ok h
    cases f with
    | none => cases hr
    | some pc =>
      obtain ⟨p, hs, rfl⟩ := map_eq_some_iff.mp (Except.ok.inj hr)
      obtain ⟨i, -, hs⟩ := bind_eq_some_iff.mp hs
      obtain ⟨_, hp, hr⟩ := bind_eq_some_iff.mp hpl
      obtain ⟨k, -, hr⟩ := bind_eq_some_iff.mp hr
      obtain ⟨c, hc, hpa⟩ := bind_eq_some_iff.mp hr
      cases hpa
      constructor
      · rw [withSourceType_temporal hs]
        cases htemporal : t.temporal with
        | none => rfl
        | some o =>
          rw [plannedValueType_temporal htemporal hp] at hc
          cases temporal_conservative htemporal hc
          unfold IcebergFilterPlanner.comparisonCapability at he
          split at he <;> cases he
      · rintro w rfl
        cases he

variable {t : PlannedValueType} {d : PgDatum}

lemma decodeValue_some (ht : t.Total) {i : TypeOid} : decodeValue i t d ≠ .ok none := by
  intro h
  cases t with
  | date | timestamp p | timestamptz p => cases ht.1
  | fixedBinary w => exact ht.2 w rfl
  | decimal128 s =>
    obtain ⟨n, -, hr⟩ := bind_eq_ok h
    split at hr <;> cases hr
  | _ =>
    obtain ⟨v, -, hv⟩ := map_eq_ok h
    cases hv

lemma bindDecoded_some (ht : t.Total) {b : BoundComparisonValue} (h : Decodes t d b)
    (op : PlannedComparisonOperator) (l : PlannedIcebergColumn) :
    bindDecoded api op l b ≠ none := by
  cases h with
  | timestamp | timestamptz => cases ht.1
  | @special _ _ s _ hs =>
    cases s with
    | finite c => exact absurd rfl (hs c)
    | _ => simp [bindDecoded, matchesFiniteColumn]
  | _ => simp [bindDecoded]

/-- Binding finds a predicate or fails for good, under either polarity. -/
def PlannedIcebergNode.Binds (api : PredicateApi) (values : RuntimeValueBindings)
    (node : PlannedIcebergNode) : Prop :=
  ∀ negated, bindNode api values node negated ≠ .ok none

lemma comparison_binds (ht : t.Total) (op : PlannedComparisonOperator) (l : PlannedIcebergColumn)
    (slot : ℕ) : (comparison op l slot t).Binds api vs := by
  intro n h
  obtain ⟨s, -, hr⟩ := bind_eq_ok h
  cases s with
  | none => cases hr
  | some a =>
    obtain ⟨d, hd, hb⟩ := bind_eq_ok hr
    cases d with
    | none => exact decodeValue_some ht hd
    | some b => exact bindDecoded_some ht (decodeValue_decodes hd) _ _ (Except.ok.inj hb)

lemma startsWith_binds (l : PlannedIcebergColumn) (slot : ℕ) :
    (startsWith l slot).Binds api vs := by
  intro n h
  obtain ⟨s, -, hr⟩ := bind_eq_ok h
  cases s with
  | none => cases hr
  | some a =>
    obtain ⟨d, hd, hb⟩ := bind_eq_ok hr
    obtain ⟨b, -, rfl⟩ := map_eq_ok hd
    cases hb

lemma bindLogical_some {cs : List PlannedIcebergNode} (hc : ∀ c ∈ cs, c.Binds api vs)
    {k : LogicalKind} {neg : Bool} {s : Predicate} : bindLogical api vs k neg cs s ≠ .ok none := by
  induction cs generalizing s with
  | nil => simp [bindLogical]
  | cons c rest ih =>
    obtain ⟨hch, hre⟩ := forall_mem_cons.mp hc
    intro h
    obtain ⟨r, hr, ht⟩ := bind_eq_ok h
    cases r with
    | none => exact hch neg hr
    | some b => exact ih hre ht

lemma binds_closed : Closed (pl.adapter ss) fun node => node.Binds api vs := by
  constructor
  · intro c hc n h
    exact bindLogical_some hc h
  · intro c hc n h
    exact bindLogical_some hc h

lemma binds_grades : GradeLaws (pl.adapter ss) (fun _ => True)
    (fun node => node.Binds api vs) fun node => node.Binds api vs where
  closed_covering := ⟨fun _ _ => trivial, fun _ _ => trivial⟩
  closed_exact := binds_closed
  closed_complementable := binds_closed
  covering_of_exact _ _ := trivial
  exact_of_complementable _ h := h
  negate _ h negated := h !negated

/-- What an exact mark says here: the node binds. -/
abbrev ExactBinds (api : PredicateApi) (values : RuntimeValueBindings)
    (plan : PredicatePlan PlannedIcebergNode) : Prop :=
  plan.Graded (fun _ => True) (fun node => node.Binds api values) fun node => node.Binds api values

lemma columnComparison_binds {s : ℕ} {m : Bool}
    (h : pl.planColumnComparison ss op l s m = .ok plan) : ExactBinds api vs plan := by
  obtain ⟨f, hf, hp⟩ := bind_eq_ok h
  cases f with
  | none =>
    cases hp
    trivial
  | some r =>
    cases hp
    unfold comparisonPlan
    cases hc : comparisonCapability r with
    | exact => exact comparison_binds (exact_total hf hc) _ _ _
    | conservative => trivial

lemma inSet_binds {v set : ScalarExpr}
    (h : pl.planInSet ss op v set = .ok plan) : ExactBinds api vs plan := by
  unfold planInSet at h
  split at h
  next column s =>
    split_ifs at h
    · split at h
      next => cases h; trivial
      next el =>
        obtain ⟨f, -, hp⟩ := bind_eq_ok h
        cases f with
        | none => cases hp; trivial
        | some r =>
          have hp := Except.ok.inj hp
          split_ifs at hp <;> exact hp ▸ trivial
    · cases h; trivial
  next => cases h; trivial

lemma leaf_binds {leaf : PredicateExpr ScalarExpr PgComparisonOp} (hl : leaf.isLeaf = true)
    (h : leaf.planWith (pl.adapter ss) = .ok plan) : ExactBinds api vs plan := by
  have hc {value : ScalarExpr} {supported : ColumnRef → Bool}
      {b : PlannedIcebergColumn → PredicatePlan PlannedIcebergNode}
      (h : pl.planColumn value supported b = .ok plan)
      (hb : ∀ l, ExactBinds api vs (b l)) : ExactBinds api vs plan := by
    obtain rfl | ⟨l, p, -, -, -, rfl⟩ := planColumn_eq h
    · trivial
    · exact hb p
  cases leaf with
  | and | or | not => cases hl
  | alwaysTrue | alwaysFalse =>
    cases h
    exact fun _ => nofun
  | strictTrue | strictFalse | booleanTest => exact hc h fun _ _ => nofun
  | isNull | isNotNull | isNan | isNotNan => exact hc h fun _ _ => nofun
  | comparison o left right =>
    cases left <;> cases right <;>
      first | exact columnComparison_binds h | (cases h; trivial)
  | startsWith value r =>
    cases r with
    | column l => cases h; trivial
    | value s => exact hc h fun l => startsWith_binds l s
  | inSet o value set => exact inSet_binds h

end Exact

/-! ## Row filters -/

namespace PlannedIcebergNode

mutual

def containsInSet : PlannedIcebergNode → Bool
  | .inSet _ _ _ => true
  | .and children => containsInSetAny children
  | .or children => containsInSetAny children
  | _ => false

def containsInSetAny : List PlannedIcebergNode → Bool
  | [] => false
  | child :: rest => child.containsInSet || containsInSetAny rest

end

section RowFilter

variable {T E : Type} (leaf : PlannedIcebergNode → Except E (PredicatePlan T))
  (conjunction disjunction : List T → T)

mutual

/-- The tree the reader evaluates on each row: sets only prune files. -/
def rowFilter : PlannedIcebergNode → Except E (PredicatePlan T)
  | .inSet _ _ _ => .ok .unsupported
  | .and children => do pure (.conjunction (← rowFilterAll children) conjunction)
  | .or children => do pure (.disjunction (← rowFilterAll children) disjunction)
  | node => leaf node

def rowFilterAll : List PlannedIcebergNode → Except E (List (PredicatePlan T))
  | [] => .ok []
  | child :: rest => do
    let plan ← rowFilter child
    pure (plan :: (← rowFilterAll rest))

end

end RowFilter

end PlannedIcebergNode

inductive RowFilter where
  | pruning
  | projected (predicate : Predicate)
  | skipped

structure BoundIcebergPredicate where
  predicate : Predicate
  rowFilter : RowFilter

/-- The predicate the reader evaluates, if any. -/
def BoundIcebergPredicate.rowPredicate (bound : BoundIcebergPredicate) : Option Predicate :=
  match bound.rowFilter with
  | .pruning => some bound.predicate
  | .projected predicate => some predicate
  | .skipped => none

inductive FilterBindResult where
  | bound (predicate : BoundIcebergPredicate)
  | valueNotRepresentable

namespace IcebergFilterBinder

variable (api : PredicateApi) (values : RuntimeValueBindings)

/-- The shared tree rules combine at least one predicate. -/
def combine (operator : Predicate → Predicate → Predicate) : List Predicate → Predicate
  | [] => .alwaysTrue
  | first :: rest => rest.foldl operator first

def bindLeaf (leaf : PlannedIcebergNode) :
    Except IcebergFilterError (PredicatePlan Predicate) := do
  match ← bindNode api values leaf false with
  | none => pure .unsupported
  | some predicate => pure (.exact predicate)

def bindRowFilter (node : PlannedIcebergNode) :
    Except IcebergFilterError (PredicatePlan Predicate) :=
  node.rowFilter (bindLeaf api values) (combine api.and) (combine api.or)

/-- `PlannedIcebergPredicate::bind`. -/
def bind (root : PlannedIcebergNode) : Except IcebergFilterError FilterBindResult := do
  match ← bindNode api values root false with
  | none => pure .valueNotRepresentable
  | some predicate =>
    if root.containsInSet then do
      match (← bindRowFilter api values root).intoPredicate with
      | some projected => pure (.bound ⟨predicate, .projected projected⟩)
      | none => pure (.bound ⟨predicate, .skipped⟩)
    else pure (.bound ⟨predicate, .pruning⟩)

end IcebergFilterBinder

/-! ## Records -/

inductive PushdownContract where
  | exactRowFilter
  | conservativePruning
  deriving DecidableEq

def PushdownContract.requiresResidual : PushdownContract → Bool
  | .exactRowFilter => false
  | .conservativePruning => true

/-- The contract `try_plan_filter` gives a plan. -/
def planContract : PredicatePlan PlannedIcebergNode → Option PushdownContract
  | .unsupported => none
  | .partialTree _ | .conservative _ => some .conservativePruning
  | .exact _ | .exactNoComplement _ => some .exactRowFilter

inductive RelationFilterBindingError where
  | provider (error : IcebergFilterError)
  | exactValueNotRepresentable (filterIndex : ℕ)
  deriving DecidableEq

def bindRecord (api : PredicateApi) (values : RuntimeValueBindings) (filterIndex : ℕ)
    (planned : PlannedIcebergNode) (contract : PushdownContract) :
    Except RelationFilterBindingError (Option BoundIcebergPredicate) :=
  match bind api values planned with
  | .error error => .error (.provider error)
  | .ok (.bound predicate) => .ok (some predicate)
  | .ok .valueNotRepresentable =>
    if contract.requiresResidual then .ok none
    else .error (.exactValueNotRepresentable filterIndex)

section Guarantees

variable {api : PredicateApi} {values : RuntimeValueBindings} {planner : IcebergFilterPlanner}
  {slots : ℕ → RuntimeValueSpec} {plan : PredicatePlan PlannedIcebergNode}
  {node : PlannedIcebergNode} {e : PredicateExpr ScalarExpr PgComparisonOp}

lemma bind_valueNotRepresentable (h : bind api values node = .ok .valueNotRepresentable) :
    bindNode api values node false = .ok none := by
  obtain ⟨r, hre, hr⟩ := bind_eq_ok h
  cases r with
  | none => exact hre
  | some pred =>
    split_ifs at hr
    · obtain ⟨p, -, hb⟩ := bind_eq_ok hr
      split at hb <;> cases hb
    · cases hr

/-- A filter planned exactly binds whatever its slots hold, or fails in decoding. -/
theorem exact_bindable (api : PredicateApi) (values : RuntimeValueBindings) (filterIndex : ℕ)
    (hplan : e.planWith (planner.adapter slots) = .ok plan)
    (hcontract : planContract plan = some .exactRowFilter)
    (hnode : plan.intoPredicate = some node) :
    bind api values node ≠ .ok .valueNotRepresentable ∧
      ∀ index, bindRecord api values filterIndex node .exactRowFilter ≠
        .error (.exactValueNotRepresentable index) := by
  have hg : ExactBinds api values plan := planWith_graded binds_grades e
    (fun leaf hl _ h => leaf_binds (plannedLeaves_isLeaf e leaf hl) h) plan hplan
  have hbi : node.Binds api values := by
    cases plan with
    | exact o | exactNoComplement o => exact Option.some.inj hnode ▸ hg
    | _ => cases hcontract
  have hb : bind api values node ≠ .ok .valueNotRepresentable :=
    fun h => hbi false (bind_valueNotRepresentable h)
  refine ⟨hb, fun index h => ?_⟩
  unfold bindRecord at h
  split at h
  · cases h
  · cases h
  · exact hb ‹_›

/-- Infinity, against a decimal column. -/
theorem priceFilter_bindable :
    ∃ node, (PredicateExpr.comparison ⟨2, 1721, .bool, 0, 0⟩ (.column priceColumn)
        (.value 1)).planWith (ordersPlanner.adapter orderSlots) = .ok (.exact node) ∧
      bind foldingApi orderValues node ≠ .ok .valueNotRepresentable := by
  have hp : ∃ node, (PredicateExpr.comparison ⟨2, 1721, .bool, 0, 0⟩ (.column priceColumn)
      (.value 1)).planWith (ordersPlanner.adapter orderSlots) = .ok (.exact node) := ⟨_, rfl⟩
  obtain ⟨node, hp⟩ := hp
  exact ⟨node, hp, (exact_bindable foldingApi orderValues 0 hp rfl rfl).1⟩

variable {cs : List PlannedIcebergNode}

lemma rowFilterAll_forall₂ {T E : Type}
    {leaf : PlannedIcebergNode → Except E (PredicatePlan T)} {c d : List T → T}
    {motive : PlannedIcebergNode → PredicatePlan T → Prop} {ps : List (PredicatePlan T)}
    (hc : ∀ child ∈ cs, ∀ plan, child.rowFilter leaf c d = .ok plan → motive child plan)
    (h : rowFilterAll leaf c d cs = .ok ps) : List.Forall₂ motive cs ps := by
  induction cs generalizing ps with
  | nil =>
    cases h
    exact .nil
  | cons child r ih =>
    obtain ⟨hch, hr⟩ := forall_mem_cons.mp hc
    obtain ⟨plan, hpl, ht⟩ := bind_eq_ok h
    obtain ⟨o, ho, hp⟩ := bind_eq_ok ht
    cases hp
    exact .cons (hch plan hpl) (ih hr ho)

variable {ps : List Predicate}

lemma combine_and_eval (laws : api.Laws) (hne : ps ≠ [])
    (row : Row) : api.selects (combine api.and ps) row = ps.all (api.selects · row) := by
  cases ps with
  | nil => exact absurd rfl hne
  | cons f r => rw [combine, foldl_and_eval laws, all_cons]

lemma combine_or_eval (laws : api.Laws) (hne : ps ≠ [])
    (row : Row) : api.selects (combine api.or ps) row = ps.any (api.selects · row) := by
  cases ps with
  | nil => exact absurd rfl hne
  | cons f r => rw [combine, foldl_or_eval laws, any_cons]

lemma finish_intoPredicate {T : Type} {t : Tally T} {c : List T → T} {pred : T}
    (h : (t.finish c).intoPredicate = some pred) : t.accepted ≠ [] ∧ pred = c t.accepted := by
  unfold Tally.finish at h
  split_ifs at h with he <;> cases h <;> exact ⟨by simpa using he, rfl⟩

abbrev SchemaRow (schema : Schema) := { row : Row // schema.Stores row }

variable {s : Schema} {predicate pred : Predicate}

lemma bindLeaf_covers (laws : api.Laws) {plan : PredicatePlan Predicate}
    (hf : node.Faithful s true false) (h : bindLeaf api values node = .ok plan)
    (hp : plan.intoPredicate = some pred) :
    Covers (fun row : SchemaRow s => api.selects pred row) fun row => node.eval values row := by
  obtain ⟨r, hr, hpl⟩ := bind_eq_ok h
  cases r with
  | none =>
    cases hpl
    cases hp
  | some b =>
    cases hpl
    cases hp
    exact fun row ht => (bindNode_selects laws row.2 node hf hr).1 (node.eval_refines _ ht)

lemma children_cover {ps : List (PredicatePlan Predicate)}
    (hp : rowFilterAll (bindLeaf api values) (combine api.and) (combine api.or) cs = .ok ps)
    (ih : ∀ c ∈ cs, ∀ plan, bindRowFilter api values c = .ok plan → ∀ pred,
      plan.intoPredicate = some pred →
      Covers (fun row : SchemaRow s => api.selects pred row) fun row => c.eval values row) :
    ChildrenCover (fun pred (row : SchemaRow s) => api.selects pred row)
      (cs.map fun c row => c.eval values row) ps :=
  forall₂_map_left_iff.mpr (rowFilterAll_forall₂ ih hp)

lemma bindRowFilter_covers (laws : api.Laws) {plan : PredicatePlan Predicate}
    (hf : node.Faithful s true false) (h : bindRowFilter api values node = .ok plan)
    (hp : plan.intoPredicate = some pred) :
    Covers (fun row : SchemaRow s => api.selects pred row) fun row => node.eval values row := by
  induction node using tree_induction generalizing plan pred with
  | leaf node hl =>
    cases node with
    | and | or | not => cases hl
    | inSet column set v =>
      cases h
      cases hp
    | _ => exact bindLeaf_covers laws hf h hp
  | not c ih => exact bindLeaf_covers laws hf h hp
  | and ch ih =>
    have hc := faithfulAll_iff.mp hf
    obtain ⟨p, hpla, hpl⟩ := bind_eq_ok h
    cases hpl
    have hco := children_cover hpla fun c hch _ hpl _ => ih c hch (hc c hch) hpl
    rw [PredicatePlan.conjunction_eq] at hp
    obtain ⟨hne, rfl⟩ := finish_intoPredicate hp
    intro row hr
    dsimp only at hr
    rw [PlannedIcebergNode.eval, evalWith, PlannedIcebergNode.evalAll_eq, Truth.all_eq_true] at hr
    exact (combine_and_eval laws hne _).trans (accepted_all hco row (by simpa using hr))
  | or ch ih =>
    have hc := faithfulAll_iff.mp hf
    obtain ⟨p, hpla, hpl⟩ := bind_eq_ok h
    cases hpl
    have hco := children_cover hpla fun c hch _ hpl _ => ih c hch (hc c hch) hpl
    rw [PredicatePlan.disjunction_eq] at hp
    split_ifs at hp with hcom
    · cases hp
    obtain ⟨hne, rfl⟩ := finish_intoPredicate hp
    intro row hr
    dsimp only at hr
    rw [PlannedIcebergNode.eval, evalWith, PlannedIcebergNode.evalAll_eq, Truth.any_eq_true] at hr
    exact (combine_or_eval laws hne _).trans
      (accepted_any hco row (Bool.eq_false_iff.mpr hcom) (by simpa using hr))

/-- What the reader evaluates keeps every row of the SQL condition, and a set excludes
no row that equals one of its elements. -/
theorem rowFilter_keeps (apiLaws : api.Laws) (laws : planner.catalog.Laws)
    (hanalyzed : planner.Analyzed e) (hplan : e.planWith (planner.adapter slots) = .ok plan)
    (hnode : plan.intoPredicate = some node) {bound : BoundIcebergPredicate}
    (hbind : bind api values node = .ok (.bound bound)) :
    (∀ row : planner.StoredRow, e.eval (planner.semantics values) row = some true →
      ∀ predicate, bound.rowPredicate = some predicate → api.selects predicate row = true) ∧
    ∀ column valueType set predicate,
      planner.schema.typeOf column.fieldId = some (PlannedValueType.storage valueType) →
      bindInSet column valueType set = .ok (some predicate) →
        ∀ row : planner.StoredRow, ∀ elements datum, set.datum = some (.array elements) →
          some datum ∈ elements →
          PgComparisonKind.equal.truth byteOrder (column.value row) (some datum.toSql) =
            some true → api.selects predicate row = true := by
  have hpl := planner.planned_plans values slots laws hanalyzed hplan
  have hf := hpl.faithful hnode
  constructor
  · intro row hro predicate hp
    have he := hpl.covers hnode hro
    obtain ⟨r, hre, hr⟩ := bind_eq_ok hbind
    cases r with
    | none => cases hr
    | some p =>
      split_ifs at hr
      · obtain ⟨f, hfi, hb⟩ := bind_eq_ok hr
        split at hb <;> cases hb <;> cases hp
        next hpr => exact bindRowFilter_covers apiLaws hf hfi hpr row he
      · cases hr
        cases hp
        exact (bindNode_selects apiLaws row.2 node hf hre).1 (node.eval_refines _ he)
  · intro column valueType set predicate ht hse row elements datum ha hm hequ
    refine inSet_covers apiLaws (fun _ hs => row.2.typed ht hs) hse ?_
    rw [RuntimeValue.memberTruth, ha]
    exact Truth.any_eq_true.mpr ⟨_, mem_map_of_mem hm, hequ⟩

end Guarantees

/-- The set leaves the row filter; the parts around it stay. -/
theorem orderFilter_rowFilter :
    ∃ node bound, bind foldingApi orderValues node = .ok (.bound bound) ∧
      bound.rowFilter = .projected (.and (.and (.unary .notNull ⟨"id", 1⟩)
        (.unary .notNull ⟨"price", 2⟩)) (.binary .startsWith ⟨"name", 3⟩ (.string [97]))) ∧
      ∀ row : ordersPlanner.StoredRow,
        orderFilter.eval (ordersPlanner.semantics orderValues) row = some true →
          ∀ predicate, bound.rowPredicate = some predicate →
            foldingApi.selects predicate row = true := by
  have hp : ∃ plan, orderFilter.planWith (ordersPlanner.adapter orderSlots) = .ok plan ∧
      ∃ node bound, plan.intoPredicate = some node ∧
        bind foldingApi orderValues node = .ok (.bound bound) ∧
        bound.rowFilter = .projected (.and (.and (.unary .notNull ⟨"id", 1⟩)
          (.unary .notNull ⟨"price", 2⟩)) (.binary .startsWith ⟨"name", 3⟩ (.string [97]))) :=
    ⟨_, rfl, _, _, rfl, rfl, rfl⟩
  obtain ⟨plan, hp, node, bound, hn, hb, hf⟩ := hp
  exact ⟨node, bound, hb, hf,
    (rowFilter_keeps foldingApi_laws byteCatalog_laws orderFilter_analyzed hp hn hb).1⟩

end LagoDB.Iceberg
