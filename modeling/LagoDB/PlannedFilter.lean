import LagoDB.FilterPlanner
import LagoDB.PlanMarks
import Mathlib.Data.List.Nodup

/-!
# Planned filters against SQL

What PostgreSQL computes of a predicate tree, on the rows a scan stores, against
what the planner's trees mean and the binder emits. Leaf by leaf a planned node
has the SQL value of its expression; the plan algebra lifts that to trees. Binding
keeps it on the rows of complete data files. Where a file lacks a column, the exact
predicate of an ordered comparison admits rows that SQL rejects.
-/
namespace LagoDB.Iceberg

open SqlLogic NumericCodec Pushdown ExceptLoop List Predicate PlannedIcebergNode PgComparisonKind
open PredicatePushdownPolicy

/-! ## Comparisons of bytes -/

lemma byteOrder_eq {a b : Bytes} : byteOrder a b = .eq ↔ a = b := by
  unfold byteOrder
  exact Std.LawfulEqCmp.compare_eq_iff_eq

lemma byteOrder_swap (a b : Bytes) : byteOrder b a = (byteOrder a b).swap := by
  unfold byteOrder
  exact Std.OrientedCmp.eq_swap

lemma numericOrder_swap (a b : NumericValue) : b.order a = (a.order b).swap := by
  cases a <;> cases b <;> exact Std.OrientedOrd.eq_swap

lemma order_swap (a b : SqlValue) :
    b.order byteOrder a = (a.order byteOrder b).map Ordering.swap := by
  cases a <;> cases b <;> first
    | exact congrArg some Std.OrientedOrd.eq_swap
    | exact congrArg some (byteOrder_swap _ _)
    | exact congrArg some (numericOrder_swap _ _)
    | rfl

open IcebergFilterPlanner (plannedOperator)

variable (kind : PgComparisonKind)

lemma plannedOperator_kind : (plannedOperator kind).kind = kind := by
  cases kind <;> rfl

lemma truth_mirrored (left right : Option SqlValue) :
    (plannedOperator kind).mirrored.kind.truth byteOrder right left =
      kind.truth byteOrder left right := by
  cases left with
  | none => cases right <;> rfl
  | some a =>
    cases right with
    | none => rfl
    | some b =>
      simp only [truth, Option.bind_eq_bind, Option.bind_some, order_swap a b]
      cases a.order byteOrder b with
      | none => rfl
      | some o => cases kind <;> cases o <;> rfl

section Collations

open PgPredicatePushdownPolicy

variable {cat : Catalog} {op : PgComparisonOp} {i : PgComparisonSignature}

section

variable (laws : cat.Laws) (hsig : cat.forOperator op.opno = some i)
  (h : forComparison cat op i.kind = true)

include laws hsig h

lemma holds_collate (a b : Bytes) :
    i.kind.holds (cat.collate op.inputcollid a b) = i.kind.holds (byteOrder a b) := by
  unfold forComparison at h
  simp only [hsig] at h
  split_ifs at h
  have he (hc : forEqualityCollation cat op.inputcollid = true) :
      cat.collate op.inputcollid a b = .eq ↔ byteOrder a b = .eq := by
    have hd : cat.isDeterministic op.inputcollid = true := by
      simp only [forEqualityCollation, decide_eq_true_eq] at hc
      exact hc.2
    rw [laws.deterministic _ hd, byteOrder_eq]
  cases hk : i.kind with
  | equal =>
    rw [hk] at h
    rw [holds, holds, Bool.eq_iff_iff, beq_iff_eq, beq_iff_eq]
    exact he h
  | notEqual =>
    rw [hk] at h
    rw [holds, holds, Bool.eq_iff_iff, bne_iff_ne, bne_iff_ne]
    exact not_congr (he h)
  | less | lessEqual | greater | greaterEqual =>
    rw [hk] at h
    rw [laws.byteOrdered _ h]

lemma compare_text (left right : Option SqlValue) :
    cat.compare op left right = i.kind.truth byteOrder left right := by
  rw [Catalog.compare, hsig]
  cases left with
  | none => rfl
  | some a =>
    cases right with
    | none => rfl
    | some b =>
      cases a with
      | text y =>
        cases b with
        | text o => exact congrArg some (holds_collate laws hsig h y o)
        | _ => rfl
      | _ => cases b <;> rfl

end

lemma compare_plain (hsig : cat.forOperator op.opno = some i)
    {left : Option SqlValue} (hl : ∀ bs, left ≠ some (.text bs)) (right : Option SqlValue) :
    cat.compare op left right = i.kind.truth byteOrder left right ∧
      cat.compare op right left = i.kind.truth byteOrder right left := by
  simp only [Catalog.compare, hsig]
  cases left with
  | none => cases right <;> exact ⟨rfl, rfl⟩
  | some a =>
    cases a with
    | text bs => exact absurd rfl (hl bs)
    | _ =>
      cases right with
      | none => exact ⟨rfl, rfl⟩
      | some b => cases b <;> exact ⟨rfl, rfl⟩

end Collations

/-! ## The SQL side -/

/-- The stored types a column of each PostgreSQL type is read from. -/
def TypeOid.ReadsFrom : TypeOid → IcebergType → Prop
  | .bool, stored => stored = .boolean
  | .int2, stored | .int4, stored => stored = .int
  | .int8, stored => stored = .long
  | .float4, stored => stored = .float
  | .float8, stored => stored = .double
  | .numeric, .decimal precision scale => 1 ≤ precision ∧ precision ≤ 38 ∧ scale ≤ precision
  | .numeric, _ => False
  | .date, stored => stored = .date
  | .time, stored => stored = .time
  | .timestamp, stored => stored = .timestamp ∨ stored = .timestampNs
  | .timestamptz, stored => stored = .timestamptz ∨ stored = .timestamptzNs
  | .text, stored | .varchar, stored | .bpchar, stored => stored = .string
  | .uuid, stored => stored = .uuid ∨ stored = .fixed 16
  | .bytea, stored => stored = .binary ∨ stored = .uuid ∨ ∃ width, stored = .fixed width
  | .array _, _ | .other _, _ => True

namespace IcebergFilterPlanner

variable (planner : IcebergFilterPlanner)

/-- The rows a scan of the relation can produce. -/
abbrev StoredRow := { row : Row // planner.schema.Stores row }

variable (column : ColumnRef)

def stored (row : Row) : Option Datum :=
  match planner.layout.column column.attno with
  | .ok (name, _) => (planner.schema.fieldByName name).bind fun field => row field.id
  | .error _ => none

def sql (values : RuntimeValueBindings) (row : Row) : ScalarExpr → Option SqlValue
  | .column column => (planner.stored column row).map Datum.read
  | .value slot => (values slot).toSql

/-- What PostgreSQL computes; widening and relabelling keep a column's value. -/
def semantics (values : RuntimeValueBindings) :
    ScalarSemantics ScalarExpr PgComparisonOp planner.StoredRow where
  isNull value row := (planner.sql values row value).isNone
  boolean value row := SqlValue.truth (planner.sql values row value)
  compare operator left right row :=
    planner.catalog.compare operator (planner.sql values row left) (planner.sql values row right)
  isNan value row := SqlValue.nanTruth (planner.sql values row value)
  startsWith value pre row :=
    SqlValue.prefixTruth (planner.sql values row value) (planner.sql values row pre)
  inSet operator value set row :=
    match set with
    | .value slot =>
      (values slot).memberTruth (planner.catalog.compare operator (planner.sql values row value))
    | .column column => planner.catalog.storedMember operator.opno (planner.sql values row value)
      (planner.stored column row)

/-- A column reference repeats its attribute's declaration, and the scan can read
the field behind it as that type. -/
def Describes : Prop :=
  ∀ name attr, planner.layout.column column.attno = .ok (name, attr) →
    attr.typmod = column.declaredType.typmod ∧
      ∀ field, planner.schema.fieldByName name = some field →
        column.declaredType.typeOid.ReadsFrom field.fieldType

/-- A boolean test is over a boolean column. -/
def IsBoolean : Prop :=
  ∀ name attr, planner.layout.column column.attno = .ok (name, attr) →
    ∀ field, planner.schema.fieldByName name = some field → field.fieldType = .boolean

/-- What PostgreSQL's analysis promises of the operands of a leaf. -/
def LeafAnalyzed : PredicateExpr ScalarExpr PgComparisonOp → Prop
  | .comparison _ (.column column) _ => planner.Describes column
  | .comparison _ _ (.column column) => planner.Describes column
  | .inSet _ (.column column) _ => planner.Describes column
  | .startsWith (.column column) _ => planner.Describes column
  | .booleanTest _ (.column column) => planner.IsBoolean column
  | _ => True

def Analyzed (e : PredicateExpr ScalarExpr PgComparisonOp) : Prop :=
  ∀ leaf ∈ e.plannedLeaves, planner.LeafAnalyzed leaf

end IcebergFilterPlanner

/-! ## Types of planned values -/

lemma numericPrecisionScale_typmod {r c : ℕ} (hp : r ≤ 38) (hs : c ≤ 38) :
    numericPrecisionScale (numericTypmod r c) = some (r, (c : ℤ)) := by
  have ha : ∀ p < 39, ∀ s < 39, numericPrecisionScale (numericTypmod p s) = some (p, (s : ℤ)) := by
    decide +kernel
  exact ha r (by omega) c (by omega)

lemma decimalForType_typmod {t : ExprType} {c : Decimal128NumericCodec}
    {p s : ℕ} (h : decimalForType t = some c) (hp : p ≤ 38) (hs : s ≤ p)
    (ht : t.typmod = numericTypmod p s) : c.precision = p ∧ c.scale = s := by
  unfold decimalForType at h
  split_ifs at h
  rw [ht, numericPrecisionScale_typmod hp (by omega), Option.bind_some] at h
  unfold decimalShape at h
  split_ifs at h
  cases h
  exact ⟨rfl, by simp⟩

section ValueTypes

open PgPredicatePushdownPolicy

variable {l : ColumnRef} {v : RuntimeValueSpec} {utf8 : Bool} {t q : PlannedValueType}
  {f : IcebergType}

lemma widenedInteger_storage {d e : TypeOid} (h : widenedInteger d e = some t) (hr : d.ReadsFrom f)
    (hs : t.withSourceType f = some q) : f = q.storage ∧ q ≠ .string := by
  unfold widenedInteger at h
  split at h
  all_goals first
    | cases h
      cases hs
      exact ⟨hr, fun hsa => nomatch hsa⟩
    | cases h

lemma sameType_eq {i e v : TypeOid} {s : PlannedValueType}
    (h : sameType i e v s = some t) : t = s := by
  unfold sameType at h
  split_ifs at h
  exact (Option.some.inj h).symm

section

variable (hre : l.declaredType.typeOid.ReadsFrom f)
  (hty : ∀ precision scale, f = .decimal precision scale → l.declaredType.typmod =
    numericTypmod precision scale)

include hre hty

lemma decimal_storage {c : Decimal128NumericCodec}
    (h : decimalForStorageComparison l.declaredType l.valueType v.valueType = some c)
    (hd : l.declaredType.typeOid = .numeric) : f = (PlannedValueType.decimal128 c).storage := by
  obtain ⟨d, hds, hr⟩ := Option.bind_eq_some_iff.mp h
  obtain ⟨ef, _, hr⟩ := Option.bind_eq_some_iff.mp hr
  obtain ⟨o, _, hsa⟩ := Option.bind_eq_some_iff.mp hr
  split_ifs at hsa with hsh
  cases hsa
  rw [hd] at hre
  cases f with
  | decimal precision scale =>
    obtain ⟨_, hp, hsc⟩ := hre
    have hs := decimalForType_typmod hds hp hsc (hty _ _ rfl)
    rw [PlannedValueType.storage, ← hsh.1, hs.1, hs.2]
  | _ => exact hre.elim

lemma tabulatedValueType_storage (h : tabulatedValueType l v utf8 = some t)
    (hs : t.withSourceType f = some q) :
    f = q.storage ∧ (q = .string → l.valueType.typeOid.isText = true) := by
  unfold tabulatedValueType at h
  cases hd : l.declaredType.typeOid with
  | bool | date =>
    simp only [hd] at h hre
    cases sameType_eq h
    cases hs
    exact ⟨hre, fun hsa => nomatch hsa⟩
  | uuid | bytea | timestamp | timestamptz =>
    simp only [hd] at h
    cases sameType_eq h
    cases f <;> cases hs <;> exact ⟨rfl, fun hsa => nomatch hsa⟩
  | int2 | int4 | int8 =>
    simp only [hd] at h hre
    split_ifs at h
    split at h <;> cases h <;> cases hs <;> exact ⟨hre, fun hsa => nomatch hsa⟩
  | numeric =>
    simp only [hd] at h
    split_ifs at h
    obtain ⟨c, hc, rfl⟩ := Option.map_eq_some_iff.mp h
    cases hs
    exact ⟨decimal_storage hre hty hc hd, fun hsa => nomatch hsa⟩
  | text | varchar =>
    simp only [hd] at h hre
    split_ifs at h with ht
    cases h
    cases hs
    exact ⟨hre, fun _ => ht.1⟩
  | _ =>
    simp only [hd] at h
    cases h

lemma plannedValueType_storage (h : plannedValueType l v utf8 = some t)
    (hs : t.withSourceType f = some q) :
    f = q.storage ∧ (q = .string → l.valueType.typeOid.isText = true) := by
  unfold plannedValueType at h
  dsimp only at h
  split at h
  next w hw =>
    cases h
    split_ifs at hw
    obtain ⟨hst, hne⟩ := widenedInteger_storage hw hre hs
    exact ⟨hst, fun hsa => absurd hsa hne⟩
  next => exact tabulatedValueType_storage hre hty h hs

end

end ValueTypes

/-! ## Planned leaves -/

namespace IcebergFilterPlanner

variable {p : IcebergFilterPlanner} {l : ColumnRef} {q : PlannedIcebergColumn}

lemma column_eq (h : p.column l.attno = .ok (some q)) :
    ∃ n a f, p.layout.column l.attno = .ok (n, a) ∧ p.schema.fieldByName n = some f ∧
      matchesDecimal f.fieldType a = true ∧ q = ⟨f.id, n⟩ := by
  obtain ⟨⟨n, a⟩, hc, hr⟩ := bind_eq_ok h
  dsimp only at hr
  split at hr
  next => cases hr
  next f hf =>
    have hp := Except.ok.inj hr
    split_ifs at hp with hd
    exact ⟨n, a, f, hc, hf, hd, (Option.some.inj hp).symm⟩

lemma column_value (h : p.column l.attno = .ok (some q)) (vs : RuntimeValueBindings) (row : Row) :
    q.value row = p.sql vs row (.column l) := by
  obtain ⟨n, a, f, hc, hf, _, rfl⟩ := column_eq h
  simp [sql, stored, hc, hf, PlannedIcebergColumn.value]

end IcebergFilterPlanner

lemma Schema.typeOf_fieldByName {s : Schema} {n : String} {f : Field}
    (h : s.fieldByName n = some f) : s.fieldById f.id = some f := by
  have hm : f ∈ s.fields := mem_of_find?_eq_some h
  cases hf : s.fieldById f.id with
  | none =>
    have hn := List.find?_eq_none.mp hf f hm
    simp at hn
  | some o =>
    have ho : o ∈ s.fields := mem_of_find?_eq_some hf
    have hi : o.id = f.id := by simpa using List.find?_some hf
    rw [inj_on_of_nodup_map s.nodup ho hm hi]

namespace IcebergFilterPlanner

open PgPredicatePushdownPolicy

variable {p : IcebergFilterPlanner} {l : ColumnRef} {v : RuntimeValueSpec} {op : PgComparisonOp}
  {r : ResolvedComparison}

/-- What the policy has checked of an accepted comparison. -/
structure Accepted (planner : IcebergFilterPlanner) (column : ColumnRef)
    (operator : PgComparisonOp) (resolved : ResolvedComparison)
    (signature : PgComparisonSignature) : Prop where
  known : planner.catalog.forOperator operator.opno = some signature
  sameKind : resolved.supported.operator = signature.kind
  planned : planner.column column.attno = .ok (some resolved.column)
  storage : planner.schema.typeOf resolved.column.fieldId = some resolved.valueType.storage
  text : resolved.valueType = .string → forComparison planner.catalog operator signature.kind = true

variable {kind : PgComparisonKind}

lemma opClass_eq {cat : Catalog} {o : ℕ} (h : opClass cat o = some kind) :
    ∃ i, cat.forOperator o = some i ∧ kind = i.kind := by
  obtain ⟨i, hs, hk⟩ := Option.bind_eq_some_iff.mp h
  split_ifs at hk
  exact ⟨i, hs, (Option.some.inj hk).symm⟩

lemma textSemantics_of_capability {t : TypeOid} {s : Bool} {c : SupportedPredicateCapability}
    (ht : t.isText = true) (h : capabilityForClass t op s kind = some c) : s = true := by
  cases t with
  | text | varchar =>
    simp only [capabilityForClass] at h
    split_ifs at h with hs
    exact hs
  | _ => cases ht

lemma resolvedValueType_storage {q : PlannedIcebergColumn} {planned t : PlannedValueType}
    (hde : p.Describes l) (hco : p.column l.attno = .ok (some q))
    (hp : plannedValueType l v p.utf8 = some planned)
    (hso : p.resolvedValueType q planned = some t) :
    p.schema.typeOf q.fieldId = some t.storage ∧
      (t = .string → l.valueType.typeOid.isText = true) := by
  obtain ⟨n, a, f, hl, hf, hd, rfl⟩ := column_eq hco
  obtain ⟨ht, hr⟩ := hde n a hl
  have hbi := Schema.typeOf_fieldByName hf
  rw [resolvedValueType, hbi] at hso
  have hs := plannedValueType_storage (hr f hf) (fun r s hsh => by
      rw [hsh] at hd
      simpa [matchesDecimal, ht] using hd) hp hso
  refine ⟨?_, hs.2⟩
  rw [Schema.typeOf, hbi, Option.map_some, hs.1]

lemma resolveComparison_accepted (hde : p.Describes l)
    (h : p.resolveComparison l v op = .ok (some r)) : ∃ i, p.Accepted l op r i := by
  unfold resolveComparison at h
  split at h
  next => cases h
  next supported t hpl =>
    obtain ⟨f, hco, hr⟩ := bind_eq_ok h
    cases f with
    | none => cases hr
    | some pc =>
      obtain ⟨s, hso, hre⟩ := Option.map_eq_some_iff.mp (Except.ok.inj hr)
      subst hre
      obtain ⟨planned, hp, hr⟩ := Option.bind_eq_some_iff.mp hpl
      obtain ⟨kind, hk, hr⟩ := Option.bind_eq_some_iff.mp hr
      obtain ⟨c, hc, hpa⟩ := Option.bind_eq_some_iff.mp hr
      cases hpa
      obtain ⟨i, hsi, rfl⟩ := opClass_eq hk
      have hs := resolvedValueType_storage hde hco hp hso
      refine ⟨i, hsi, rfl, hco, hs.1, fun hst => ?_⟩
      have ht := hs.2 hst
      have hse := textSemantics_of_capability ht hc
      simpa [ht] using hse

lemma text_of_read {s : Datum} {bs : Bytes} (h : s.read = .text bs) : s.type = .string := by
  cases s <;> first | rfl | cases h

lemma storage_string {t : PlannedValueType} (h : t.storage = .string) : t = .string := by
  cases t with
  | string => rfl
  | timestamp precision | timestamptz precision => cases precision <;> cases h
  | _ => cases h

lemma Accepted.compare_eq {i : PgComparisonSignature} (h : p.Accepted l op r i)
    (laws : p.catalog.Laws) (row : p.StoredRow) (right : Option SqlValue) :
    p.catalog.compare op (r.column.value row) right =
        i.kind.truth byteOrder (r.column.value row) right ∧
      p.catalog.compare op right (r.column.value row) =
        i.kind.truth byteOrder right (r.column.value row) := by
  by_cases hs : r.valueType = .string
  · have ht := h.text hs
    exact ⟨compare_text laws h.known ht _ _, compare_text laws h.known ht _ _⟩
  · refine compare_plain h.known (fun b hb => ?_) right
    obtain ⟨s, hst, hr⟩ := Option.map_eq_some_iff.mp hb
    have hty := (row.2.typed h.storage hst).1
    rw [text_of_read hr] at hty
    exact hs (storage_string hty.symm)

end IcebergFilterPlanner

/-! ## Leaf plans -/

section LeafPlans

variable {p : IcebergFilterPlanner} {vs : RuntimeValueBindings} {ss : ℕ → RuntimeValueSpec}
  {plan : PredicatePlan PlannedIcebergNode} {c : p.StoredRow → Truth} {node : PlannedIcebergNode}

namespace IcebergFilterPlanner

def holds (planner : IcebergFilterPlanner) (values : RuntimeValueBindings)
    (node : PlannedIcebergNode) (row : planner.StoredRow) : Bool :=
  node.eval values row == some true

/-- A plan selects what its mark says and binds under the polarities it allows. -/
def Plans (planner : IcebergFilterPlanner) (values : RuntimeValueBindings)
    (condition : planner.StoredRow → Truth) (plan : PredicatePlan PlannedIcebergNode) : Prop :=
  plan.Meets (planner.holds values) .not condition ∧
    plan.Graded (fun node => node.Faithful planner.schema true false)
      (fun node => node.Faithful planner.schema false false)
      fun node => node.Faithful planner.schema false false ∧ node.Faithful planner.schema false true

lemma Plans.unsupported : p.Plans vs c .unsupported := ⟨trivial, trivial⟩

lemma Plans.exact (he : ∀ row : p.StoredRow, node.eval vs row = c row)
    (hf : ∀ neg, node.Faithful p.schema false neg) : p.Plans vs c (.exact node) := by
  refine ⟨⟨fun row => ?_, fun row => ?_⟩, hf false, hf true⟩
  · rw [holds, beq_iff_eq, he row]
  · rw [holds, beq_iff_eq, eval, evalWith]
    exact iff_of_eq (congrArg (·.not = some true) (he row))

lemma Plans.exactNoComplement
    (he : ∀ row : p.StoredRow, node.eval vs row = some true ↔ c row = some true)
    (hf : node.Faithful p.schema false false) : p.Plans vs c (.exactNoComplement node) := by
  refine ⟨fun row => ?_, hf⟩
  rw [holds, beq_iff_eq, he row]

lemma Plans.conservative (he : ∀ row : p.StoredRow, node.eval vs row = c row)
    (hf : node.Faithful p.schema true false) : p.Plans vs c (.conservative node) := by
  refine ⟨fun row hr => ?_, hf⟩
  rw [holds, beq_iff_eq, he row, hr]

variable {value : ScalarExpr}

section

variable {supported : ColumnRef → Bool}
  {b : PlannedIcebergColumn → PredicatePlan PlannedIcebergNode}
  (h : p.planColumn value supported b = .ok plan)

include h

lemma planColumn_eq : plan = .unsupported ∨ ∃ l q, value = .column l ∧
      supported l = true ∧ p.column l.attno = .ok (some q) ∧ plan = b q := by
  unfold planColumn at h
  split at h
  next =>
    cases h
    exact .inl rfl
  next l =>
    split_ifs at h with hs
    · obtain ⟨f, hf, hp⟩ := bind_eq_ok h
      cases f with
      | none =>
        cases hp
        exact .inl rfl
      | some q =>
        cases hp
        exact .inr ⟨l, q, rfl, hs, hf, rfl⟩
    · cases h
      exact .inl rfl

lemma planColumn_plans (hb : ∀ l q, value = .column l → p.column l.attno = .ok (some q) →
        p.Plans vs c (b q)) : p.Plans vs c plan := by
  obtain rfl | ⟨l, q, hv, -, hp, rfl⟩ := planColumn_eq h
  · exact .unsupported
  · exact hb l q hv hp

end

lemma strictTrue_plans (h : (p.adapter ss).strictTrue value = .ok plan) :
    p.Plans vs ((PredicateExpr.strictTrue value).eval (p.semantics vs)) plan := by
  refine planColumn_plans h fun l q hv hp => ?_
  refine .exactNoComplement (fun row => ?_) trivial
  simp only [eval, evalWith, column_value hp vs, PredicateExpr.eval, semantics, hv]
  cases p.sql vs row (.column l) <;> simp

lemma strictFalse_plans (h : (p.adapter ss).strictFalse value = .ok plan) :
    p.Plans vs ((PredicateExpr.strictFalse value).eval (p.semantics vs)) plan := by
  refine planColumn_plans h fun l q hv hp => ?_
  refine .exactNoComplement (fun row => ?_) trivial
  simp only [eval, evalWith, PredicateExpr.eval, semantics, hv]
  cases p.sql vs row (.column l) <;> simp

lemma booleanTest_plans {kind : BooleanTestKind} (ha : p.LeafAnalyzed (.booleanTest kind value))
    (h : (p.adapter ss).booleanTest kind value = .ok plan) :
    p.Plans vs ((PredicateExpr.booleanTest kind value).eval (p.semantics vs)) plan := by
  refine planColumn_plans h fun l q hv hp => ?_
  subst hv
  refine .exact (fun row => ?_) fun n => ?_
  · simp only [eval, evalWith, column_value hp vs, PredicateExpr.eval, semantics]
  · obtain ⟨name, a, f, hl, hf, _, rfl⟩ := column_eq hp
    have ht := ha name a hl f hf
    change p.schema.typeOf f.id = some .boolean
    rw [Schema.typeOf, Schema.typeOf_fieldByName hf, Option.map_some, ht]

lemma nullTest_plans {n : Bool} (h : p.planNullTest value n = .ok plan) :
    p.Plans vs (fun row => some (if n then
      !(p.sql vs row value).isNone else (p.sql vs row value).isNone)) plan := by
  refine planColumn_plans h fun l q hv hp => ?_
  subst hv
  cases n with
  | false | true =>
    refine .exact (fun row => ?_) fun _ => trivial
    simp [eval, evalWith, column_value hp vs]

lemma nanTest_plans {n : Bool} (h : p.planNanTest value n = .ok plan) :
    p.Plans vs (fun row => if n then Truth.not (SqlValue.nanTruth (p.sql vs row value))
      else SqlValue.nanTruth (p.sql vs row value)) plan := by
  refine planColumn_plans h fun l q hv hp => ?_
  subst hv
  cases n with
  | false | true =>
    refine .exact (fun row => ?_) fun _ => trivial
    simp [eval, evalWith, column_value hp vs]

lemma startsWith_plans {v r : ScalarExpr} (ha : p.LeafAnalyzed (.startsWith v r))
    (h : p.planStartsWith ss v r = .ok plan) :
    p.Plans vs ((PredicateExpr.startsWith v r).eval (p.semantics vs)) plan := by
  unfold planStartsWith at h
  split at h
  next =>
    cases h
    exact .unsupported
  next s =>
    obtain rfl | ⟨l, q, rfl, hs, hp, rfl⟩ := planColumn_eq h
    · exact .unsupported
    obtain ⟨t, ht⟩ := Option.isSome_iff_exists.mp hs
    obtain ⟨planned, hpl, hk⟩ := Option.bind_eq_some_iff.mp ht
    obtain rfl : planned = .string := by
      split_ifs at hk with hn
      cases planned <;> simp [PgPredicatePushdownPolicy.plannedValueKind] at hn
      rfl
    obtain ⟨n, _, f, _, hf, _, rfl⟩ := column_eq hp
    have hso : p.resolvedValueType ⟨f.id, n⟩ .string = some .string := by
      rw [resolvedValueType, Schema.typeOf_fieldByName hf]
      cases f.fieldType <;> rfl
    refine .exactNoComplement (fun row => ?_) ⟨rfl, (resolvedValueType_storage ha hp hpl hso).1⟩
    simp only [eval, evalWith, column_value hp vs, PredicateExpr.eval, semantics, sql]

variable {op : PgComparisonOp}

section

variable (laws : p.catalog.Laws)

include laws

lemma columnComparison_plans {l : ColumnRef} {slot : ℕ} {m : Bool} (hd : p.Describes l)
    (h : p.planColumnComparison ss op l slot m = .ok plan) :
    p.Plans vs (fun row => if m then p.catalog.compare op (vs slot).toSql (p.sql vs row (.column l))
      else p.catalog.compare op (p.sql vs row (.column l)) (vs slot).toSql) plan := by
  obtain ⟨f, hf, hp⟩ := bind_eq_ok h
  cases f with
  | none =>
    cases hp
    exact .unsupported
  | some r =>
    cases hp
    obtain ⟨s, ha⟩ := resolveComparison_accepted hd hf
    have he : ∀ row : p.StoredRow, (comparison
          (if m then (plannedOperator r.supported.operator).mirrored
            else plannedOperator r.supported.operator)
          r.column slot r.valueType).eval vs row =
        if m then p.catalog.compare op (vs slot).toSql (p.sql vs row (.column l))
        else p.catalog.compare op (p.sql vs row (.column l)) (vs slot).toSql := by
      intro row
      obtain ⟨hl, hr⟩ := ha.compare_eq laws row (vs slot).toSql
      rw [← column_value ha.planned vs, eval, evalWith, ha.sameKind]
      cases m with
      | false => simpa [plannedOperator_kind] using hl.symm
      | true => simpa [truth_mirrored] using hr.symm
    unfold comparisonPlan
    cases comparisonCapability r with
    | exact => exact .exact he fun _ => ha.storage
    | conservative => exact .conservative he ha.storage

lemma comparison_plans {left right : ScalarExpr} (ha : p.LeafAnalyzed (.comparison op left right))
    (h : p.planComparison ss op left right = .ok plan) :
    p.Plans vs ((PredicateExpr.comparison op left right).eval (p.semantics vs)) plan := by
  cases left with
  | column column =>
    cases right with
    | column o =>
      cases h
      exact .unsupported
    | value s => exact columnComparison_plans laws ha h
  | value s =>
    cases right with
    | column column => exact columnComparison_plans laws ha h
    | value o =>
      cases h
      exact .unsupported

lemma inSet_plans {v set : ScalarExpr} (han : p.LeafAnalyzed (.inSet op v set))
    (h : p.planInSet ss op v set = .ok plan) :
    p.Plans vs ((PredicateExpr.inSet op v set).eval (p.semantics vs)) plan := by
  unfold planInSet at h
  split at h
  next column slot =>
    split_ifs at h with hs
    · split at h
      next =>
        cases h
        exact .unsupported
      next el hel =>
        obtain ⟨f, hf, hp⟩ := bind_eq_ok h
        cases f with
        | none =>
          cases hp
          exact .unsupported
        | some r =>
          have hp := Except.ok.inj hp
          split_ifs at hp with hr
          · exact hp ▸ .unsupported
          · obtain ⟨s, ha⟩ := resolveComparison_accepted han hf
            have he : s.kind = .equal := by
              rw [← ha.sameKind]
              exact not_not.mp fun hne => hr (.inl hne)
            refine hp ▸ .conservative (fun row => ?_) ⟨rfl, rfl, ha.storage⟩
            simp only [eval, evalWith, PredicateExpr.eval, semantics]
            rw [← column_value ha.planned vs]
            congr 1
            funext right
            rw [(ha.compare_eq laws row right).1, he]
    · cases h
      exact .unsupported
  next =>
    cases h
    exact .unsupported

lemma leaf_plans {l : PredicateExpr ScalarExpr PgComparisonOp} (hl : l.isLeaf = true)
    (ha : p.LeafAnalyzed l) (h : l.planWith (p.adapter ss) = .ok plan) :
    p.Plans vs (l.eval (p.semantics vs)) plan := by
  cases l with
  | and | or | not => cases hl
  | alwaysTrue | alwaysFalse =>
    cases h
    exact .exact (fun _ => rfl) fun _ => trivial
  | strictTrue value => exact strictTrue_plans h
  | strictFalse value => exact strictFalse_plans h
  | comparison op left right => exact comparison_plans laws ha h
  | booleanTest kind value => exact booleanTest_plans ha h
  | isNull | isNotNull => exact nullTest_plans h
  | isNan | isNotNan => exact nanTest_plans h
  | startsWith value r => exact startsWith_plans ha h
  | inSet op value set => exact inSet_plans laws ha h

end

end IcebergFilterPlanner

end LeafPlans

/-! ## Bound trees -/

namespace PlannedIcebergNode

mutual

def mentionsSet : PlannedIcebergNode → Bool
  | .inSet _ _ _ => true
  | .and children => mentionsSetAny children
  | .or children => mentionsSetAny children
  | .not child => child.mentionsSet
  | _ => false

def mentionsSetAny : List PlannedIcebergNode → Bool
  | [] => false
  | child :: rest => child.mentionsSet || mentionsSetAny rest

end

lemma mentionsSetAny_eq (cs : List PlannedIcebergNode) :
    mentionsSetAny cs = cs.any mentionsSet := by
  induction cs with
  | nil => rfl
  | cons c r ih => rw [mentionsSetAny, ih, any_cons]

variable {node : PlannedIcebergNode} {s : Schema}

lemma Faithful.of_sets {f second neg : Bool} (hs : node.mentionsSet = true → second = true)
    (h : node.Faithful s f neg) : node.Faithful s second neg := by
  induction node using tree_induction generalizing neg with
  | and c ih | or c ih =>
    have ha := faithfulAll_iff.mp h
    rw [mentionsSet, mentionsSetAny_eq, any_eq_true] at hs
    exact faithfulAll_iff.mpr fun ch hc => ih ch hc (fun hse => hs ⟨ch, hc, hse⟩) (ha ch hc)
  | not ch ih => exact ih hs h
  | leaf node hl =>
    cases node with
    | and c | or c | not ch => cases hl
    | inSet column set v => exact ⟨h.1, hs rfl, h.2.2⟩
    | _ => exact h

lemma Faithful.widen {neg : Bool} (h : node.Faithful s false neg) : node.Faithful s true neg :=
  h.of_sets fun _ => rfl

lemma Faithful.narrow {neg : Bool} (hs : node.mentionsSet = false) (h : node.Faithful s true neg) :
    node.Faithful s false neg :=
  h.of_sets fun hse => absurd (hse.symm.trans hs) (by decide)

end PlannedIcebergNode

attribute [local simp] evalWith PlannedIcebergNode.evalAll_eq

namespace IcebergFilterPlanner

open IcebergFilterBinder

variable (planner : IcebergFilterPlanner) (values : RuntimeValueBindings)
  (slots : ℕ → RuntimeValueSpec)

lemma adapter_laws : ConnectiveLaws (planner.adapter slots) (planner.holds values) where
  conjunction := by
    intro p _ row
    rw [Bool.eq_iff_iff]
    simp [holds, adapter, Truth.all_eq_true]
  disjunction := by
    intro p _ row
    rw [Bool.eq_iff_iff]
    simp [holds, adapter, Truth.any_eq_true]
  negateConjunction := by
    intro p _ row
    rw [Bool.eq_iff_iff]
    simp [holds, adapter, Truth.all_eq_false]
  negateDisjunction := by
    intro p _ row
    rw [Bool.eq_iff_iff]
    simp [holds, adapter, Truth.any_eq_false]
  negateNegate := by
    simp [holds, adapter]

lemma faithful_closed (ss neg : Bool) :
    Closed (planner.adapter slots) fun node => node.Faithful planner.schema ss neg :=
  ⟨fun _ h => faithfulAll_iff.mpr h, fun _ h => faithfulAll_iff.mpr h⟩

lemma adapter_grades : GradeLaws (planner.adapter slots)
    (fun node => node.Faithful planner.schema true false)
    (fun node => node.Faithful planner.schema false false)
    fun node => node.Faithful planner.schema false false ∧
      node.Faithful planner.schema false true where
  closed_covering := planner.faithful_closed slots true false
  closed_exact := planner.faithful_closed slots false false
  closed_complementable :=
    ⟨fun _ h => ⟨(planner.faithful_closed slots false false).conjunction _ fun p hp => (h p hp).1,
        (planner.faithful_closed slots false true).conjunction _ fun p hp => (h p hp).2⟩,
      fun _ h => ⟨(planner.faithful_closed slots false false).disjunction _ fun p hp => (h p hp).1,
        (planner.faithful_closed slots false true).disjunction _ fun p hp => (h p hp).2⟩⟩
  covering_of_exact := fun _ h => h.widen
  exact_of_complementable := fun _ h => h.1
  negate := fun _ h => ⟨h.2, h.1⟩

/-- What a bound predicate says about the expression it was planned from and
about the part of it that was planned. -/
structure BoundFaithful (api : PredicateApi) (e : PredicateExpr ScalarExpr PgComparisonOp)
    (plan : PredicatePlan PlannedIcebergNode) (node : PlannedIcebergNode)
    (predicate : Predicate) : Prop where
  /-- All leaves are exact and nothing was left out. -/
  exact : plan.isWidened = false →
    (∀ leaf ∈ e.plannedLeaves, ∀ leafPlan, leaf.planWith (planner.adapter slots) = .ok leafPlan →
      leafPlan.isExact = true) →
    ∀ row : planner.StoredRow,
      (api.selects predicate row = true ↔ e.eval (planner.semantics values) row = some true) ↔
        node.FilterAgrees values row
  covers : ∀ row : planner.StoredRow, e.eval (planner.semantics values) row = some true →
    api.selects predicate row = true
  /-- Only sets are bound wider than they are planned. -/
  plannedExact : node.mentionsSet = false → ∀ row : planner.StoredRow,
    (api.selects predicate row = true ↔ node.eval values row = some true) ↔
      node.FilterAgrees values row
  plannedCovers : ∀ row : planner.StoredRow, node.eval values row = some true →
    api.selects predicate row = true
  /-- A file with every column is read as SQL reads it. -/
  complete : ∀ row : planner.StoredRow, (∀ id, row.1.present id = true) →
    node.FilterAgrees values row
  guarded : predicate.negatesMatch = false

section Planned

variable {e : PredicateExpr ScalarExpr PgComparisonOp} {plan : PredicatePlan PlannedIcebergNode}
  {node : PlannedIcebergNode}

lemma planned_plans (laws : planner.catalog.Laws) (ha : planner.Analyzed e)
    (hp : e.planWith (planner.adapter slots) = .ok plan) :
    planner.Plans values (e.eval (planner.semantics values)) plan := by
  have hlea : ∀ leaf ∈ e.plannedLeaves, ∀ l, leaf.planWith (planner.adapter slots) = .ok l →
        planner.Plans values (leaf.eval (planner.semantics values)) l :=
    fun leaf hl _ h => leaf_plans laws (plannedLeaves_isLeaf e leaf hl) (ha leaf hl) h
  exact ⟨planWith_meets (planner.adapter_laws values slots) e
      (fun leaf hl l h => (hlea leaf hl l h).1) plan hp,
    planWith_graded (planner.adapter_grades slots) e
      (fun leaf hl l h => (hlea leaf hl l h).2) plan hp⟩

variable {planner values} {c : planner.StoredRow → Truth}

lemma Plans.faithful (h : planner.Plans values c plan)
    (hn : plan.intoPredicate = some node) : node.Faithful planner.schema true false := by
  have hg := h.2
  cases plan with
  | unsupported => cases hn
  | partialTree | conservative => exact Option.some.inj hn ▸ hg
  | exact o => exact Option.some.inj hn ▸ hg.1.widen
  | exactNoComplement o =>
    have he : o.Faithful planner.schema false false := hg
    exact Option.some.inj hn ▸ he.widen

variable {row : planner.StoredRow}

lemma holds_iff : planner.holds values node row = true ↔ node.eval values row = some true := by
  rw [holds, beq_iff_eq]

lemma Plans.covers (h : planner.Plans values c plan) (hn : plan.intoPredicate = some node)
    (hr : c row = some true) : node.eval values row = some true :=
  holds_iff.mp (h.1.covers hn row hr)

end Planned

/-- A bound predicate is faithful to SQL exactly where the row filter's reading of columns
that the data file lacks makes no difference. -/
theorem bindNode_faithful {api : PredicateApi} (apiLaws : api.Laws)
    (laws : planner.catalog.Laws) (e : PredicateExpr ScalarExpr PgComparisonOp)
    (hanalyzed : planner.Analyzed e) (plan : PredicatePlan PlannedIcebergNode)
    (hplan : e.planWith (planner.adapter slots) = .ok plan) (node : PlannedIcebergNode)
    (hnode : plan.intoPredicate = some node) (predicate : Predicate)
    (hbind : bindNode api values node false = .ok (some predicate)) :
    planner.BoundFaithful values slots api e plan node predicate := by
  have hp := planner.planned_plans values slots laws hanalyzed hplan
  have hc := hp.faithful hnode
  have hs (row : planner.StoredRow) : Selects api true predicate row
    (node.filterEval values row) true := bindNode_selects apiLaws row.2 node hc hbind
  have hcovers (row : planner.StoredRow) (h : node.eval values row = some true) :
      api.selects predicate row = true := (hs row).1 (node.eval_refines _ h)
  have he (hf : node.Faithful planner.schema false false) (row : planner.StoredRow) :
      (api.selects predicate row = true ↔ node.eval values row = some true) ↔
        node.FilterAgrees values row := by
    have hb : Selects api false predicate row (node.filterEval values row) true :=
      bindNode_selects apiLaws row.2 node hf hbind
    exact ⟨fun h ht => h.mp (hb.1 ht), fun h => ⟨fun hr => h (hb.2 rfl hr), hcovers row⟩⟩
  refine ⟨?_, fun row hr => hcovers row (hp.covers hnode hr), fun hse => he (hc.narrow hse),
    hcovers, fun row hr => node.filterEval_refines hr _, bindNode_guarded apiLaws node hc hbind⟩
  intro hw hexact row
  have hmark : plan.isExact = true :=
    (planWith_exact_or_widened e hexact plan hplan).resolve_right (by simp [hw])
  obtain ⟨hm, hg⟩ := hp
  cases plan with
  | exact o =>
    obtain rfl : o = node := Option.some.inj hnode
    rw [← hm.1 row, holds_iff]
    exact he hg.1 row
  | exactNoComplement o =>
    obtain rfl : o = node := Option.some.inj hnode
    rw [← hm row, holds_iff]
    exact he hg row
  | _ => cases hmark

end IcebergFilterPlanner

/-! ## One filter -/

def BinaryOperator.passes (row : Row) (operator : BinaryOperator) (term : Reference)
    (literal : Datum) : Bool :=
  if row.present term.fieldId then (row term.fieldId).any (operator.test · literal)
  else operator.admitsAbsent

/-- Whether a row passes (`wanted`), or would under a NOT carried to the tests. -/
def Predicate.passes (row : Row) : Predicate → Bool → Bool
  | .alwaysTrue, wanted => wanted
  | .alwaysFalse, wanted => !wanted
  | .and left right, true => left.passes row true && right.passes row true
  | .and left right, false => left.passes row false || right.passes row false
  | .or left right, true => left.passes row true || right.passes row true
  | .or left right, false => left.passes row false && right.passes row false
  | .not child, wanted => child.passes row !wanted
  | .unary operator term, wanted => operator.test (row term.fieldId) == wanted
  | .binary operator term literal, true => operator.passes row term literal
  | .binary operator term literal, false =>
    match operator.opposite with
    | some opposite => opposite.passes row term literal
    | none => !operator.passes row term literal
  | .isIn term literals, wanted =>
    (row term.fieldId).any (fun value => literals.any (BinaryOperator.eq.test value ·)) == wanted

/-- Constructors that fold constants. -/
def foldingApi : PredicateApi where
  and
    | .alwaysFalse, _ => .alwaysFalse
    | _, .alwaysFalse => .alwaysFalse
    | .alwaysTrue, right => right
    | left, .alwaysTrue => left
    | left, right => .and left right
  or
    | .alwaysTrue, _ => .alwaysTrue
    | _, .alwaysTrue => .alwaysTrue
    | .alwaysFalse, right => right
    | left, .alwaysFalse => left
    | left, right => .or left right
  not
    | .alwaysTrue => .alwaysFalse
    | .alwaysFalse => .alwaysTrue
    | child => .not child
  selects predicate row := predicate.passes row true

section

attribute [local simp] passes BinaryOperator.passes

variable (left right child : Predicate) (row : Row) (wanted : Bool)

@[local simp]
lemma foldingApi_selects : foldingApi.selects child row = child.passes row true := rfl

@[local simp]
lemma passes_not : (foldingApi.not child).passes row wanted = child.passes row !wanted := by
  cases child <;> simp [foldingApi]

@[local simp]
lemma passes_and : (foldingApi.and left right).passes row wanted =
    (and left right).passes row wanted := by
  cases wanted <;> simp only [foldingApi] <;> split <;> simp

@[local simp]
lemma passes_or : (foldingApi.or left right).passes row wanted =
    (or left right).passes row wanted := by
  cases wanted <;> simp only [foldingApi] <;> split <;> simp

lemma foldingApi_laws : foldingApi.Laws where
  always_true _ := rfl
  always_false _ := rfl
  and _ _ _ := by simp
  or _ _ _ := by simp
  not_true _ := rfl
  not_false _ := rfl
  not_and _ _ _ := by simp
  not_or _ _ _ := by simp
  not_not _ _ := by simp
  not_unary operator _ _ := by cases operator <;> simp [UnaryOperator.test, UnaryOperator.opposite]
  not_binary _ _ _ _ _ h := by simp [h]
  unary _ _ _ := by simp
  binary_value _ _ _ row value h _ := by simp [row.present_of_some h, h]
  binary_null _ _ _ _ hp h := by simp [hp, h]
  binary_absent _ _ _ _ h := by simp [h]
  isIn_mem term literals row value literal hl hv ho := by
    simpa [hv] using ⟨literal, hl, by simp [BinaryOperator.test, ho]⟩
  negatesMatch_and left right hl hr := by
    simp only [foldingApi]
    split <;> simp_all [negatesMatch]
  negatesMatch_or left right hl hr := by
    simp only [foldingApi]
    split <;> simp_all [negatesMatch]

end

/-- Four operators, and collations that compare bytes. -/
def byteCatalog : Catalog where
  forOperator
    | 1 => some ⟨.int4, .int8, 854, .less⟩
    | 2 => some ⟨.numeric, .numeric, 1721, .greaterEqual⟩
    | 3 => some ⟨.int4, .int4, 65, .equal⟩
    | _ => none
  isDeterministic _ := true
  isByteOrdered _ := true
  collate _ := byteOrder
  otherOperator _ _ _ := none
  storedMember _ _ _ := none

lemma byteCatalog_laws : byteCatalog.Laws where
  deterministic _ _ _ _ := byteOrder_eq
  byteOrdered _ _ := rfl

/-- `id int`, `price decimal(5, 2)` and `name string`. -/
def ordersPlanner : IcebergFilterPlanner where
  schema := ⟨[⟨1, "id", .int⟩, ⟨2, "price", .decimal 5 2⟩, ⟨3, "name", .string⟩], by decide⟩
  layout := ⟨[⟨some "id", .int4, -1⟩, ⟨some "price", .numeric, numericTypmod 5 2⟩,
    ⟨some "name", .text, -1⟩]⟩
  utf8 := true
  catalog := byteCatalog

def idColumn : ColumnRef := ⟨1, ⟨.int4, -1, 0⟩, ⟨.int4, -1, 0⟩⟩

def priceColumn : ColumnRef :=
  ⟨2, ⟨.numeric, numericTypmod 5 2, 0⟩, ⟨.numeric, numericTypmod 5 2, 0⟩⟩

def nameColumn : ColumnRef := ⟨3, ⟨.text, -1, 100⟩, ⟨.text, -1, 100⟩⟩

def orderSlots : ℕ → RuntimeValueSpec
  | 0 => ⟨⟨.int8, -1, 0⟩, .constant⟩
  | 1 => ⟨⟨.numeric, numericTypmod 5 2, 0⟩, .externalParam⟩
  | 2 => ⟨⟨.array .int4, -1, 0⟩, .constant⟩
  | _ => ⟨⟨.text, -1, 100⟩, .constant⟩

/-- An `int8` below every `int4`, infinity, a set with a NULL, and a prefix. -/
def orderValues (slot : ℕ) : RuntimeValue where
  datum :=
    match slot with
    | 0 => some (.scalar (.integral (-5000000000)))
    | 1 => some (.scalar (.numeric .positiveInfinity))
    | 2 => some (.array [some (.integral 7), none])
    | _ => some (.scalar (.text [97]))
  metadata := orderSlots slot

/-- `NOT (id < $0 OR price >= $1) AND id = ANY ($2) AND starts_with(name, $3)`. -/
def orderFilter : PredicateExpr ScalarExpr PgComparisonOp :=
  .and [.not (.or [.comparison ⟨1, 854, .bool, 0, 0⟩ (.column idColumn) (.value 0),
      .comparison ⟨2, 1721, .bool, 0, 0⟩ (.column priceColumn) (.value 1)]),
    .inSet ⟨3, 65, .bool, 0, 0⟩ (.column idColumn) (.value 2),
    .startsWith (.column nameColumn) (.value 3)]

lemma orderFilter_analyzed : ordersPlanner.Analyzed orderFilter := by
  intro leaf hl
  have hi : ordersPlanner.Describes idColumn := by
    rintro name attr ⟨⟩
    exact ⟨rfl, by rintro f ⟨⟩; rfl⟩
  have hp : ordersPlanner.Describes priceColumn := by
    rintro name attr ⟨⟩
    exact ⟨rfl, by rintro f ⟨⟩; exact ⟨by decide, by decide, by decide⟩⟩
  have hn : ordersPlanner.Describes nameColumn := by
    rintro name attr ⟨⟩
    exact ⟨rfl, by rintro f ⟨⟩; rfl⟩
  have hlea : orderFilter.plannedLeaves =
      [.comparison ⟨1, 854, .bool, 0, 0⟩ (.column idColumn) (.value 0),
        .comparison ⟨2, 1721, .bool, 0, 0⟩ (.column priceColumn) (.value 1),
        .inSet ⟨3, 65, .bool, 0, 0⟩ (.column idColumn) (.value 2),
        .startsWith (.column nameColumn) (.value 3)] := rfl
  rw [hlea] at hl
  simp only [mem_cons, not_mem_nil, or_false] at hl
  rcases hl with rfl | rfl | rfl | rfl
  · exact hi
  · exact hp
  · exact hi
  · exact hn

/-- Both out-of-range comparisons become null tests and the set keeps its literal. -/
theorem orderFilter_faithful :
    ∃ plan node, ordersPlanner.BoundFaithful orderValues orderSlots foldingApi orderFilter plan node
      (.and (.and (.and (.unary .notNull ⟨"id", 1⟩) (.unary .notNull ⟨"price", 2⟩))
        (.isIn ⟨"id", 1⟩ [.int 7])) (.binary .startsWith ⟨"name", 3⟩ (.string [97]))) :=
  ⟨_, _, ordersPlanner.bindNode_faithful orderValues orderSlots foldingApi_laws byteCatalog_laws
    orderFilter orderFilter_analyzed _ rfl _ rfl _ rfl⟩

/-- `id < 5`. -/
def belowFive : PredicateExpr ScalarExpr PgComparisonOp :=
  .comparison ⟨1, 854, .bool, 0, 0⟩ (.column idColumn) (.value 0)

def belowFiveValues (slot : ℕ) : RuntimeValue := ⟨some (.scalar (.integral 5)), orderSlots slot⟩

/-- A row of a file written before `id` was added. -/
def earlierRow : ordersPlanner.StoredRow := ⟨⟨fun _ => none, fun _ => false, fun _ _ => rfl⟩, nofun⟩

/-- The comparison is planned exact, and the row filter passes a row on which it is NULL. -/
theorem belowFive_passes_earlierRow :
    belowFive.planWith (ordersPlanner.adapter orderSlots) =
        .ok (.exact (.comparison .lt ⟨1, "id"⟩ 0 .int8ToInt)) ∧ ∀ api : PredicateApi, api.Laws →
        IcebergFilterBinder.bindNode api belowFiveValues
            (.comparison .lt ⟨1, "id"⟩ 0 .int8ToInt) false =
          .ok (some (.binary .lessThan ⟨"id", 1⟩ (.int 5))) ∧
          api.selects (.binary .lessThan ⟨"id", 1⟩ (.int 5)) earlierRow = true ∧
          belowFive.eval (ordersPlanner.semantics belowFiveValues) earlierRow = none :=
  ⟨rfl, fun _ laws => ⟨rfl, laws.binary_absent _ _ _ _ rfl, rfl⟩⟩

end LagoDB.Iceberg
